import Pagefold.Proofs.Braces
import Pagefold.Proofs.Utf8

/-! # Preload calls, byte by byte

`stripBytes` cuts the preload call out of the bytes of a code by byte positions alone, and looks at each
place where it cuts whether a character starts there.  It looks for the end of the function's body byte
by byte (`bodyEnd`): it goes on by one byte where a character may have several, and a backslash in a
literal takes the next byte with it, so it passes places in the middle of a character.  Yet it cuts at no
such place: neither search is ever `torn`, and both leave the bytes of what the searches over characters
leave (`bodyEnd_utf8`, `stripBytes_eq`). -/

namespace Pagefold.Page

open Text

variable {depth : Nat} {s : List Char} {d quote : Char} {own rest : List UInt8}

/-! ### Scanning bytes -/

/-- What follows a literal. -/
def behindLiteral (quote : UInt8) : List UInt8 → List UInt8
  | [] => []
  | b :: rest =>
    if b == quote then rest
    else if b == '\\'.toUInt8 then behindLiteral quote (rest.drop 1)
    else behindLiteral quote rest
termination_by bytes => bytes.length
decreasing_by
  · simp only [List.length_drop, List.length_cons]
    omega
  · exact Nat.lt_succ_self _

/-- What follows the end of a block comment, if it has one. -/
def behindComment? : List UInt8 → Option (List UInt8)
  | [] => none
  | b :: rest =>
    if b == '*'.toUInt8 && rest.head? == some '/'.toUInt8 then some rest.tail
    else behindComment? rest

theorem length_behindLiteral_le (quote : UInt8) (bytes : List UInt8) :
    (behindLiteral quote bytes).length ≤ bytes.length := by
  fun_induction behindLiteral quote bytes with
  | case1 => simp
  | case2 => simp
  | case3 b rest _ _ ih =>
      rw [List.length_drop] at ih
      simp only [List.length_cons]
      omega
  | case4 b rest _ _ ih =>
      simp only [List.length_cons]
      omega

theorem length_of_behindComment? {bytes : List UInt8} (h : behindComment? bytes = some rest) :
    rest.length ≤ bytes.length := by
  fun_induction behindComment? bytes with
  | case1 => cases h
  | case2 b bytes _ =>
      obtain rfl := Option.some.inj h
      simp only [List.length_tail, List.length_cons]
      omega
  | case3 b bytes _ ih =>
      have := ih h
      simp only [List.length_cons]
      omega

/-- The outcome of a scan. -/
inductive BodyEnd where
  /-- The bytes were to be cut in the middle of a character. -/
  | torn
  /-- The body does not end. -/
  | missing
  /-- The body ends, and `rest` follows. -/
  | found (rest : List UInt8)
deriving DecidableEq, Repr

/-- Looks for the brace that closes `depth + 1` open ones. -/
def bodyEnd (depth : Nat) : List UInt8 → BodyEnd
  | [] => .missing
  | b :: rest =>
    if b == '\x7b'.toUInt8 then bodyEnd (depth + 1) rest
    else if b == '\x7d'.toUInt8 then
      match depth with
      | 0 => if startsCharacter rest then .found rest else .torn
      | depth + 1 => bodyEnd depth rest
    else if b == '"'.toUInt8 || b == '\''.toUInt8 || b == '\x60'.toUInt8 then
      bodyEnd depth (behindLiteral b rest)
    else if b == '/'.toUInt8 && rest.head? == some '/'.toUInt8 then
      bodyEnd depth (rest.dropWhile (· != '\n'.toUInt8))
    else if b == '/'.toUInt8 && rest.head? == some '*'.toUInt8 then
      if startsCharacter rest.tail then
        match _h : behindComment? rest.tail with
        | some rest => bodyEnd depth rest
        | none => .missing
      else .torn
    else bodyEnd depth rest
termination_by bytes => bytes.length
decreasing_by
  · exact Nat.lt_succ_self _
  · exact Nat.lt_succ_self _
  · have := length_behindLiteral_le b rest
    rw [List.length_cons]
    omega
  · have := (List.dropWhile_sublist (· != '\n'.toUInt8) (l := rest)).length_le
    rw [List.length_cons]
    omega
  · have := length_of_behindComment? _h
    rw [List.length_tail] at this
    rw [List.length_cons]
    omega
  · exact Nat.lt_succ_self _

/-! ### On the bytes of a text -/

/-- Bytes of other characters are passed in a literal. -/
theorem behindLiteral_append {quote : UInt8} (h : ∀ b ∈ own, b ≠ quote ∧ b ≠ '\\'.toUInt8) :
    behindLiteral quote (own ++ rest) = behindLiteral quote rest := by
  induction own with
  | nil => rfl
  | cons b own ih =>
      obtain ⟨hquote, hslash⟩ := h b List.mem_cons_self
      rw [List.cons_append, behindLiteral]
      simp only [beq_iff_eq, hquote, hslash, if_false]
      exact ih fun b hb => h b (List.mem_cons_of_mem _ hb)

/-- A backslash takes the whole next character with it, though it takes one byte. -/
theorem behindLiteral_escaped (hquote : quote.toNat < 0x80) (hne : '\\' ≠ quote) (c : Char) :
    behindLiteral quote.toUInt8 (utf8 ('\\' :: c :: s)) = behindLiteral quote.toUInt8 (utf8 s) := by
  have hslash : '\\'.toUInt8 ≠ quote.toUInt8 := toUInt8_ne (by decide) hquote hne
  rw [utf8_cons_of_lt (by decide), behindLiteral]
  simp only [beq_iff_eq, hslash, if_false, if_true]
  rw [utf8_cons]
  rcases utf8EncodeChar_cases c with ⟨_, hbytes⟩ | ⟨_, first, more, hbytes, _, hmore⟩
  · rw [hbytes]
    rfl
  · rw [hbytes, List.cons_append, List.drop_one, List.tail_cons]
    exact behindLiteral_append fun b hb =>
      ⟨ne_of_le hquote (hmore b hb), ne_of_le (by decide) (hmore b hb)⟩

theorem behindLiteral_utf8 (hquote : quote.toNat < 0x80) (hne : '\\' ≠ quote) (s : List Char) :
    behindLiteral quote.toUInt8 (utf8 s) = utf8 (afterLiteral quote s) := by
  fun_induction afterLiteral quote s with
  | case1 => rw [utf8_nil, behindLiteral]
  | case2 c rest ih => rw [behindLiteral_escaped hquote hne, ih]
  | case3 c rest _ hc =>
      obtain rfl := beq_iff_eq.1 hc
      rw [utf8_cons_of_lt hquote, behindLiteral, if_pos (beq_self_eq_true _)]
  | case4 c rest hlast hc ih =>
      have hc : c ≠ quote := by simpa using hc
      by_cases hslash : c = '\\'
      · -- A backslash that is the last character takes nothing with it.
        cases rest with
        | nil =>
            subst hslash
            rw [utf8_cons_of_lt (by decide), ← ih, behindLiteral]
            simp [toUInt8_ne (by decide) hquote hc]
        | cons c' rest => exact absurd rfl (hlast c' rest hslash)
      · rw [utf8_cons, behindLiteral_append, ih]
        exact fun b hb => ⟨ne_of_mem_utf8EncodeChar hquote hc hb,
          ne_of_mem_utf8EncodeChar (by decide) hslash hb⟩

theorem behindComment?_append (h : ∀ b ∈ own, b ≠ '*'.toUInt8) :
    behindComment? (own ++ rest) = behindComment? rest := by
  induction own with
  | nil => rfl
  | cons b own ih =>
      have hb : b ≠ '*'.toUInt8 := h b List.mem_cons_self
      rw [List.cons_append, behindComment?]
      simp only [beq_iff_eq, hb, Bool.and_eq_true, false_and, if_false]
      exact ih fun b hb => h b (List.mem_cons_of_mem _ hb)

theorem behindComment?_utf8 (s : List Char) :
    behindComment? (utf8 s) = (afterBlockComment? s).map utf8 := by
  induction s with
  | nil => rfl
  | cons c s ih =>
      by_cases hc : c = '*'
      · subst hc
        rw [utf8_cons_of_lt (by decide), behindComment?]
        simp only [beq_self_eq_true, Bool.true_and, beq_iff_eq, head?_utf8_eq_some_iff (d := '/') (by decide)]
        cases s with
        | nil => rfl
        | cons c s =>
            by_cases hslash : c = '/'
            · subst hslash
              rw [utf8_cons_of_lt (by decide)]
              rfl
            · have hpass : afterBlockComment? ('*' :: c :: s) = afterBlockComment? (c :: s) := by
                simp [afterBlockComment?, hslash]
              have hhead : ¬ (c :: s).head? = some '/' := by simpa using hslash
              rw [if_neg hhead, ih, hpass]
      · have hpass : afterBlockComment? (c :: s) = afterBlockComment? s := by
          simp [afterBlockComment?, hc]
        rw [utf8_cons, behindComment?_append, ih, hpass]
        exact fun b hb => ne_of_mem_utf8EncodeChar (by decide) hc hb

theorem dropWhile_utf8 (hd : d.toNat < 0x80) (s : List Char) :
    (utf8 s).dropWhile (· != d.toUInt8) = utf8 (s.dropWhile (· != d)) := by
  induction s with
  | nil => rfl
  | cons c s ih =>
      by_cases hc : c = d
      · subst hc
        rw [utf8_cons_of_lt hd, List.dropWhile_cons_of_neg (by simp), List.dropWhile_cons_of_neg (by simp),
          utf8_cons_of_lt hd]
      · rw [List.dropWhile_cons_of_pos (by simpa using hc), utf8_cons, ← ih]
        refine List.dropWhile_append_of_pos fun b hb => ?_
        simpa using ne_of_mem_utf8EncodeChar hd hc hb

/-- The characters at which a scan does something. -/
def scanMarks : List Char := ['\x7b', '\x7d', '"', '\'', '\x60', '/']

theorem lower_of_mem_scanMarks (h : d ∈ scanMarks) : d.toNat < 0x80 := by
  simp only [scanMarks, List.mem_cons, List.not_mem_nil, or_false] at h
  rcases h with rfl | rfl | rfl | rfl | rfl | rfl <;> decide

theorem bodyEnd_append (h : ∀ b ∈ own, ∀ d ∈ scanMarks, b ≠ d.toUInt8) :
    bodyEnd depth (own ++ rest) = bodyEnd depth rest := by
  induction own with
  | nil => rfl
  | cons b own ih =>
      have hb := h b List.mem_cons_self
      simp only [scanMarks, List.forall_mem_cons, List.not_mem_nil] at hb
      obtain ⟨h1, h2, h3, h4, h5, h6, _⟩ := hb
      rw [List.cons_append, bodyEnd.eq_def]
      simp only [beq_iff_eq, h1, h2, h3, h4, h5, h6, Bool.or_eq_true, Bool.and_eq_true, or_self, false_and,
        if_false]
      exact ih fun b hb => h b (List.mem_cons_of_mem _ hb)

theorem bodyEnd_quote (hquote : quote = '"' ∨ quote = '\'' ∨ quote = '\x60') :
    bodyEnd depth (quote.toUInt8 :: rest) = bodyEnd depth (behindLiteral quote.toUInt8 rest) := by
  rw [bodyEnd.eq_def]
  rcases hquote with rfl | rfl | rfl <;> rfl

theorem bodyEnd_slash (hline : rest.head? ≠ some '/'.toUInt8) (hblock : rest.head? ≠ some '*'.toUInt8) :
    bodyEnd depth ('/'.toUInt8 :: rest) = bodyEnd depth rest := by
  have hline : (rest.head? == some '/'.toUInt8) = false := by simpa using hline
  have hblock : (rest.head? == some '*'.toUInt8) = false := by simpa using hblock
  rw [bodyEnd.eq_def]
  dsimp only
  rw [hline, hblock]
  rfl

theorem bodyEnd_blockComment (h : startsCharacter rest = true) :
    bodyEnd depth ('/'.toUInt8 :: '*'.toUInt8 :: rest)
      = (behindComment? rest).elim .missing (bodyEnd depth) := by
  rw [bodyEnd.eq_def]
  change (if startsCharacter rest then
    match _h : behindComment? rest with
    | some rest => bodyEnd depth rest
    | none => .missing
    else .torn) = _
  rw [if_pos h]
  split
  · rename_i after hafter
    rw [hafter]
    rfl
  · rename_i hnone
    rw [hnone]
    rfl

/-- **The scan over bytes** ends where the search over characters ends, and cuts at characters only. -/
theorem bodyEnd_utf8 (depth : Nat) (s : List Char) :
    bodyEnd depth (utf8 s) = (afterBody? depth s).elim .missing fun r => .found (utf8 r) := by
  fun_induction afterBody? depth s with
  | case1 => rw [utf8_nil, bodyEnd.eq_def]; rfl
  | case2 depth rest ih =>
      rw [utf8_cons_of_lt (by decide), utf8_cons_of_lt (by decide), bodyEnd.eq_def, ← ih,
        ← dropWhile_utf8 (by decide)]
      rfl
  | case3 depth rest after hcomment ih =>
      rw [utf8_cons_of_lt (by decide), utf8_cons_of_lt (by decide),
        bodyEnd_blockComment (startsCharacter_utf8 rest), behindComment?_utf8, hcomment, ← ih]
      rfl
  | case4 depth rest hcomment =>
      rw [utf8_cons_of_lt (by decide), utf8_cons_of_lt (by decide),
        bodyEnd_blockComment (startsCharacter_utf8 rest), behindComment?_utf8, hcomment]
      rfl
  | case5 depth c rest _ _ hopen ih =>
      obtain rfl := beq_iff_eq.1 hopen
      rw [utf8_cons_of_lt (by decide), bodyEnd.eq_def, ← ih]
      rfl
  | case6 c rest _ _ _ hclose =>
      obtain rfl := beq_iff_eq.1 hclose
      rw [utf8_cons_of_lt (by decide), bodyEnd.eq_def]
      exact if_pos (startsCharacter_utf8 rest)
  | case7 c rest _ _ _ hclose depth ih =>
      obtain rfl := beq_iff_eq.1 hclose
      rw [utf8_cons_of_lt (by decide), bodyEnd.eq_def, ← ih]
      rfl
  | case8 depth c rest _ _ _ _ hquote ih =>
      have hquote : c = '"' ∨ c = '\'' ∨ c = '\x60' := by simpa [or_assoc] using hquote
      have hlow : c.toNat < 0x80 ∧ '\\' ≠ c := by
        rcases hquote with rfl | rfl | rfl <;> decide
      rw [utf8_cons_of_lt hlow.1, bodyEnd_quote hquote, behindLiteral_utf8 hlow.1 hlow.2, ih]
  | case9 depth c rest hline hblock hopen hclose hquote ih =>
      by_cases hslash : c = '/'
      · subst hslash
        have hhead : ∀ d : Char, d.toNat < 0x80 → (∀ r, rest ≠ d :: r) →
            (utf8 rest).head? ≠ some d.toUInt8 := by
          intro d hd hne hbytes
          obtain ⟨r, hr⟩ := List.head?_eq_some_iff.1 ((head?_utf8_eq_some_iff hd).1 hbytes)
          exact hne r hr
        rw [utf8_cons_of_lt (by decide), bodyEnd_slash (hhead '/' (by decide) fun r => hline r rfl)
          (hhead '*' (by decide) fun r => hblock r rfl), ih]
      · have hpass : c ∉ scanMarks := by
          simp only [Bool.or_eq_true, beq_iff_eq, not_or] at hopen hclose hquote
          simp [scanMarks, hopen, hclose, hquote, hslash]
        rw [utf8_cons, bodyEnd_append, ih]
        intro b hb d hd
        have hne : c ≠ d := fun he => hpass (he ▸ hd)
        exact ne_of_mem_utf8EncodeChar (lower_of_mem_scanMarks hd) hne hb

/-! ### Cutting -/

/-- Whether bytes may be cut at a position: no character is torn there. -/
def isBoundary (position : Nat) (bytes : List UInt8) : Bool :=
  position ≤ bytes.length && startsCharacter (bytes.drop position)

/-- What is done to the bytes of a code. -/
inductive Strip where
  /-- They were to be cut in the middle of a character. -/
  | torn
  | kept
  | stripped (out : List UInt8)
deriving DecidableEq, Repr

/-- Cuts a call out of the bytes of a code: from `start` to where the function that is closed in front of
`behindBody` has been called, with a line end right behind it. -/
def stripCall (code : List Char) (start : Nat) (behindBody : List Char) : Strip :=
  match afterCall? behindBody with
  | none => .kept
  | some after =>
    let stop := (utf8 code).length - byteSize after
    if isBoundary start (utf8 code) && isBoundary stop (utf8 code) then
      let rest := (utf8 code).drop stop
      .stripped ((utf8 code).take start ++ if rest.head? == some '\n'.toUInt8 then rest.tail else rest)
    else .torn

/-- Cuts the preload call out of the bytes of a code. -/
def stripBytes (code : List Char) : Strip :=
  match (occurrences readMarker? code).head? with
  | none => .kept
  | some marker =>
    if !isBoundary marker.start (utf8 code) then .torn
    else
      match (occurrences readOpener? (cutAtByte marker.start code).1).getLast? with
      | none => .kept
      | some opener =>
        match bodyEnd 0 ((utf8 code).drop opener.stop) with
        | .torn => .torn
        | .missing => .kept
        | .found behindBody =>
          let closed := (utf8 code).length - behindBody.length
          if closed ≤ marker.stop then .kept
          else if !isBoundary closed (utf8 code) then .torn
          else stripCall code opener.start (cutAtByte closed code).2

section

variable {code a b : List Char}

/-- A place between two parts of a text. -/
theorem isBoundary_of_split (h : code = a ++ b) : isBoundary (byteSize a) (utf8 code) = true := by
  rw [h, isBoundary, utf8_append, ← length_utf8, List.drop_left, startsCharacter_utf8]
  simp

theorem drop_of_split (h : code = a ++ b) : (utf8 code).drop (byteSize a) = utf8 b := by
  rw [h, utf8_append, ← length_utf8, List.drop_left]

theorem take_of_split (h : code = a ++ b) : (utf8 code).take (byteSize a) = utf8 a := by
  rw [h, utf8_append, ← length_utf8, List.take_left]

/-- The place where the rest of a text starts, from the size of the rest. -/
theorem length_sub_of_split (h : code = a ++ b) : (utf8 code).length - byteSize b = byteSize a := by
  rw [h, length_utf8, byteSize_append, Nat.add_sub_cancel]

end

/-- A line end right behind the call goes with it. -/
theorem utf8_remaining (cut : PreloadCut) : utf8 cut.remaining = utf8 cut.before
    ++ if (utf8 cut.after).head? == some '\n'.toUInt8 then (utf8 cut.after).tail else utf8 cut.after := by
  have hhead := head?_utf8_eq_some_iff (s := cut.after) (d := '\n') (by decide)
  rw [PreloadCut.remaining, utf8_append]
  congr 1
  split
  · rename_i rest hrest
    rw [if_pos (beq_iff_eq.2 (hhead.2 (by rw [hrest]; rfl))), hrest, utf8_cons_of_lt (by decide)]
    rfl
  · rename_i hne
    rw [if_neg]
    intro h
    obtain ⟨rest, hrest⟩ := List.head?_eq_some_iff.1 (hhead.1 (beq_iff_eq.1 h))
    exact hne rest hrest

/-- Of two rests of a text, the one that starts later is the shorter one. -/
theorem byteSize_le_iff {a b s t : List Char} (h : a ++ s = b ++ t) :
    byteSize b ≤ byteSize a ↔ s.length ≤ t.length := by
  constructor
  · intro hle
    obtain ⟨gap, _, rfl⟩ := exists_gap_of_byteSize_le h.symm hle
    simp
  · intro hle
    by_contra hlt
    obtain ⟨gap, rfl, rfl⟩ := exists_gap_of_byteSize_le h (by omega)
    rw [List.length_append] at hle
    obtain rfl : gap = [] := List.eq_nil_of_length_eq_zero (by omega)
    simp at hlt

theorem stripCall_eq {code closed behind before rest : List Char} (hclosed : code = closed ++ behind)
    (hbefore : code = before ++ rest) : stripCall code (byteSize before) behind
      = (afterCall? behind).elim .kept fun after =>
          .stripped (utf8 (PreloadCut.remaining ⟨before, rest.take (rest.length - after.length), after⟩)) := by
  unfold stripCall
  cases hafter : afterCall? behind with
  | none => rfl
  | some after =>
      obtain ⟨calling, _, rfl⟩ := exists_calling_of_afterCall? hafter
      have hend : code = closed ++ calling ++ after := hclosed.trans (List.append_assoc _ _ _).symm
      simp only [length_sub_of_split hend, isBoundary_of_split hbefore, isBoundary_of_split hend,
        take_of_split hbefore, drop_of_split hend, Bool.and_self, if_true, Option.elim_some, utf8_remaining]

/-- **The bytes of a code** are cut where its characters are, and no character is torn. -/
theorem stripBytes_eq (code : List Char) : stripBytes code
    = (cutPreload? code).elim .kept fun cut => .stripped (utf8 cut.remaining) := by
  unfold stripBytes cutPreload?
  cases hm : (occurrences readMarker? code).head? with
  | none => rfl
  | some marker =>
      obtain ⟨front, test, rest, hstop, _, _, _, hmstart, hmstop⟩ :=
        (head?_occurrencesFrom consumes_readMarker?).1 hm
      rw [Nat.zero_add] at hmstart hmstop
      have hstart : code = front ++ (test ++ rest) := hstop.trans (List.append_assoc _ _ _)
      simp only [Option.bind_eq_bind, Option.bind_some, hmstart, hmstop, isBoundary_of_split hstart,
        cutAtByte_of_split hstart (Nat.zero_add _).symm, cutAtByte_of_split hstop (Nat.zero_add _).symm,
        Bool.not_true, Bool.false_eq_true, if_false]
      cases ho : (occurrences readOpener? front).getLast? with
      | none => rfl
      | some opener =>
          obtain ⟨before, head, inner, rfl, _, _, _, _, hostart, hostop⟩ :=
            (getLast?_occurrencesFrom consumes_readOpener?).1 ho
          rw [Nat.zero_add] at hostart hostop
          have hopen : code = before ++ (head ++ inner ++ (test ++ rest)) := by simp [hstop]
          have hinner : code = before ++ head ++ (inner ++ (test ++ rest)) := by simp [hstop]
          simp only [Option.bind_some, hostart, hostop, drop_of_split hinner, bodyEnd_utf8,
            cutAtByte_of_split hinner (Nat.zero_add _).symm, cutAtByte_of_split hopen (Nat.zero_add _).symm]
          cases hbody : afterBody? 0 (inner ++ (test ++ rest)) with
          | none => rfl
          | some behind =>
              obtain ⟨inside, hinside⟩ := exists_inside_of_afterBody? hbody
              have hclosed : code = before ++ head ++ inside ++ ['\x7d'] ++ behind := by simp [hinner, hinside]
              simp only [Option.elim_some, Option.bind_some, length_utf8 behind, length_sub_of_split hclosed,
                byteSize_le_iff (hstop.symm.trans hclosed), isBoundary_of_split hclosed,
                cutAtByte_of_split hclosed (Nat.zero_add _).symm, Bool.not_true, Bool.false_eq_true, if_false]
              split_ifs
              · rfl
              · refine (stripCall_eq hclosed hopen).trans ?_
                cases afterCall? behind <;> rfl

end Pagefold.Page
