import Pagefold.Proofs.ByteScan
import Pagefold.Proofs.Comments

/-! # Comments, byte by byte

`stripCommentBytes?` drops the comments out of the bytes of a stylesheet by byte positions alone.  It goes on
by one byte where a character may have several, a backslash in a string takes the next byte with it, and
behind a string that does not end it stands beyond the last byte.  The bytes between two comments are copied
as a slice, and there is no result if a slice begins or ends in the middle of a character or ends before it
begins.

That never happens, and what is copied are the bytes of the characters that are no part of a comment
(`comments_stripped`).  Each position stands for the rest of the text behind it, so every step over bytes is
a step over characters (`stripFrom?_utf8`). -/

namespace Pagefold.Page

open Text

variable {bytes own rest out : List UInt8} {b : UInt8} {copied i : Nat} {s css : List Char} {c quote : Char}

/-! ### Scanning by positions -/

/-- The position behind a string literal, from a position in it. -/
def literalStop (quote : UInt8) (bytes : List UInt8) (i : Nat) : Nat :=
  if h : i < bytes.length then
    if bytes[i] == quote then i + 1
    else if bytes[i] == '\\'.toUInt8 then literalStop quote bytes (i + 2)
    else literalStop quote bytes (i + 1)
  else i + 1
termination_by bytes.length - i

/-- Where the first `*/` of some bytes begins. -/
def commentEnd? : List UInt8 → Option Nat
  | [] => none
  | b :: rest =>
    if b == '*'.toUInt8 && rest.head? == some '/'.toUInt8 then some 0 else (commentEnd? rest).map (· + 1)

/-- The position behind a comment, from the position behind its opening and the bytes there. -/
def commentStop (bytes : List UInt8) (i : Nat) (comment : List UInt8) : Nat :=
  match commentEnd? comment with
  | some offset => i + offset + 2
  | none => bytes.length

/-- The bytes from one position up to another one, if no character is torn there. -/
def slice? (start stop : Nat) (bytes : List UInt8) : Option (List UInt8) :=
  if start ≤ stop ∧ isBoundary start bytes ∧ isBoundary stop bytes then
    some ((bytes.take stop).drop start)
  else none

theorem lt_literalStop (quote : UInt8) (bytes : List UInt8) (i : Nat) : i < literalStop quote bytes i := by
  fun_induction literalStop quote bytes i with
  | case1 | case4 => omega
  | case2 i _ _ _ ih | case3 i _ _ _ ih => omega

theorem lt_commentStop (hi : i < bytes.length) (comment : List UInt8) :
    i < commentStop bytes (i + 2) comment := by
  unfold commentStop
  split
  · omega
  · exact hi

/-- Goes on at position `i`, with the bytes from position `copied` on not copied yet. -/
def stripFrom? (bytes : List UInt8) (copied i : Nat) (out : List UInt8) : Option (List UInt8) :=
  if h : i < bytes.length then
    if bytes[i] == '"'.toUInt8 || bytes[i] == '\''.toUInt8 then
      have := lt_literalStop bytes[i] bytes (i + 1)
      stripFrom? bytes copied (literalStop bytes[i] bytes (i + 1)) out
    else if bytes[i] == '/'.toUInt8 && bytes[i + 1]? == some '*'.toUInt8 then do
      let pending ← slice? copied i bytes
      let comment ← slice? (i + 2) bytes.length bytes
      let stop := commentStop bytes (i + 2) comment
      have := lt_commentStop h comment
      stripFrom? bytes stop stop (out ++ pending)
    else stripFrom? bytes copied (i + 1) out
  else if copied < bytes.length then do
    let pending ← slice? copied bytes.length bytes
    some (out ++ pending)
  else some out
termination_by bytes.length - i

/-- The bytes of a stylesheet without its comments. -/
def stripCommentBytes? (bytes : List UInt8) : Option (List UInt8) := stripFrom? bytes 0 0 []

/-! ### Positions and rests -/

/-- What a position with a byte behind it tells about the list. -/
theorem getElem_of_drop (h : bytes.drop i = b :: rest) :
    ∃ hi : i < bytes.length, bytes[i] = b ∧ bytes.drop (i + 1) = rest := by
  have hi : i < bytes.length := by
    by_contra hge
    rw [List.drop_eq_nil_of_le (by omega)] at h
    cases h
  rw [List.drop_eq_getElem_cons hi] at h
  exact ⟨hi, List.cons.inj h⟩

theorem drop_literalStop (quote : UInt8) (bytes : List UInt8) (i : Nat) :
    bytes.drop (literalStop quote bytes i) = behindLiteral quote (bytes.drop i) := by
  fun_induction literalStop quote bytes i with
  | case1 i hi hquote => rw [List.drop_eq_getElem_cons hi, behindLiteral, if_pos hquote]
  | case2 i hi hquote hslash ih =>
      rw [ih, List.drop_eq_getElem_cons hi, behindLiteral, if_neg hquote, if_pos hslash, List.drop_drop]
  | case3 i hi hquote hslash ih =>
      rw [ih, List.drop_eq_getElem_cons hi, behindLiteral, if_neg hquote, if_neg hslash]
  | case4 i hi =>
      -- Beyond the last byte nothing is left, however far the position is.
      rw [List.drop_eq_nil_of_le (by omega), List.drop_eq_nil_of_le (by omega), behindLiteral]

theorem behindComment?_eq_map (bytes : List UInt8) :
    behindComment? bytes = (commentEnd? bytes).map fun offset => bytes.drop (offset + 2) := by
  fun_induction commentEnd? bytes with
  | case1 => rfl
  | case2 b rest hend =>
      rw [behindComment?, if_pos hend, Option.map_some, List.drop_succ_cons, List.drop_one]
  | case3 b rest hend ih =>
      rw [behindComment?, if_neg hend, ih, Option.map_map]
      rfl

theorem le_length_of_commentEnd? {offset : Nat} (h : commentEnd? bytes = some offset) :
    offset + 2 ≤ bytes.length := by
  fun_induction commentEnd? bytes generalizing offset with
  | case1 => cases h
  | case2 b rest hend =>
      obtain rfl := Option.some.inj h
      cases rest with
      | nil => simp at hend
      | cons d rest => simp
  | case3 b rest _ ih =>
      obtain ⟨before, hbefore, rfl⟩ := Option.map_eq_some_iff.1 h
      have := ih hbefore
      simp only [List.length_cons]
      omega

/-- A position in the bytes of a text, told from the rest of the text. -/
theorem position_eq {a : List Char} (hcss : css = a ++ s) (hdrop : (utf8 css).drop i = utf8 s)
    (hi : i ≤ (utf8 css).length) : i = byteSize a := by
  have hlength := congrArg List.length hdrop
  rw [List.length_drop, length_utf8 s] at hlength
  have := length_sub_of_split hcss
  omega

theorem slice?_of_split {a c : List Char} (h : css = a ++ s ++ c) :
    slice? (byteSize a) (byteSize (a ++ s)) (utf8 css) = some (utf8 s) := by
  have hstart : css = a ++ (s ++ c) := by rw [h, List.append_assoc]
  rw [slice?, if_pos ⟨by rw [byteSize_append]; omega, isBoundary_of_split hstart, isBoundary_of_split h⟩,
    take_of_split h, drop_of_split rfl]

theorem slice?_to_end {a : List Char} (h : css = a ++ s) :
    slice? (byteSize a) (utf8 css).length (utf8 css) = some (utf8 s) := by
  have hslice := slice?_of_split (h.trans (List.append_nil _).symm)
  rwa [← h, ← length_utf8 css] at hslice

/-! ### Steps -/

theorem stripFrom?_end (h : bytes.drop i = []) : stripFrom? bytes copied i out =
    if copied < bytes.length then (slice? copied bytes.length bytes).map (out ++ ·) else some out := by
  have hi : ¬ i < bytes.length := by
    have := List.drop_eq_nil_iff.1 h
    omega
  rw [stripFrom?, dif_neg hi]
  split
  · cases slice? copied bytes.length bytes <;> rfl
  · rfl

theorem stripFrom?_quote (h : bytes.drop i = b :: rest) (hb : b = '"'.toUInt8 ∨ b = '\''.toUInt8) :
    stripFrom? bytes copied i out = stripFrom? bytes copied (literalStop b bytes (i + 1)) out := by
  obtain ⟨hi, rfl, _⟩ := getElem_of_drop h
  rw [stripFrom?, dif_pos hi, if_pos (by simpa using hb)]

theorem stripFrom?_pass (h : bytes.drop i = b :: rest) (hb : b ≠ '"'.toUInt8 ∧ b ≠ '\''.toUInt8)
    (hopening : b = '/'.toUInt8 → rest.head? ≠ some '*'.toUInt8) :
    stripFrom? bytes copied i out = stripFrom? bytes copied (i + 1) out := by
  obtain ⟨hi, rfl, hrest⟩ := getElem_of_drop h
  have hnext : bytes[i + 1]? = rest.head? := by rw [← hrest, List.head?_drop]
  rw [stripFrom?, dif_pos hi, if_neg (by simpa using hb), if_neg]
  simpa [hnext] using hopening

/-- Bytes that are neither quotes nor slashes are passed. -/
theorem stripFrom?_append (h : bytes.drop i = own ++ rest)
    (hown : ∀ b ∈ own, b ≠ '"'.toUInt8 ∧ b ≠ '\''.toUInt8 ∧ b ≠ '/'.toUInt8) :
    stripFrom? bytes copied i out = stripFrom? bytes copied (i + own.length) out := by
  induction own generalizing i with
  | nil => rfl
  | cons b own ih =>
      obtain ⟨hdouble, hsingle, hslash⟩ := hown b List.mem_cons_self
      obtain ⟨_, _, hnext⟩ := getElem_of_drop h
      rw [stripFrom?_pass h ⟨hdouble, hsingle⟩ (absurd · hslash),
        ih hnext fun b hb => hown b (List.mem_cons_of_mem _ hb), List.length_cons, Nat.add_assoc,
        Nat.add_comm 1]

theorem stripFrom?_opening (h : bytes.drop i = '/'.toUInt8 :: '*'.toUInt8 :: rest) :
    stripFrom? bytes copied i out = (slice? copied i bytes).bind fun pending =>
      (slice? (i + 2) bytes.length bytes).bind fun comment =>
        stripFrom? bytes (commentStop bytes (i + 2) comment) (commentStop bytes (i + 2) comment)
          (out ++ pending) := by
  obtain ⟨hi, hslash, hrest⟩ := getElem_of_drop h
  have hstar : bytes[i + 1]? = some '*'.toUInt8 := by
    rw [← List.head?_drop, hrest]
    rfl
  rw [stripFrom?, dif_pos hi, if_neg (by rw [hslash]; decide), if_pos (by rw [hslash, hstar]; decide)]
  rfl

/-! ### On the bytes of a text -/

theorem afterComment_eq (s : List Char) : afterComment s = (afterBlockComment? s).getD [] := by
  fun_induction afterComment s with
  | case1 rest => rfl
  | case2 c rest h ih => rw [ih, afterBlockComment?.eq_2 _ _ h]
  | case3 => rfl

/-- A comment ends at the first `*/` behind its opening, or with the text. -/
theorem exists_commentStop {a : List Char} (h : css = a ++ s) : ∃ comment, s = comment ++ afterComment s ∧
    commentStop (utf8 css) (byteSize a) (utf8 s) = byteSize (a ++ comment) := by
  have hends := (behindComment?_eq_map (utf8 s)).symm.trans (behindComment?_utf8 s)
  rw [afterComment_eq, commentStop]
  cases hafter : afterBlockComment? s with
  | none =>
      rw [hafter, Option.map_none, Option.map_eq_none_iff] at hends
      rw [hends]
      exact ⟨s, (List.append_nil s).symm, by rw [length_utf8, h]⟩
  | some r =>
      obtain ⟨comment, hs⟩ := suffix_of_afterBlockComment? hafter
      rw [hafter, Option.map_some] at hends
      obtain ⟨offset, hoffset, hdrop⟩ := Option.map_eq_some_iff.1 hends
      have hstop : offset + 2 = byteSize comment :=
        position_eq hs.symm hdrop (le_length_of_commentEnd? hoffset)
      rw [hoffset]
      exact ⟨comment, hs.symm, by rw [byteSize_append]; dsimp only; omega⟩

/-- A string literal is passed by its characters up to the quote. -/
theorem exists_literal (quote : Char) (front s : List Char) : ∃ literal, s = literal ++ afterLiteral quote s ∧
    passString quote front s = (literal.reverse ++ front, afterLiteral quote s) := by
  fun_induction passString quote front s with
  | case1 front => exact ⟨[], rfl, rfl⟩
  | case2 front c rest ih =>
      obtain ⟨literal, hrest, hpass⟩ := ih
      refine ⟨'\\' :: c :: literal, ?_, ?_⟩
      · rw [afterLiteral]
        simpa using hrest
      · rw [hpass, afterLiteral]
        simp
  | case3 front c rest h hquote =>
      rw [afterLiteral.eq_3 _ _ _ h, if_pos hquote]
      exact ⟨[c], rfl, rfl⟩
  | case4 front c rest h hquote ih =>
      obtain ⟨literal, hrest, hpass⟩ := ih
      rw [afterLiteral.eq_3 _ _ _ h, if_neg hquote]
      refine ⟨c :: literal, by simpa using hrest, ?_⟩
      rw [hpass]
      simp

/-- What is pending at a comment is copied, and the position behind the comment starts the rest. -/
theorem stripFrom?_comment {done pending : List Char} (hcss : css = done ++ pending ++ '/' :: '*' :: s)
    (hdrop : (utf8 css).drop i = utf8 ('/' :: '*' :: s)) :
    ∃ skipped, css = skipped ++ afterComment s ∧ stripFrom? (utf8 css) (byteSize done) i out
      = stripFrom? (utf8 css) (byteSize skipped) (byteSize skipped) (out ++ utf8 pending) := by
  have hopened : css = done ++ pending ++ ['/', '*'] ++ s := by simp [hcss]
  have hbytes : (utf8 css).drop i = '/'.toUInt8 :: '*'.toUInt8 :: utf8 s := by
    rw [hdrop, utf8_cons_of_lt (by decide), utf8_cons_of_lt (by decide)]
  obtain ⟨hi, _⟩ := getElem_of_drop hbytes
  obtain rfl := position_eq hcss hdrop hi.le
  have hbehind : byteSize (done ++ pending) + 2 = byteSize (done ++ pending ++ ['/', '*']) := by
    rw [byteSize_append _ ['/', '*']]
    rfl
  obtain ⟨comment, hs, hstop⟩ := exists_commentStop hopened
  refine ⟨done ++ pending ++ ['/', '*'] ++ comment, ?_, ?_⟩
  · rw [List.append_assoc, ← hs]
    exact hopened
  · rw [stripFrom?_opening hbytes, slice?_of_split hcss, hbehind, slice?_to_end hopened, Option.bind_some,
      Option.bind_some, hstop]

theorem stripFrom?_string (hquote : quote = '"' ∨ quote = '\'') (hdrop : bytes.drop i = utf8 (quote :: s)) :
    ∃ j, bytes.drop j = utf8 (afterLiteral quote s) ∧
      stripFrom? bytes copied i out = stripFrom? bytes copied j out := by
  have hlow : quote.toNat < 0x80 ∧ '\\' ≠ quote := by
    rcases hquote with rfl | rfl <;> decide
  rw [utf8_cons_of_lt hlow.1] at hdrop
  obtain ⟨_, _, hnext⟩ := getElem_of_drop hdrop
  refine ⟨literalStop quote.toUInt8 bytes (i + 1), ?_, stripFrom?_quote hdrop ?_⟩
  · rw [drop_literalStop, hnext, behindLiteral_utf8 hlow.1 hlow.2]
  · exact hquote.imp (congrArg Char.toUInt8) (congrArg Char.toUInt8)

theorem stripFrom?_char (hc : c ≠ '"' ∧ c ≠ '\'') (hopening : c = '/' → s.head? ≠ some '*')
    (hdrop : bytes.drop i = utf8 (c :: s)) :
    ∃ j, bytes.drop j = utf8 s ∧ stripFrom? bytes copied i out = stripFrom? bytes copied j out := by
  by_cases hslash : c = '/'
  · subst hslash
    rw [utf8_cons_of_lt (by decide)] at hdrop
    obtain ⟨_, _, hnext⟩ := getElem_of_drop hdrop
    refine ⟨i + 1, hnext, stripFrom?_pass hdrop (by decide) fun _ => ?_⟩
    rw [ne_eq, head?_utf8_eq_some_iff (by decide)]
    exact hopening rfl
  · refine ⟨i + (String.utf8EncodeChar c).length, ?_, stripFrom?_append hdrop fun b hb => ?_⟩
    · rw [← List.drop_drop, hdrop, utf8_cons, List.drop_left]
    · exact ⟨ne_of_mem_utf8EncodeChar (by decide) hc.1 hb, ne_of_mem_utf8EncodeChar (by decide) hc.2 hb,
        ne_of_mem_utf8EncodeChar (by decide) hslash hb⟩

/-- **Every step over bytes** is a step over characters: as long as the bytes of what was kept are copied
(`before`) or stand at the end of what was read (`pending`), and the position stands for the rest. -/
theorem stripFrom?_utf8 (kept s : List Char) {before pending done : List Char}
    (hkept : kept.reverse = before ++ pending) (hcss : css = done ++ pending ++ s)
    (hdrop : (utf8 css).drop i = utf8 s) :
    stripFrom? (utf8 css) (byteSize done) i (utf8 before) = some (utf8 (stripCommentsFrom kept s)) := by
  fun_induction stripCommentsFrom kept s generalizing i before pending done with
  | case1 kept =>
      rw [List.append_nil] at hcss
      rw [stripFrom?_end hdrop, slice?_to_end hcss, hkept, utf8_append]
      split
      · rfl
      · have hsize : byteSize done + byteSize pending = (utf8 css).length := by
          rw [length_utf8, hcss, byteSize_append]
        have hpending : utf8 pending = [] := by
          rw [← List.length_eq_zero_iff, length_utf8]
          omega
        rw [hpending, List.append_nil]
  | case2 kept rest ih =>
      obtain ⟨skipped, hskipped, hstep⟩ := stripFrom?_comment hcss hdrop
      have hcopied : kept.reverse = before ++ pending ++ [] := by rw [hkept, List.append_nil]
      have hnone : css = skipped ++ [] ++ afterComment rest := by rw [List.append_nil, ← hskipped]
      rw [hstep, ← utf8_append]
      exact ih hcopied hnone (drop_of_split hskipped)
  | case3 kept c rest _ hquote ih =>
      have hquote : c = '"' ∨ c = '\'' := by simpa using hquote
      obtain ⟨literal, hrest, hpass⟩ := exists_literal c (c :: kept) rest
      obtain ⟨j, hj, hstep⟩ := stripFrom?_string hquote hdrop
      have hlonger : (literal.reverse ++ c :: kept).reverse = before ++ (pending ++ c :: literal) := by
        simp [hkept]
      have hbehind : css = done ++ (pending ++ c :: literal) ++ afterLiteral c rest := by
        rw [List.append_assoc, List.append_assoc, List.cons_append, ← hrest, ← List.append_assoc, hcss]
      rw [hpass] at ih ⊢
      rw [hstep]
      exact ih hlonger hbehind hj
  | case4 kept c rest h hquote ih =>
      have hc : c ≠ '"' ∧ c ≠ '\'' := by simpa using hquote
      have hopening : c = '/' → rest.head? ≠ some '*' := by
        intro hslash hstar
        obtain ⟨more, hmore⟩ := List.head?_eq_some_iff.1 hstar
        exact h more hslash hmore
      obtain ⟨j, hj, hstep⟩ := stripFrom?_char hc hopening hdrop
      have hlonger : (c :: kept).reverse = before ++ (pending ++ [c]) := by simp [hkept]
      have hbehind : css = done ++ (pending ++ [c]) ++ rest := by simp [hcss]
      rw [hstep]
      exact ih hlonger hbehind hj

/-- **Comments, and nothing else**: what is left of a stylesheet are the characters that are no part of a
comment, and the search over its bytes gives their bytes and tears no character. -/
theorem comments_stripped (css : String) :
    stripComments css = String.ofList (kept .code css.toList) ∧
      stripCommentBytes? css.toUTF8.data.toList = some (stripComments css).toUTF8.data.toList := by
  have hkept : ([] : List Char).reverse = [] ++ [] := rfl
  have hcss : css.toList = [] ++ [] ++ css.toList := rfl
  refine ⟨stripComments_eq css, ?_⟩
  rw [← utf8_toList, ← utf8_toList, stripComments, String.toList_ofList]
  exact stripFrom?_utf8 [] css.toList hkept hcss rfl

/-- The asterisk that opens a comment does not close it, and a backslash takes a whole character with it. -/
example : stripComments "a/*/b*/'\\é'/*" = "a'\\é'" := by decide +kernel

end Pagefold.Page
