import Pagefold.Page.Preload
import Pagefold.Proofs.Scanning

/-! # Which preload calls are cut

`IsPreloadCall before call after` says what a preload call is, without byte positions: `call` stands
between `before` and `after`, opens with the last parenthesised function in front of the first feature
test, and ends where this function is called.  Cutting finds it if there is one
(`cutPreload?_eq_some_iff`).

What is cut is a function in parentheses and its call (`IsPreloadCall.shape`), so a function without
parentheses of its own stays.  Nothing is asked of the text in front: whatever is put there, the call is
cut as before (`IsPreloadCall.behind`), also where its value is used (`usedCall_cut`). -/

namespace Pagefold

open Text

/-! ### First and last instances -/

namespace Text

section

variable {α : Type} {read : List Char → Option (α × List Char)} {s before : List Char} {position : Nat}
  {o : Occurrence α}

/-- A search passes over `before` in front of `s`: over characters where nothing can be read, and over
what is read. -/
inductive Passes (read : List Char → Option (α × List Char)) : (before s : List Char) → Prop
  | nil {s : List Char} : Passes read [] s
  | skip {c : Char} {before s : List Char} (hread : read (c :: (before ++ s)) = none)
      (h : Passes read before s) : Passes read (c :: before) s
  | take {own before s : List Char} {value : α} (hown : own ≠ [])
      (hread : read (own ++ (before ++ s)) = some (value, before ++ s)) (h : Passes read before s) :
      Passes read (own ++ before) s

/-- What a search finds behind a text that it passes. -/
theorem Passes.exists_found (h : Passes read before s) (position : Nat) :
    ∃ found, occurrencesFrom read position (before ++ s)
      = found ++ occurrencesFrom read (position + byteSize before) s := by
  induction h generalizing position with
  | nil => exact ⟨[], by simp⟩
  | @skip c before s hread _ ih =>
      obtain ⟨found, hfound⟩ := ih (position + c.utf8Size)
      refine ⟨found, ?_⟩
      rw [List.cons_append, occurrencesFrom_of_none hread, hfound, byteSize_cons, Nat.add_assoc]
  | @take own before s value hown hread _ ih =>
      obtain ⟨found, hfound⟩ := ih (position + byteSize own)
      refine ⟨⟨position, position + byteSize own, value⟩ :: found, ?_⟩
      rw [List.append_assoc, occurrencesFrom_of_some hown hread, hfound, byteSize_append, Nat.add_assoc]
      rfl

/-- More text in which nothing can be read can stand in front. -/
theorem Passes.prepend {front : List Char} (h : Passes read before s)
    (hfront : ∀ y, y <:+ front → y ≠ [] → read (y ++ (before ++ s)) = none) :
    Passes read (front ++ before) s := by
  induction front with
  | nil => exact h
  | cons c front ih =>
      refine .skip ?_ (ih fun y hy => hfront y (hy.trans (List.suffix_cons c front)))
      simpa using hfront (c :: front) List.suffix_rfl (by simp)

/-- Where nothing is found, nothing can be read. -/
theorem occurrencesFrom_eq_nil_iff (hread : Consumes read) :
    occurrencesFrom read position s = [] ↔ ∀ y, y <:+ s → y ≠ [] → read y = none := by
  constructor
  · intro hnone y hy hne
    rw [Option.eq_none_iff_forall_ne_some]
    intro found hfound
    obtain ⟨o, ho, _⟩ := @exists_occurrence _ read [] s position hread
      ⟨y, hy, hne, by rw [List.append_nil, hfound, Option.isSome_some]⟩
    rw [List.append_nil, hnone] at ho
    cases ho
  · intro hnone
    have hpass := @occurrencesFrom_append_of_none _ read [] s position (by simpa using hnone)
    rwa [List.append_nil, occurrencesFrom] at hpass

/-- The first instance in a text stands where something can be read for the first time. -/
theorem head?_occurrencesFrom (hread : Consumes read) :
    (occurrencesFrom read position s).head? = some o ↔ ∃ before own rest, s = before ++ own ++ rest ∧
      (∀ y, y <:+ before → y ≠ [] → read (y ++ (own ++ rest)) = none) ∧
      read (own ++ rest) = some (o.value, rest) ∧ own ≠ [] ∧
      o.start = position + byteSize before ∧ o.stop = position + byteSize (before ++ own) := by
  constructor
  · intro h
    fun_induction occurrencesFrom read position s with
    | case1 => cases h
    | case2 position c tail hnone ih =>
        obtain ⟨before, own, rest, rfl, hbefore, hvalue, hown, hstart, hstop⟩ := ih h
        refine ⟨c :: before, own, rest, rfl, ?_, hvalue, hown, ?_, ?_⟩
        · intro y hy hne
          rcases List.suffix_cons_iff.1 hy with rfl | hy
          · simpa using hnone
          · exact hbefore y hy hne
        · rw [hstart, byteSize_cons, Nat.add_assoc]
        · rw [hstop, List.cons_append, byteSize_cons, Nat.add_assoc]
    | case3 position c tail value rest hsome hlen stop ih =>
        obtain ⟨own, hown, hsplit⟩ := hread _ _ _ hsome
        have htake : (c :: tail).take ((c :: tail).length - rest.length) = own :=
          List.append_cancel_right ((Lists.take_append_of_suffix ⟨own, hsplit.symm⟩).trans hsplit)
        obtain rfl := Option.some.inj h
        refine ⟨[], own, rest, hsplit, ?_, hsplit ▸ hsome, hown, rfl, ?_⟩
        · intro y hy hne
          exact absurd (List.suffix_nil.1 hy) hne
        · rw [List.nil_append, ← htake]
    | case4 position c tail value rest hsome hlen ih =>
        obtain ⟨own, hown, hsplit⟩ := hread _ _ _ hsome
        have hpos := List.length_pos_of_ne_nil hown
        rw [hsplit, List.length_append] at hlen
        omega
  · rintro ⟨before, own, rest, rfl, hbefore, hvalue, hown, hstart, hstop⟩
    rw [List.append_assoc, occurrencesFrom_append_of_none hbefore, occurrencesFrom_of_some hown hvalue,
      List.head?_cons, Option.some.injEq]
    rw [byteSize_append, ← Nat.add_assoc] at hstop
    cases o
    simp_all

/-- The last instance in a text stands behind what the search passes, and nothing can be read behind it. -/
theorem getLast?_occurrencesFrom (hread : Consumes read) :
    (occurrencesFrom read position s).getLast? = some o ↔ ∃ before own rest, s = before ++ own ++ rest ∧
      Passes read before (own ++ rest) ∧ read (own ++ rest) = some (o.value, rest) ∧ own ≠ [] ∧
      (∀ y, y <:+ rest → y ≠ [] → read y = none) ∧
      o.start = position + byteSize before ∧ o.stop = position + byteSize (before ++ own) := by
  constructor
  · intro h
    fun_induction occurrencesFrom read position s with
    | case1 => cases h
    | case2 position c tail hnone ih =>
        obtain ⟨before, own, rest, rfl, hpassed, hvalue, hown, hrest, hstart, hstop⟩ := ih h
        refine ⟨c :: before, own, rest, rfl, .skip (by simpa using hnone) hpassed, hvalue, hown, hrest, ?_, ?_⟩
        · rw [hstart, byteSize_cons, Nat.add_assoc]
        · rw [hstop, List.cons_append, byteSize_cons, Nat.add_assoc]
    | case3 position c tail value rest hsome hlen stop ih =>
        obtain ⟨own, hown, hsplit⟩ := hread _ _ _ hsome
        have htake : (c :: tail).take ((c :: tail).length - rest.length) = own :=
          List.append_cancel_right ((Lists.take_append_of_suffix ⟨own, hsplit.symm⟩).trans hsplit)
        have hstop : stop = position + byteSize own := by rw [← htake]
        rw [hsplit] at hsome ⊢
        cases hbehind : occurrencesFrom read stop rest with
        | nil =>
            rw [hbehind] at h
            obtain rfl := Option.some.inj h
            exact ⟨[], own, rest, rfl, .nil, hsome, hown, (occurrencesFrom_eq_nil_iff hread).1 hbehind, rfl, hstop⟩
        | cons next others =>
            rw [hbehind, List.getLast?_cons_cons, ← hbehind] at h
            obtain ⟨before, own', rest', rfl, hpassed, hvalue, hown', hrest, hstart, hstop'⟩ := ih h
            refine ⟨own ++ before, own', rest', by simp, .take hown (by simpa using hsome) hpassed, hvalue,
              hown', hrest, ?_, ?_⟩
            · rw [hstart, hstop, byteSize_append, Nat.add_assoc]
            · rw [hstop', hstop, List.append_assoc, byteSize_append own, Nat.add_assoc]
    | case4 position c tail value rest hsome hlen ih =>
        obtain ⟨own, hown, hsplit⟩ := hread _ _ _ hsome
        have hpos := List.length_pos_of_ne_nil hown
        rw [hsplit, List.length_append] at hlen
        omega
  · rintro ⟨before, own, rest, rfl, hpassed, hvalue, hown, hrest, hstart, hstop⟩
    obtain ⟨found, hfound⟩ := hpassed.exists_found position
    rw [List.append_assoc, hfound, occurrencesFrom_of_some hown hvalue,
      (occurrencesFrom_eq_nil_iff hread).2 hrest, List.getLast?_concat, Option.some.injEq]
    rw [byteSize_append, ← Nat.add_assoc] at hstop
    cases o
    simp_all

end

end Text

namespace Page

variable {s r code before call after front : List Char} {mark quote : Char} {depth : Nat}

/-! ### What is read -/

theorem suffix_of_dropQuote? (h : dropQuote? s = some r) : r <:+ s := by
  unfold dropQuote? at h
  split at h
  · cases h
    exact List.suffix_cons _ _
  · cases h
    exact List.suffix_cons _ _
  · cases h

theorem dropMark?_eq_some_iff :
    dropMark? mark s = some r ↔ skipBlanks s = mark :: r := by
  unfold dropMark?
  split
  · rename_i c rest hskip
    rw [hskip, List.cons.injEq]
    split
    · rename_i hc
      simp [beq_iff_eq.1 hc]
    · rename_i hc
      simpa using fun he => absurd he (by simpa using hc)
  · rename_i hskip
    simp [hskip]

/-- A mark stands behind blanks. -/
theorem exists_blanks_of_dropMark? (h : dropMark? mark s = some r) :
    ∃ blanks, blanks.all isBlank = true ∧ s = blanks ++ mark :: r :=
  ⟨s.takeWhile isBlank, List.all_takeWhile, by
    rw [← dropMark?_eq_some_iff.1 h, skipBlanks, List.takeWhile_append_dropWhile]⟩

theorem suffix_of_dropMark? (h : dropMark? mark s = some r) : r <:+ s := by
  obtain ⟨blanks, _, rfl⟩ := exists_blanks_of_dropMark? h
  exact ⟨blanks ++ [mark], by simp⟩

theorem consumes_readMarker? : Consumes readMarker? := by
  rintro s ⟨⟩ rest h
  simp only [readMarker?, Option.bind_eq_bind, Option.bind_eq_some_iff, Option.pure_def, Option.some.injEq,
    Prod.mk.injEq, true_and] at h
  obtain ⟨a, ha, b, hb, c, hc, d, hd, e, he, rfl⟩ := h
  have hname := (suffix_of_dropQuote? hb).trans (skipBlanks_suffix a)
  have hquote := (suffix_of_dropQuote? hd).trans ((Script.suffix_of_isPrefixOf? hc).trans hname)
  obtain ⟨own, hown⟩ := (Script.suffix_of_isPrefixOf? he).trans ((skipBlanks_suffix d).trans hquote)
  obtain ⟨word, hword⟩ := Script.suffix_of_isPrefixOf? ha
  refine ⟨word ++ own, ?_, by rw [List.append_assoc, hown, hword]⟩
  have hlength := Script.length_of_isPrefixOf? ha
  rw [← hword, List.length_append] at hlength
  intro hnil
  rw [(List.append_eq_nil_iff.1 hnil).1] at hlength
  simp at hlength

theorem suffix_of_functionHead? (h : functionHead? s = some r) : r <:+ s := by
  simp only [functionHead?, Option.bind_eq_bind, Option.bind_eq_some_iff] at h
  obtain ⟨a, ha, h⟩ := h
  split at h
  · cases h
  · simp only [Option.bind_eq_some_iff, Prod.exists, Option.pure_def, Option.some.injEq] at h
    obtain ⟨_, b, hb, _, c, hc, rfl⟩ := h
    exact (suffix_of_until? hc).trans ((suffix_of_until? hb).trans (Script.suffix_of_isPrefixOf? ha))

theorem suffix_of_arrowHead? (h : arrowHead? s = some r) : r <:+ s := by
  simp only [arrowHead?, Option.bind_eq_bind, Option.bind_eq_some_iff] at h
  obtain ⟨a, ha, b, hb, hr⟩ := h
  have harrow := (Script.suffix_of_isPrefixOf? hr).trans (skipBlanks_suffix b)
  exact harrow.trans ((suffix_of_dropMark? hb).trans (suffix_of_dropMark? ha))

/-- An opener begins with a parenthesis. -/
theorem exists_own_of_readOpener? (h : readOpener? s = some ((), r)) : ∃ own, s = '(' :: own ++ r := by
  unfold readOpener? at h
  split at h
  · rename_i s
    obtain ⟨_, hr, he⟩ := Option.map_eq_some_iff.1 h
    cases he
    have hbody : ∀ head? : List Char → Option (List Char), (∀ {a b}, head? a = some b → b <:+ a) →
        (head? (skipBlanks s)).bind (dropMark? '\x7b') = some r → r <:+ s := by
      intro head? hhead hr
      obtain ⟨a, ha, hmark⟩ := Option.bind_eq_some_iff.1 hr
      exact (suffix_of_dropMark? hmark).trans ((hhead ha).trans (skipBlanks_suffix s))
    have hsuffix : r <:+ s := by
      rw [Option.orElse_eq_orElse, Option.orElse_eq_or, Option.or_eq_some_iff] at hr
      rcases hr with hr | ⟨_, hr⟩
      · exact hbody functionHead? suffix_of_functionHead? hr
      · exact hbody arrowHead? suffix_of_arrowHead? hr
    obtain ⟨own, rfl⟩ := hsuffix
    exact ⟨own, rfl⟩
  · cases h

theorem consumes_readOpener? : Consumes readOpener? := by
  rintro s ⟨⟩ rest h
  obtain ⟨own, rfl⟩ := exists_own_of_readOpener? h
  exact ⟨'(' :: own, by simp, rfl⟩

theorem afterLiteral_suffix (quote : Char) (s : List Char) : afterLiteral quote s <:+ s := by
  fun_induction afterLiteral quote s with
  | case1 => exact List.suffix_rfl
  | case2 c rest ih => exact ih.trans ((List.suffix_cons c rest).trans (List.suffix_cons _ _))
  | case3 => exact List.suffix_cons _ _
  | case4 c rest _ hc ih => exact ih.trans (List.suffix_cons c rest)

theorem suffix_of_afterBlockComment? (h : afterBlockComment? s = some r) : r <:+ s := by
  fun_induction afterBlockComment? s with
  | case1 =>
      cases h
      exact (List.suffix_cons _ _).trans (List.suffix_cons _ _)
  | case2 c rest _ ih => exact (ih h).trans (List.suffix_cons c rest)
  | case3 => cases h

/-- The body of a function ends with a brace. -/
theorem exists_inside_of_afterBody? (h : afterBody? depth s = some r) :
    ∃ inside, s = inside ++ '\x7d' :: r := by
  have hmore : ∀ {a b : List Char}, a <:+ b → (∃ inside, a = inside ++ '\x7d' :: r) →
      ∃ inside, b = inside ++ '\x7d' :: r := by
    rintro a b ⟨front, rfl⟩ ⟨inside, rfl⟩
    exact ⟨front ++ inside, by simp⟩
  fun_induction afterBody? depth s with
  | case1 => cases h
  | case2 depth rest ih =>
      exact hmore ((List.dropWhile_suffix _).trans ((List.suffix_cons _ _).trans (List.suffix_cons _ _))) (ih h)
  | case3 depth rest after hcomment ih =>
      have hafter := suffix_of_afterBlockComment? hcomment
      exact hmore (hafter.trans ((List.suffix_cons _ _).trans (List.suffix_cons _ _))) (ih h)
  | case4 => cases h
  | case5 depth c rest _ _ hopen ih => exact hmore (List.suffix_cons c rest) (ih h)
  | case6 c rest _ _ _ hclose =>
      cases h
      exact ⟨[], by rw [beq_iff_eq.1 hclose, List.nil_append]⟩
  | case7 c rest _ _ _ hclose depth ih => exact hmore (List.suffix_cons c rest) (ih h)
  | case8 depth c rest _ _ _ _ hquote ih =>
      exact hmore ((afterLiteral_suffix c rest).trans (List.suffix_cons c rest)) (ih h)
  | case9 depth c rest _ _ _ _ _ ih => exact hmore (List.suffix_cons c rest) (ih h)

/-- Blanks, and all that closes and calls a function whose body has ended. -/
def IsCalling (s : List Char) : Prop :=
  ∃ a b c d, s = a ++ ')' :: b ++ '(' :: c ++ ')' :: d ∧ a.all isBlank = true ∧ b.all isBlank = true ∧
    c.all isBlank = true ∧ ∃ spaces, (∀ x ∈ spaces, x = ' ' ∨ x = '\t') ∧ (d = spaces ∨ d = spaces ++ [';'])

theorem exists_calling_of_afterCall? (h : afterCall? s = some r) :
    ∃ calling, IsCalling calling ∧ s = calling ++ r := by
  simp only [afterCall?, Option.bind_eq_bind, Option.bind_eq_some_iff] at h
  obtain ⟨s₁, h₁, s₂, h₂, s₃, h₃, h⟩ := h
  obtain ⟨a, ha, rfl⟩ := exists_blanks_of_dropMark? h₁
  obtain ⟨b, hb, rfl⟩ := exists_blanks_of_dropMark? h₂
  obtain ⟨c, hc, rfl⟩ := exists_blanks_of_dropMark? h₃
  have hspaces : ∀ x ∈ s₃.takeWhile (fun c => c == ' ' || c == '\t'), x = ' ' ∨ x = '\t' := by
    intro x hx
    simpa using List.all_eq_true.1 List.all_takeWhile x hx
  have hsplit := List.takeWhile_append_dropWhile (p := fun c => c == ' ' || c == '\t') (l := s₃)
  split at h
  · rename_i rest hrest
    cases h
    refine ⟨_, ⟨a, b, c, _, rfl, ha, hb, hc, _, hspaces, .inr rfl⟩, ?_⟩
    rw [hrest] at hsplit
    conv_lhs => rw [← hsplit]
    simp
  · cases h
    refine ⟨_, ⟨a, b, c, _, rfl, ha, hb, hc, _, hspaces, .inl rfl⟩, ?_⟩
    conv_lhs => rw [← hsplit]
    simp

/-! ### Preload calls -/

/-- `call` stands between `before` and `after`, and is `opener ++ inner ++ marker ++ body ++ ending`:
`marker` is the first feature test, `opener` is what a search for openers finds last in front of it,
the body of the function that opens there reaches beyond the test, and `ending` calls the function. -/
inductive IsPreloadCall : (before call after : List Char) → Prop
  | intro {before opener inner marker body ending after : List Char}
      (hfirst : ∀ y, y <:+ before ++ opener ++ inner → y ≠ [] →
        readMarker? (y ++ (marker ++ (body ++ ending ++ after))) = none)
      (hmarker : readMarker? (marker ++ (body ++ ending ++ after)) = some ((), body ++ ending ++ after))
      (hpassed : Passes readOpener? before (opener ++ inner))
      (hopener : readOpener? (opener ++ inner) = some ((), inner))
      (hlast : ∀ y, y <:+ inner → y ≠ [] → readOpener? y = none)
      (hbody : afterBody? 0 (inner ++ marker ++ body ++ (ending ++ after)) = some (ending ++ after))
      (hbeyond : body ≠ [])
      (hcalled : afterCall? (ending ++ after) = some after) :
      IsPreloadCall before (opener ++ inner ++ marker ++ body ++ ending) after

/-- The parts of a text around a position. -/
theorem cutAtByte_of_split {a b : List Char} {position : Nat} (hs : s = a ++ b) (hp : position = 0 + byteSize a) :
    cutAtByte position s = (a, b) := by
  rw [hs, hp, Nat.zero_add, cutAtByte_byteSize]

theorem isPreloadCall_of_eq_some {cut : PreloadCut} (h : cutPreload? code = some cut) :
    code = cut.before ++ cut.call ++ cut.after ∧ IsPreloadCall cut.before cut.call cut.after := by
  simp only [cutPreload?, Option.bind_eq_bind, Option.bind_eq_some_iff] at h
  obtain ⟨m, hm, o, ho, behind, hbehind, h⟩ := h
  obtain ⟨front, marker, rest, rfl, hfirst, hmarker, _, hstart, hstop⟩ :=
    (head?_occurrencesFrom consumes_readMarker?).1 hm
  rw [cutAtByte_of_split (List.append_assoc _ _ _) hstart] at ho
  obtain ⟨before, opener, inner, rfl, hpassed, hopener, _, hlast, hostart, hostop⟩ :=
    (getLast?_occurrencesFrom consumes_readOpener?).1 ho
  have hcode : before ++ opener ++ inner ++ marker ++ rest
      = before ++ (opener ++ inner ++ marker ++ rest) := by simp
  have hcode' : before ++ opener ++ inner ++ marker ++ rest
      = before ++ opener ++ (inner ++ marker ++ rest) := by simp
  rw [cutAtByte_of_split hcode' hostop] at hbehind
  rw [cutAtByte_of_split rfl hstop, cutAtByte_of_split hcode hostart] at h
  dsimp only at hbehind h
  split at h
  · cases h
  · rename_i hlength
    simp only [Option.bind_eq_some_iff, Option.pure_def, Option.some.injEq] at h
    obtain ⟨after, hafter, rfl⟩ := h
    -- The body closes behind the test, so what follows it is an end of what follows the test.
    obtain ⟨inside, hinside⟩ := exists_inside_of_afterBody? hbehind
    have hclosed : behind <:+ inner ++ marker ++ rest := ⟨inside ++ ['\x7d'], by rw [hinside]; simp⟩
    obtain ⟨body, rfl⟩ : behind <:+ rest :=
      List.suffix_of_suffix_length_le hclosed (List.suffix_append _ rest) (by omega)
    obtain ⟨ending, _, rfl⟩ := exists_calling_of_afterCall? hafter
    have hbody : body ≠ [] := by
      rintro rfl
      exact hlength (Nat.le_refl _)
    have hsplit : opener ++ inner ++ marker ++ (body ++ (ending ++ after))
        = opener ++ inner ++ marker ++ body ++ ending ++ after := by simp
    dsimp only
    rw [hsplit, Lists.take_length_sub]
    refine ⟨by simp, .intro ?_ ?_ hpassed hopener hlast ?_ hbody hafter⟩
    · simpa using hfirst
    · simpa using hmarker
    · simpa using hbehind

theorem cutPreload?_of_isPreloadCall (hcode : code = before ++ call ++ after) (h : IsPreloadCall before call after) :
    cutPreload? code = some ⟨before, call, after⟩ := by
  cases h with
  | @intro opener inner marker body ending _ hfirst hmarker hpassed hopener hlast hbody hbeyond hcalled =>
      have hm : (occurrences readMarker? code).head? = some ⟨byteSize (before ++ opener ++ inner),
          byteSize (before ++ opener ++ inner ++ marker), ()⟩ :=
        (head?_occurrencesFrom consumes_readMarker?).2 ⟨before ++ opener ++ inner, marker,
          body ++ ending ++ after, by simp [hcode], hfirst, hmarker,
          consumes_readMarker?.ne_nil hmarker, by simp, by simp⟩
      have ho : (occurrences readOpener? (before ++ opener ++ inner)).getLast? = some ⟨byteSize before,
          byteSize (before ++ opener), ()⟩ :=
        (getLast?_occurrencesFrom consumes_readOpener?).2 ⟨before, opener, inner, rfl, hpassed, hopener,
          consumes_readOpener?.ne_nil hopener, hlast, by simp, by simp⟩
      have hmark : code = before ++ opener ++ inner ++ (marker ++ (body ++ ending ++ after)) := by simp [hcode]
      have htest : code = before ++ opener ++ inner ++ marker ++ (body ++ (ending ++ after)) := by simp [hcode]
      have hopen : code = before ++ opener ++ (inner ++ marker ++ body ++ (ending ++ after)) := by simp [hcode]
      have hcall : code = before ++ (opener ++ inner ++ marker ++ body ++ ending ++ after) := by simp [hcode]
      have hlength : ¬ (body ++ (ending ++ after)).length ≤ (ending ++ after).length := by
        have := List.length_pos_of_ne_nil hbeyond
        rw [List.length_append]
        omega
      have hzero (p : List Char) : byteSize p = 0 + byteSize p := (Nat.zero_add _).symm
      simp only [cutPreload?, Option.bind_eq_bind, hm, Option.bind_some, cutAtByte_of_split hmark (hzero _), ho,
        cutAtByte_of_split hopen (hzero _), hbody, cutAtByte_of_split htest (hzero _), if_neg hlength, hcalled,
        cutAtByte_of_split hcall (hzero _), Lists.take_length_sub]
      rfl

/-- **The cut** is the preload call, if there is one. -/
theorem cutPreload?_eq_some_iff {cut : PreloadCut} : cutPreload? code = some cut ↔
    code = cut.before ++ cut.call ++ cut.after ∧ IsPreloadCall cut.before cut.call cut.after :=
  ⟨isPreloadCall_of_eq_some, fun h => cutPreload?_of_isPreloadCall h.1 h.2⟩

/-- **What is cut**: a function in parentheses and its call. -/
theorem IsPreloadCall.shape (h : IsPreloadCall before call after) :
    ∃ function calling, call = '(' :: function ++ '\x7d' :: calling ∧ IsCalling calling := by
  cases h with
  | @intro opener inner marker body ending _ _ _ _ hopener _ hbody _ hcalled =>
      obtain ⟨inside, hinside⟩ := exists_inside_of_afterBody? hbody
      obtain ⟨calling, hcalling, hending⟩ := exists_calling_of_afterCall? hcalled
      obtain rfl := List.append_cancel_right hending
      obtain ⟨own, hown⟩ := exists_own_of_readOpener? hopener
      obtain rfl : opener = '(' :: own := List.append_cancel_right hown
      have hfunction : inner ++ marker ++ body = inside ++ ['\x7d'] :=
        List.append_cancel_right (hinside.trans (by simp))
      refine ⟨own ++ inside, ending, ?_, hcalling⟩
      calc '(' :: own ++ inner ++ marker ++ body ++ ending
          = '(' :: own ++ (inner ++ marker ++ body) ++ ending := by simp
        _ = '(' :: (own ++ inside) ++ '\x7d' :: ending := by rw [hfunction]; simp

/-- **Nothing is asked of the text in front**: a call stays a preload call behind any text without
parentheses in which no feature test begins. -/
theorem IsPreloadCall.behind (h : IsPreloadCall before call after) (hopen : '(' ∉ front)
    (htest : ∀ y, y <:+ front → y ≠ [] → readMarker? (y ++ (before ++ call ++ after)) = none) :
    IsPreloadCall (front ++ before) call after := by
  cases h with
  | @intro opener inner marker body ending _ hfirst hmarker hpassed hopener hlast hbody hbeyond hcalled =>
      refine .intro ?_ hmarker (hpassed.prepend ?_) hopener hlast hbody hbeyond hcalled
      · intro y hy hne
        rw [List.append_assoc, List.append_assoc] at hy
        rcases Lists.suffix_append_cases hy with hy | ⟨z, hz, hzne, rfl⟩
        · exact hfirst y (by simpa using hy) hne
        · simpa using htest z hz hzne
      · intro y hy hne
        obtain ⟨c, y, rfl⟩ := List.exists_cons_of_ne_nil hne
        have hc : c ≠ '(' := fun he => hopen (he ▸ hy.subset List.mem_cons_self)
        unfold readOpener?
        split
        · rename_i hcons
          exact absurd (List.cons.inj hcons).1 hc
        · rfl

/-- The marks behind which a value is expected. -/
def valueMarks : List Char := ['=', '(', ',', ':', '?', '!', '&', '|']

/-- A text ends, blanks aside, with a mark behind which a value is expected. -/
def ExpectsValue (before : List Char) : Prop := ∃ mark ∈ valueMarks, (trimEnd before).getLast? = some mark

instance : Decidable (ExpectsValue before) :=
  decidable_of_iff (valueMarks.any fun mark => (trimEnd before).getLast? == some mark) <| by
    simp [ExpectsValue, List.any_eq_true]

/-- **Which calls are cut.**  What is cut out of a code is its preload call.  It is a function in
parentheses and its call, and it is cut as well behind any text without parentheses in which no feature
test begins.  So the value of a call that is cut is used exactly where the preload call of the code
stands behind a mark that expects a value. -/
theorem cut_wherever_called (code : List Char) :
    (∀ cut, cutPreload? code = some cut ↔
      code = cut.before ++ cut.call ++ cut.after ∧ IsPreloadCall cut.before cut.call cut.after) ∧
    (∀ cut, cutPreload? code = some cut →
      ∃ function calling, cut.call = '(' :: function ++ '\x7d' :: calling ∧ IsCalling calling) ∧
    (∀ cut front, cutPreload? code = some cut → '(' ∉ front →
      (∀ y, y <:+ front → y ≠ [] → readMarker? (y ++ code) = none) →
      cutPreload? (front ++ code) = some { cut with before := front ++ cut.before }) ∧
    ((∃ cut, cutPreload? code = some cut ∧ ExpectsValue cut.before) ↔
      ∃ before call after, code = before ++ call ++ after ∧ IsPreloadCall before call after ∧
        ExpectsValue before) := by
  refine ⟨fun cut => cutPreload?_eq_some_iff, fun cut h => (cutPreload?_eq_some_iff.1 h).2.shape, ?_, ?_⟩
  · intro cut front h hopen htest
    obtain ⟨hcode, hcall⟩ := cutPreload?_eq_some_iff.1 h
    rw [hcode] at htest
    refine cutPreload?_eq_some_iff.2 ⟨?_, hcall.behind hopen htest⟩
    rw [hcode]
    simp
  · constructor
    · rintro ⟨cut, h, hvalue⟩
      obtain ⟨hcode, hcall⟩ := cutPreload?_eq_some_iff.1 h
      exact ⟨_, _, _, hcode, hcall, hvalue⟩
    · rintro ⟨before, call, after, hcode, hcall, hvalue⟩
      exact ⟨⟨before, call, after⟩, cutPreload?_eq_some_iff.2 ⟨hcode, hcall⟩, hvalue⟩

/-- A preload call that is a statement, and the code that follows it. -/
def statementCall : List Char :=
  "(function()\x7breturn document.createElement(\"link\").relList\x7d)();run();".toList

theorem statementCall_cut_behind_name :
    cutPreload? statementCall = some ⟨[], "(function()\x7breturn document.createElement(\"link\").relList\x7d)();".toList,
      "run();".toList⟩ ∧
    cutPreload? ("const r = ".toList ++ statementCall) = some ⟨"const r = ".toList,
      "(function()\x7breturn document.createElement(\"link\").relList\x7d)();".toList, "run();".toList⟩ := by
  obtain ⟨_, _, hbehind, _⟩ := cut_wherever_called statementCall
  have hcut : cutPreload? statementCall = some ⟨[],
      "(function()\x7breturn document.createElement(\"link\").relList\x7d)();".toList, "run();".toList⟩ := by
    decide +kernel
  have htest : ∀ y ∈ "const r = ".toList.tails, y ≠ [] → readMarker? (y ++ statementCall) = none := by
    decide +kernel
  exact ⟨hcut, hbehind _ _ hcut (by decide +kernel) fun y hy => htest y ((List.mem_tails _ _).2 hy)⟩

/-- The value of the call is used, and the call is cut: what is left is no script. -/
theorem usedCall_cut :
    ∃ cut, cutPreload? "const r=(function()\x7breturn document.createElement(\"link\").relList\x7d)();export\x7br\x7d;".toList
      = some cut ∧ cut.before = "const r=".toList ∧ ExpectsValue cut.before ∧
    stripPreload? "const r=(function()\x7breturn document.createElement(\"link\").relList\x7d)();export\x7br\x7d;"
      = some "const r=export\x7br\x7d;" :=
  ⟨⟨"const r=".toList, "(function()\x7breturn document.createElement(\"link\").relList\x7d)();".toList,
    "export\x7br\x7d;".toList⟩, by decide +kernel, rfl, by decide +kernel, by decide +kernel⟩

end Page

end Pagefold
