import Pagefold.Proofs.Segments

/-! # What stands before a statement

A statement is a segment of a code just where it can be read, no word character stands before it, and no
statement before it covers the place (`holds_scan_iff`).  Names hold characters that make up no words: `$`,
and beyond ASCII some letters and numbers (`continuesName_iff_of_not_word`).  So a keyword at the end of a
name is taken for that of a statement when such a character stands before it, and the name is cut in two
(`statement_behind`). -/

namespace Pagefold.Script.Segment

open Text Statement

variable {c : Char} {gap front own own' s : List Char} {st st' : Statement} {gs : List Segment}

/-! ### Characters of names -/

/-- Of the characters that make up no words, those of names are `$` and some beyond ASCII. -/
theorem continuesName_iff_of_not_word (h : isWordChar c = false) :
    continuesName c = true ↔ c = '$' ∨ 128 ≤ c.toNat ∧ isLetterOrNumber c = true := by
  by_cases hascii : c.toNat < 128
  · rw [isWordChar, if_pos hascii, Bool.or_eq_false_iff] at h
    obtain ⟨halpha, hline⟩ := h
    rw [continuesName, hline, isLetterOrNumber, if_pos hascii, halpha, Bool.or_false, Bool.false_or, beq_iff_eq]
    exact (or_iff_left fun hbeyond => Nat.not_lt.2 hbeyond.1 hascii).symm
  · rw [isWordChar, if_neg hascii] at h
    have hline : c ≠ '_' := by
      rintro rfl
      exact hascii (by decide)
    simp [continuesName, hline, Nat.not_lt.1 hascii]

/-! ### Where a statement stands -/

/-- The statement `st` with the text `own` is one of the segments `gs`, and `front` is the text before it. -/
def Holds (gs : List Segment) (front own : List Char) (st : Statement) : Prop :=
  ∃ before after, gs = before ++ .statement own st :: after ∧ before.flatMap text = front

theorem flatMap_text_stretch (gap : List Char) : (stretch gap).flatMap text = gap := by
  rw [stretch, flatMap_text_ofReversed, List.reverse_reverse]

theorem not_holds_stretch : ¬ Holds (stretch gap) front own st := by
  rintro ⟨before, after, hgs, _⟩
  have hmem : Segment.statement own st ∈ stretch gap := by simp [hgs]
  cases (mem_stretch hmem).2

/-- The statements of a cut are its first one and those of the rest. -/
theorem holds_append_iff : Holds (stretch gap ++ .statement own st :: gs) front own' st' ↔
    (front = gap ∧ own' = own ∧ st' = st) ∨
      ∃ behind, front = gap ++ own ++ behind ∧ Holds gs behind own' st' := by
  constructor
  · rintro ⟨before, after, hgs, rfl⟩
    rcases List.append_eq_append_iff.1 hgs with ⟨between, rfl, hbetween⟩ | ⟨between, hgap, hbetween⟩
    · cases between with
      | nil =>
          cases hbetween
          exact .inl ⟨by rw [List.append_nil, flatMap_text_stretch], rfl, rfl⟩
      | cons g between =>
          obtain ⟨rfl, rfl⟩ := List.cons.inj hbetween
          refine .inr ⟨between.flatMap text, ?_, between, after, rfl, rfl⟩
          rw [List.flatMap_append, flatMap_text_stretch, List.flatMap_cons, ← List.append_assoc, text]
    · cases between with
      | nil =>
          cases hbetween
          rw [List.append_nil] at hgap
          exact .inl ⟨by rw [← hgap, flatMap_text_stretch], rfl, rfl⟩
      | cons g between =>
          obtain ⟨rfl, _⟩ := List.cons.inj hbetween
          exact absurd ⟨before, between, hgap, rfl⟩ not_holds_stretch
  · rintro (⟨rfl, rfl, rfl⟩ | ⟨behind, rfl, before, after, rfl, rfl⟩)
    · exact ⟨stretch front, gs, rfl, flatMap_text_stretch front⟩
    · refine ⟨stretch gap ++ .statement own st :: before, after, by simp, ?_⟩
      rw [List.flatMap_append, flatMap_text_stretch, List.flatMap_cons, ← List.append_assoc, text]

theorem endsInWord_append (h : s ≠ []) : EndsInWord (front ++ s) ↔ EndsInWord s := by
  rw [EndsInWord, EndsInWord, List.getLast?_append_of_ne_nil _ h]

/-- A statement ends in no word character, so none stands before a text behind it unless the text ends in one. -/
theorem endsInWord_behind (h : Shape Parsed st own) : EndsInWord (front ++ own ++ s) ↔ EndsInWord s := by
  by_cases hnil : s = []
  · obtain ⟨d, hd, hlast⟩ := h.closed
    obtain ⟨-, hword, -⟩ := plain_of_mem_closingMarks hd
    have hclosed : ¬ EndsInWord (front ++ own) := by
      rw [endsInWord_append h.ne_nil, EndsInWord, hlast, Option.any_some, hword]
      exact Bool.false_ne_true
    rw [hnil, List.append_nil]
    exact iff_of_false hclosed Bool.false_ne_true
  · exact endsInWord_append hnil

/-- Before each statement of a cut stands no word character. -/
theorem Cut.not_endsInWord (h : Cut s gs) (hholds : Holds gs front own' st') : ¬ EndsInWord front := by
  induction h generalizing front with
  | rest => exact absurd hholds not_holds_stretch
  | statement _ hopen hread _ ih =>
      rcases holds_append_iff.1 hholds with ⟨rfl, -, -⟩ | ⟨behind, rfl, hbehind⟩
      · exact hopen
      · rw [endsInWord_behind (shape_of_read?_append hread)]
        exact ih hbehind

/-- No statement among the segments starts before the end of `front` and ends behind it. -/
def Clear (gs : List Segment) (front : List Char) : Prop :=
  ∀ front' own st, Holds gs front' own st → front'.length < front.length → (front' ++ own).length ≤ front.length

theorem Clear.behind (h : Clear (stretch gap ++ .statement own st :: gs) (gap ++ own ++ s)) : Clear gs s := by
  intro front own' st' hholds hlt
  have hle := h _ _ _ (holds_append_iff.2 (.inr ⟨front, rfl, hholds⟩)) (by simpa using hlt)
  simpa [Nat.add_assoc] using hle

/-- **A cut misses no statement** that can be read where no word character stands before it, but for what a
statement before it covers. -/
theorem Cut.holds_of_read {code : List Char} (h : Cut code gs) (hcode : code = front ++ own' ++ s)
    (hread' : read? (own' ++ s) = some (st', s)) (hopen' : ¬ EndsInWord front) (hclear : Clear gs front) :
    Holds gs front own' st' := by
  induction h generalizing front with
  | @rest gap hgap =>
      rw [List.append_assoc] at hcode
      have hnone := hgap front (own' ++ s) hcode (by simp [ne_nil_of_read? hread']) hopen'
      rw [List.append_nil, hread'] at hnone
      cases hnone
  | @statement gap own r st gs hgap _ hread _ ih =>
      have hfirst : Holds (stretch gap ++ .statement own st :: gs) gap own st :=
        holds_append_iff.2 (.inl ⟨rfl, rfl, rfl⟩)
      have hfront : front <+: gap ++ own ++ r := ⟨own' ++ s, by rw [hcode, List.append_assoc]⟩
      rcases Nat.lt_or_ge gap.length front.length with hlt | hge
      · -- The first statement ends before the place, which lies in the rest.
        have hle := hclear _ _ _ hfirst hlt
        obtain ⟨behind, rfl⟩ := List.prefix_of_prefix_length_le (List.prefix_append _ r) hfront hle
        have hrest : r = behind ++ own' ++ s := by simpa using hcode
        rw [endsInWord_behind (shape_of_read?_append hread)] at hopen'
        exact holds_append_iff.2 (.inr ⟨behind, rfl, ih hrest hopen' hclear.behind⟩)
      · rw [List.append_assoc] at hfront
        obtain ⟨between, rfl⟩ := List.prefix_of_prefix_length_le hfront (List.prefix_append _ _) hge
        have hbehind : between ++ (own ++ r) = own' ++ s := by simpa using hcode
        by_cases hnil : between = []
        · -- The place is that of the first statement.
          rw [hnil, List.nil_append] at hbehind
          rw [hbehind, hread'] at hread
          obtain ⟨rfl, rfl⟩ := Prod.mk.inj (Option.some.inj hread)
          obtain rfl := List.append_cancel_right hbehind
          rwa [hnil, List.append_nil] at hfirst ⊢
        · have hnone := hgap front between rfl hnil hopen'
          rw [hbehind, hread'] at hnone
          cases hnone

/-- The statements of a cut can be read where they stand. -/
theorem Cut.read_of_holds {code : List Char} (h : Cut code gs) (hholds : Holds gs front own' st') :
    ∃ s, code = front ++ own' ++ s ∧ read? (own' ++ s) = some (st', s) := by
  induction h generalizing front with
  | rest => exact absurd hholds not_holds_stretch
  | @statement gap own r st gs _ _ hread _ ih =>
      rcases holds_append_iff.1 hholds with ⟨rfl, rfl, rfl⟩ | ⟨behind, rfl, hbehind⟩
      · exact ⟨r, rfl, hread⟩
      · obtain ⟨s, rfl, hread'⟩ := ih hbehind
        exact ⟨s, by simp, hread'⟩

/-- The statements of a cut lie side by side. -/
theorem Cut.clear_of_holds (h : Cut s gs) (hholds : Holds gs front own' st') : Clear gs front := by
  intro front' own'' st'' hother hlt
  induction h generalizing front front' with
  | rest => exact absurd hholds not_holds_stretch
  | statement _ _ _ _ ih =>
      rcases holds_append_iff.1 hother with ⟨rfl, rfl, rfl⟩ | ⟨behind', rfl, hbehind'⟩
      · rcases holds_append_iff.1 hholds with ⟨rfl, -, -⟩ | ⟨behind, rfl, _⟩
        · exact absurd hlt (Nat.lt_irrefl _)
        · exact (List.prefix_append _ behind).length_le
      · rcases holds_append_iff.1 hholds with ⟨rfl, -, -⟩ | ⟨behind, rfl, hbehind⟩
        · simp only [List.length_append] at hlt
          omega
        · have hle := ih hbehind behind' hbehind' (by simpa using hlt)
          simpa [Nat.add_assoc] using hle

/-- A statement is a segment just where it can be read, no word character stands before it and no statement
before it covers the place. -/
theorem holds_scan_iff {code : String} : Holds (scan code) front own st ↔
    ∃ s, code.toList = front ++ own ++ s ∧ read? (own ++ s) = some (st, s) ∧ ¬ EndsInWord front ∧
      Clear (scan code) front := by
  have hcut := cut_scan code
  constructor
  · intro h
    obtain ⟨s, hcode, hread⟩ := hcut.read_of_holds h
    exact ⟨s, hcode, hread, hcut.not_endsInWord h, hcut.clear_of_holds h⟩
  · rintro ⟨s, hcode, hread, hopen, hclear⟩
    exact hcut.holds_of_read hcode hread hopen hclear

/-! ### Names before statements -/

/-- A character of a name that stands before a statement is the last one of a stretch of code. -/
theorem exists_stretch_of_continuesName {code : String} (h : Holds (scan code) front own st)
    (hlast : front.getLast? = some c) (hc : continuesName c = true) :
    ∃ before gap after, scan code = before ++ .code gap :: .statement own st :: after ∧
      gap.getLast? = some c := by
  obtain ⟨before, after, hscan, rfl⟩ := h
  rcases List.eq_nil_or_concat before with rfl | ⟨before, g, rfl⟩
  · cases hlast
  · have hmem : g ∈ scan code := by simp [hscan]
    have hne : g.text ≠ [] := (scan_exact code).2.1 g hmem
    rw [List.concat_eq_append, List.flatMap_append, List.flatMap_singleton,
      List.getLast?_append_of_ne_nil _ hne] at hlast
    rcases (cut_scan code).forall_mem g hmem with ⟨gap, rfl, -, -⟩ | ⟨own', st', rfl, hshape⟩
    · exact ⟨before, gap, after, by simpa using hscan, hlast⟩
    · obtain ⟨d, hd, hlast'⟩ := hshape.closed
      rw [text, hlast'] at hlast
      rw [← Option.some.inj hlast, (plain_of_mem_closingMarks hd).2.2] at hc
      cases hc

/-- **What stands before a statement.**  A statement is a segment just where it can be read, no word character
stands before it and no statement before it covers the place.  The character before it is that of a name if
it is `$`, or a letter or number beyond ASCII that makes up no words; then it ends a stretch of code, so the
name is cut in two. -/
theorem statement_behind (code : String) :
    (∀ front own st, Holds (scan code) front own st ↔
      ∃ s, code.toList = front ++ own ++ s ∧ read? (own ++ s) = some (st, s) ∧ ¬ EndsInWord front ∧
        Clear (scan code) front) ∧
    ∀ front own st c, Holds (scan code) front own st → front.getLast? = some c →
      isWordChar c = false ∧
      (continuesName c = true ↔ c = '$' ∨ 128 ≤ c.toNat ∧ isLetterOrNumber c = true) ∧
      (continuesName c = true → ∃ before gap after,
        scan code = before ++ .code gap :: .statement own st :: after ∧ gap.getLast? = some c) := by
  refine ⟨fun front own st => holds_scan_iff, fun front own st c h hlast => ?_⟩
  have hword : isWordChar c = false := by
    have hopen := (cut_scan code).not_endsInWord h
    rwa [EndsInWord, hlast, Option.any_some, Bool.not_eq_true] at hopen
  exact ⟨hword, continuesName_iff_of_not_word hword, exists_stretch_of_continuesName h hlast⟩

/-- A class whose name is a dollar sign and a keyword. -/
def dollarClass : String := "class $export\x7b\x7d"

theorem scan_dollarClass : scan dollarClass
    = [.code "class $".toList, .statement "export\x7b\x7d".toList (.exportClause [])] := by
  decide +kernel

theorem dollarClass_behind :
    Holds (scan dollarClass) "class $".toList "export\x7b\x7d".toList (.exportClause []) ∧
    "class $".toList.getLast? = some '$' ∧ continuesName '$' = true ∧
    ¬ EndsInWord "class $".toList ∧ Clear (scan dollarClass) "class $".toList ∧
    ∃ before gap after, scan dollarClass
      = before ++ .code gap :: .statement "export\x7b\x7d".toList (.exportClause []) :: after ∧
        gap.getLast? = some '$' := by
  have hholds : Holds (scan dollarClass) "class $".toList "export\x7b\x7d".toList (.exportClause []) :=
    ⟨[.code "class $".toList], [], scan_dollarClass, by decide +kernel⟩
  have hlast : "class $".toList.getLast? = some '$' := by decide +kernel
  have hname : continuesName '$' = true := by decide
  obtain ⟨hstands, hbehind⟩ := statement_behind dollarClass
  obtain ⟨_, _, _, hopen, hclear⟩ := (hstands _ _ _).1 hholds
  exact ⟨hholds, hlast, hname, hopen, hclear, (hbehind _ _ _ _ hholds hlast).2.2 hname⟩

/-- The name of the class is cut in two, and its end is taken for a statement. -/
theorem dollarName_split : isIdentifier "$export".toList = true ∧ ∃ front own st c,
    Holds (scan dollarClass) front own st ∧ front.getLast? = some c ∧ continuesName c = true := by
  refine ⟨by decide +kernel, "class $".toList, "export\x7b\x7d".toList, .exportClause [], '$', ?_, ?_, ?_⟩
  · exact ⟨[.code "class $".toList], [], scan_dollarClass, by decide +kernel⟩
  · decide +kernel
  · decide

end Pagefold.Script.Segment
