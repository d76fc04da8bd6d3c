import Mathlib.Data.List.Chain
import Pagefold.Proofs.Grammar

/-! # How code is cut into segments

A code is cut into stretches in which no statement starts and statements that are read where a stretch
ends (`Cut`).  There is one such cut for each code, and scanning finds it (`scan_eq_iff`).  Whether a
statement starts in a stretch does not hang on what stands around the stretch (`Passed.alone`), nor does
what a statement says (`shape_of_read?_append`); so each segment is cut by itself as it is cut in its code
(`scan_exact`). -/

namespace Pagefold.Script

open Text

namespace Statement

variable {own s : List Char} {st : Statement}

/-- A statement is the same without what follows it. -/
theorem shape_of_read?_append (h : read? (own ++ s) = some (st, s)) : Shape Parsed st own := by
  obtain ⟨own', hshape, happend⟩ := shape_of_read? h
  rwa [List.append_cancel_right happend]

/-- What can be read in front of a text can be read with the text behind it. -/
theorem read?_eq_none_of_append (h : read? (own ++ s) = none) : read? own = none := by
  rw [Option.eq_none_iff_forall_ne_some]
  rintro ⟨st, rest⟩ hread
  obtain ⟨front, hshape, rfl⟩ := shape_of_read? hread
  have hsome := hshape.isSome_read?_append (rest ++ s)
  rw [← List.append_assoc, h] at hsome
  cases hsome

end Statement

namespace Segment

open Statement

variable {glued : Bool} {code gap own s : List Char} {st : Statement} {gs : List Segment}

/-! ### Stretches without a statement -/

/-- A word character stands at the end of a text; no statement starts behind it. -/
def EndsInWord (s : List Char) : Prop := s.getLast?.any isWordChar = true

instance : Decidable (EndsInWord s) := inferInstanceAs (Decidable (_ = true))

/-- No statement starts in the stretch `gap` of a text that goes on with `s`. -/
def Passed (gap s : List Char) : Prop :=
  ∀ front back, gap = front ++ back → back ≠ [] → ¬ EndsInWord front → read? (back ++ s) = none

theorem passed_nil (s : List Char) : Passed [] s := by
  intro front back h hne
  exact absurd (List.append_eq_nil_iff.1 h.symm).2 hne

/-- Where no statement starts, none starts in the stretch by itself. -/
theorem Passed.alone (h : Passed gap s) : Passed gap [] := by
  intro front back hgap hne hopen
  rw [List.append_nil]
  exact read?_eq_none_of_append (h front back hgap hne hopen)

theorem Passed.concat {c : Char} (h : Passed gap (c :: s))
    (hc : ¬ EndsInWord gap → read? (c :: s) = none) : Passed (gap ++ [c]) s := by
  intro front back hgap hne hopen
  obtain ⟨back, d, rfl⟩ := (List.eq_nil_or_concat back).resolve_left hne
  rw [List.concat_eq_append, ← List.append_assoc] at hgap
  obtain ⟨rfl, hd⟩ := List.append_inj' hgap rfl
  obtain rfl := (List.cons.inj hd).1
  rw [List.concat_eq_append, List.append_assoc, List.singleton_append]
  by_cases hback : back = []
  · -- The statement would start at the new character, behind the whole stretch.
    subst hback
    rw [List.append_nil] at hc
    exact hc hopen
  · exact h front back rfl hback hopen

/-- The segment of a stretch of code, if there is anything in it. -/
def stretch (gap : List Char) : List Segment := ofReversed gap.reverse

theorem stretch_nil : stretch [] = [] := rfl

theorem stretch_of_ne_nil (h : gap ≠ []) : stretch gap = [.code gap] := by
  simp [stretch, ofReversed, h]

/-! ### Cuts -/

/-- A code is cut into stretches in which no statement starts, and the statements between them. -/
inductive Cut : List Char → List Segment → Prop
  | rest {gap : List Char} (hgap : Passed gap []) : Cut gap (stretch gap)
  | statement {gap own s : List Char} {st : Statement} {gs : List Segment} (hgap : Passed gap (own ++ s))
      (hopen : ¬ EndsInWord gap) (hread : read? (own ++ s) = some (st, s)) (hrest : Cut s gs) :
      Cut (gap ++ own ++ s) (stretch gap ++ .statement own st :: gs)

/-- Scanning finds a cut. -/
theorem cut_scanFrom (hglued : glued = true ↔ EndsInWord code.reverse) (hcode : Passed code.reverse s) :
    Cut (code.reverse ++ s) (scanFrom glued code s) := by
  induction glued, code, s using scan_induction with
  | done glued code =>
      rw [scanFrom, List.append_nil]
      have h := Cut.rest hcode
      rwa [stretch, List.reverse_reverse] at h
  | taken code own s st hread ih =>
      have hopen : ¬ EndsInWord code.reverse := fun hword => Bool.false_ne_true (hglued.2 hword)
      have h := Cut.statement hcode hopen hread (ih (by simp [EndsInWord]) (passed_nil _))
      rw [scanFrom_of_read hread]
      rwa [stretch, List.reverse_reverse, List.append_assoc] at h
  | passed glued code c s hnone ih =>
      rw [scanFrom_of_none hnone]
      rw [List.reverse_cons, List.append_assoc] at ih
      refine ih (by simp [EndsInWord]) (hcode.concat fun hopen => hnone ?_)
      exact Bool.eq_false_iff.2 fun hword => hopen (hglued.1 hword)

theorem cut_scan (code : String) : Cut code.toList (scan code) :=
  @cut_scanFrom false [] code.toList (by simp [EndsInWord]) (passed_nil _)

/-- Scanning passes over a stretch in which no statement starts. -/
theorem scanFrom_append (hglued : glued = true ↔ EndsInWord code.reverse)
    (h : Passed (code.reverse ++ gap) s) : ∃ glued', (glued' = true ↔ EndsInWord (code.reverse ++ gap)) ∧
      scanFrom glued code (gap ++ s) = scanFrom glued' (gap.reverse ++ code) s := by
  induction gap generalizing glued code with
  | nil => exact ⟨glued, by simpa using hglued, rfl⟩
  | cons c gap ih =>
      have hnone : glued = false → read? (c :: (gap ++ s)) = none := fun hopen =>
        h code.reverse (c :: gap) rfl (by simp) fun hword => Bool.false_ne_true (hopen ▸ hglued.2 hword)
      have hsplit : code.reverse ++ c :: gap = (c :: code).reverse ++ gap := by simp
      rw [hsplit] at h ⊢
      obtain ⟨glued', hglued', hscan⟩ := @ih (isWordChar c) (c :: code) (by simp [EndsInWord]) h
      refine ⟨glued', hglued', ?_⟩
      rw [List.cons_append, scanFrom_of_none hnone, hscan, List.reverse_cons, List.append_assoc,
        List.singleton_append]

/-- **There is one cut** of a code. -/
theorem Cut.scanFrom_eq (h : Cut s gs) : scanFrom false [] s = gs := by
  have hstart : false = true ↔ EndsInWord [] := by simp [EndsInWord]
  induction h with
  | @rest gap hgap =>
      obtain ⟨glued, _, hscan⟩ := @scanFrom_append false [] gap [] hstart hgap
      rw [List.append_nil, List.append_nil, scanFrom] at hscan
      exact hscan
  | @statement gap own s st gs hgap hopen hread _ ih =>
      obtain ⟨glued, hglued, hscan⟩ := @scanFrom_append false [] gap (own ++ s) hstart hgap
      obtain rfl : glued = false := Bool.eq_false_iff.2 fun h => hopen (hglued.1 h)
      rw [List.append_assoc, hscan, scanFrom_of_read hread, ih, List.append_nil, stretch]

theorem scan_eq_iff {code : String} : scan code = gs ↔ Cut code.toList gs :=
  ⟨fun h => h ▸ cut_scan code, fun h => h.scanFrom_eq⟩

/-! ### Segments by themselves -/

theorem mem_stretch {g : Segment} (h : g ∈ stretch gap) : gap ≠ [] ∧ g = .code gap := by
  by_cases hnil : gap = []
  · subst hnil
    cases h
  · rw [stretch_of_ne_nil hnil] at h
    exact ⟨hnil, List.mem_singleton.1 h⟩

/-- Each segment of a cut is a stretch in which no statement starts, or a statement that its text is. -/
theorem Cut.forall_mem (h : Cut s gs) : ∀ g ∈ gs, (∃ gap, g = .code gap ∧ gap ≠ [] ∧ Passed gap []) ∨
    ∃ own st, g = .statement own st ∧ Shape Parsed st own := by
  induction h with
  | rest hgap =>
      intro g hg
      obtain ⟨hne, rfl⟩ := mem_stretch hg
      exact .inl ⟨_, rfl, hne, hgap⟩
  | statement hgap _ hread _ ih =>
      intro g hg
      rcases List.mem_append.1 hg with hg | hg
      · obtain ⟨hne, rfl⟩ := mem_stretch hg
        exact .inl ⟨_, rfl, hne, hgap.alone⟩
      · rcases List.mem_cons.1 hg with rfl | hg
        · exact .inr ⟨_, _, rfl, shape_of_read?_append hread⟩
        · exact ih g hg

/-- Of two segments side by side one is a statement. -/
theorem Cut.isChain (h : Cut s gs) :
    gs.IsChain fun g g' => g.statement?.isSome = true ∨ g'.statement?.isSome = true := by
  induction h with
  | @rest gap _ =>
      by_cases hnil : gap = []
      · rw [hnil, stretch_nil]
        exact .nil
      · rw [stretch_of_ne_nil hnil]
        exact .singleton _
  | @statement gap own s st gs _ _ _ _ ih =>
      have hrest : (Segment.statement own st :: gs).IsChain
          fun g g' => g.statement?.isSome = true ∨ g'.statement?.isSome = true :=
        ih.cons fun g _ => .inl rfl
      by_cases hnil : gap = []
      · rwa [hnil, stretch_nil, List.nil_append]
      · rw [stretch_of_ne_nil hnil, List.singleton_append]
        exact .cons_cons (.inr rfl) hrest

theorem scan_code (hne : gap ≠ []) (h : Passed gap []) : scan (String.ofList gap) = [.code gap] := by
  have hcut := Cut.rest h
  rw [stretch_of_ne_nil hne] at hcut
  exact scan_eq_iff.2 (by rwa [String.toList_ofList])

theorem scan_statement (h : Shape Parsed st own) : scan (String.ofList own) = [.statement own st] := by
  have hopen : ¬ EndsInWord [] := by simp [EndsInWord]
  have hcut := Cut.statement (passed_nil _) hopen (by rw [List.append_nil]; exact h.read) (.rest (passed_nil []))
  rw [List.nil_append, List.append_nil] at hcut
  exact scan_eq_iff.2 (by rwa [String.toList_ofList])

/-- **Scanning is exact**: the segments make up the code; none is empty, and no two stretches of code stand
side by side; a statement is what its text is read as; and each segment is what scanning its own text
gives, so no statement starts in a stretch of code. -/
theorem scan_exact (code : String) :
    (scan code).flatMap text = code.toList ∧
    (∀ g ∈ scan code, g.text ≠ []) ∧
    ((scan code).IsChain fun g g' => g.statement?.isSome = true ∨ g'.statement?.isSome = true) ∧
    (∀ own st, .statement own st ∈ scan code → ofText? (String.ofList own) = some st) ∧
    (∀ g ∈ scan code, scan (String.ofList g.text) = [g]) ∧
    ∀ gap, .code gap ∈ scan code → Passed gap [] := by
  have hmem := (cut_scan code).forall_mem
  refine ⟨flatMap_text_scan code, fun g hg => ?_, (cut_scan code).isChain, fun own st hg => ?_, fun g hg => ?_,
    fun gap hg => ?_⟩
  · rcases hmem g hg with ⟨gap, rfl, hne, _⟩ | ⟨own, st, rfl, hshape⟩
    · exact hne
    · exact hshape.ne_nil
  · rcases hmem _ hg with ⟨gap, hcode, _⟩ | ⟨own, st, hst, hshape⟩
    · cases hcode
    · cases hst
      have htrim := hshape.trim blanks_nil blanks_nil
      rw [List.nil_append, List.append_nil] at htrim
      rwa [ofText?_iff_shape, String.toList_ofList, htrim]
  · rcases hmem g hg with ⟨gap, rfl, hne, hgap⟩ | ⟨own, st, rfl, hshape⟩
    · exact scan_code hne hgap
    · exact scan_statement hshape
  · rcases hmem _ hg with ⟨gap, hcode, _, hgap⟩ | ⟨own, st, hst, _⟩
    · cases hcode
      exact hgap
    · cases hst

/-- A code with the word `import` in a name, a statement without blanks, and one that is cut short. -/
def severalSegments : String := "reimport\"a\";import\x7ba\x7dfrom\"./a.js\";export\x7ba"

theorem scan_severalSegments : scan severalSegments = [.code "reimport\"a\";".toList,
    .statement "import\x7ba\x7dfrom\"./a.js\";".toList (.namedImport [⟨"a", "a"⟩] "./a.js"),
    .code "export\x7ba".toList] := by
  decide +kernel

theorem severalSegments_exact :
    .code "reimport\"a\";".toList ∈ scan severalSegments ∧
    scan (String.ofList "reimport\"a\";".toList) = [.code "reimport\"a\";".toList] ∧
    Passed "reimport\"a\";".toList [] ∧
    .statement "import\x7ba\x7dfrom\"./a.js\";".toList (.namedImport [⟨"a", "a"⟩] "./a.js")
      ∈ scan severalSegments ∧
    ofText? (String.ofList "import\x7ba\x7dfrom\"./a.js\";".toList)
      = some (.namedImport [⟨"a", "a"⟩] "./a.js") := by
  obtain ⟨_, _, _, hstatement, halone, hpassed⟩ := scan_exact severalSegments
  have hcode : .code "reimport\"a\";".toList ∈ scan severalSegments := by simp [scan_severalSegments]
  have hread : .statement "import\x7ba\x7dfrom\"./a.js\";".toList (.namedImport [⟨"a", "a"⟩] "./a.js")
      ∈ scan severalSegments := by simp [scan_severalSegments]
  exact ⟨hcode, halone _ hcode, hpassed _ hcode, hread, hstatement _ _ hread⟩

end Segment

end Pagefold.Script
