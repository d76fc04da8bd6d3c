import Pagefold.Proofs.Folding
import Pagefold.Proofs.Findings
import Pagefold.Proofs.References

/-! # References to other places

Whether a reference leads to another place is asked twice, and of two texts.  A plan asks it of the whole
reference without the blanks around it, and a catalog of the path alone, which ends at the first query or
fragment.  What a reference to another place opens with lies before both of these, so the answers are
the same (`isNonLocal_path`).  A plan therefore reports just those scripts and stylesheets that a catalog
looks for and does not find, and passes over those that no catalog would look for
(`external_iff_nonLocal`). -/

namespace Pagefold

/-! ### The two questions -/

namespace Link

open Reference

variable {catalog : Catalog} {linker : Linker} {reference : String} {importer? : Option String}

theorem Reference.no_mark_of_isBlank {c : Char} (h : Text.isBlank c = true) : c ≠ '?' ∧ c ≠ '#' := by
  constructor
  · rintro rfl
    exact absurd h (by decide)
  · rintro rfl
    exact absurd h (by decide)

/-- What follows the path of a reference does not decide whether it leads to another place. -/
theorem Reference.isNonLocal_path (reference : String) :
    isNonLocal (path reference) = isNonLocal (Text.trim reference.toList) := by
  rw [path, Bool.eq_iff_iff, isNonLocal_trim_iff, isNonLocal_trim_iff]
  constructor
  · rintro ⟨opening, gap, hopening, hgap, hs⟩
    exact ⟨opening, gap, hopening, hgap, hs.trans (List.takeWhile_prefix _)⟩
  · rintro ⟨opening, gap, hopening, hgap, rest, hs⟩
    have hmark : ∀ c ∈ gap ++ opening, (c != '?' && c != '#') = true := by
      intro c hc
      rw [Bool.and_eq_true, bne_iff_ne, bne_iff_ne]
      rcases List.mem_append.1 hc with hc | hc
      · exact no_mark_of_isBlank (hgap c hc)
      · exact (hopening.plain c hc).2
    refine ⟨opening, gap, hopening, hgap, ?_⟩
    rw [← hs, List.takeWhile_append_of_pos hmark]
    exact List.prefix_append _ _

namespace Catalog

theorem locate_of_isNonLocal (h : isNonLocal (path reference) = true) :
    catalog.locate reference importer? = .error (.nonLocal reference) := by
  unfold locate
  dsimp only
  rw [if_pos h]

/-- A reference within the build leads to a chunk or to nothing. -/
theorem locate_of_local (h : isNonLocal (path reference) = false) :
    (∃ chunk, catalog.locate reference importer? = .ok chunk) ∨
      catalog.locate reference importer? = .error (.unresolved reference) := by
  unfold locate
  dsimp only
  rw [if_neg (by simp [h])]
  split
  · exact .inr rfl
  · split
    · exact .inl ⟨_, rfl⟩
    · split
      · exact .inr rfl
      · exact .inl ⟨_, rfl⟩

/-- A catalog refuses a reference as one to another place just when a plan does. -/
theorem locate_eq_nonLocal_iff : catalog.locate reference importer? = .error (.nonLocal reference)
    ↔ Page.isExternal reference = true := by
  rw [Page.isExternal, ← isNonLocal_path]
  constructor
  · intro h
    by_contra hlocal
    rcases @locate_of_local catalog reference importer? (Bool.not_eq_true _ ▸ hlocal) with ⟨chunk, hc⟩ | hc
    · rw [h] at hc
      cases hc
    · rw [h] at hc
      cases hc
  · exact locate_of_isNonLocal

/-- What a catalog answers to a reference that a plan looks up. -/
theorem locate_cases (h : Page.isExternal reference = false) :
    (∃ chunk, catalog.locate reference importer? = .ok chunk) ∨
      catalog.locate reference importer? = .error (.unresolved reference) :=
  locate_of_local ((isNonLocal_path reference).trans h)

end Catalog

/-! ### What linking reports -/

/-- Linking finds fault with imports and exports only, not with entries. -/
theorem Linker.kind_ne_of_mem_flatten {id : String} {f : Finding} (h : f ∈ (linker.flatten id).findings) :
    f.kind ≠ .unresolvedEntry := by
  intro hkind
  rcases List.mem_append.1 h with h | h
  · rcases List.mem_append.1 h with h | h
    · obtain ⟨c, _, hf⟩ := List.mem_flatMap.1 h
      obtain ⟨⟨source, result⟩, _, hf⟩ := List.mem_flatMap.1 hf
      rcases kind_of_mem_sourceFindings hf with h | h | h <;>
        exact absurd (hkind.symm.trans h) (by decide)
    · obtain ⟨cycle, _, rfl⟩ := List.mem_map.1 h
      cases hkind
  · obtain ⟨c, _, hf⟩ := List.mem_flatMap.1 h
    rcases mem_bodyFindings hf with ⟨source, t, b, _, _, rfl⟩ | ⟨clause, rfl⟩
    · cases hkind
    · cases hkind

end Link

/-! ### What a plan reports -/

namespace Fold

open Page Link

variable {ctx : Context} {document reference : String} {tag : Tag} {chunk : Located} {error : LinkError}

/-- A plan reports that a tag leads to nothing. -/
def TagPlan.ReportsUnresolved (plan : TagPlan) : Prop := ∃ f ∈ plan.findings, f.kind = .unresolvedEntry

theorem reportsUnresolved_ofFinding_iff {f : Finding} :
    (TagPlan.ofFinding f).ReportsUnresolved ↔ f.kind = .unresolvedEntry := by
  simp [TagPlan.ReportsUnresolved, TagPlan.ofFinding]

theorem not_reportsUnresolved_empty : ¬ ({} : TagPlan).ReportsUnresolved := by
  rintro ⟨f, hf, _⟩
  cases hf

theorem ofFinding_ne_empty (f : Finding) : TagPlan.ofFinding f ≠ {} := fun h =>
  List.cons_ne_nil f [] (congrArg TagPlan.findings h)

/-- A plan that passes over what leads to another place, and reports what a catalog does not find, reports
nothing else to lead to nothing. -/
theorem reportsUnresolved_iff {catalog : Catalog} {importer? : Option String} {plan : TagPlan}
    (hexternal : isExternal reference = true → plan = {})
    (hmissing : isExternal reference = false →
      catalog.locate reference importer? = .error (.unresolved reference) → plan.ReportsUnresolved)
    (hfound : isExternal reference = false → ∀ chunk, catalog.locate reference importer? = .ok chunk →
      ¬ plan.ReportsUnresolved) :
    plan.ReportsUnresolved ↔ catalog.locate reference importer? = .error (.unresolved reference) := by
  cases hlocal : isExternal reference with
  | true =>
      have hnonLocal := (@Catalog.locate_eq_nonLocal_iff catalog reference importer?).2 hlocal
      rw [hexternal hlocal, hnonLocal]
      exact iff_of_false not_reportsUnresolved_empty (by simp)
  | false =>
      rcases @Catalog.locate_cases catalog reference importer? hlocal with ⟨chunk, hchunk⟩ | herror
      · exact iff_of_false (hfound hlocal chunk hchunk) (by simp [hchunk])
      · exact iff_of_true (hmissing hlocal herror) herror

/-! ### Scripts -/

theorem planScript_of_isExternal (h : isExternal reference = true) :
    planScript ctx document tag reference = {} := by
  rw [planScript, if_pos h]

theorem planScript_of_error (hlocal : isExternal reference = false)
    (h : ctx.linker.catalog.locate reference (some document) = .error error) :
    planScript ctx document tag reference = .ofFinding (.unresolvedScript document reference) := by
  have hentry : ctx.linker.entry reference (some document) = .error (.noEntry reference) := by
    rw [Linker.entry, h]
    rfl
  simp [planScript, hlocal, hentry]

/-- A script that is found is folded in or noted, and never reported to lead to nothing. -/
theorem planScript_of_ok (hlocal : isExternal reference = false)
    (h : ctx.linker.catalog.locate reference (some document) = .ok chunk) :
    planScript ctx document tag reference ≠ {} ∧
      ¬ (planScript ctx document tag reference).ReportsUnresolved := by
  have hentry : ctx.linker.entry reference (some document) = .ok chunk := by
    rw [Linker.entry, h]
    rfl
  cases hadmits : ctx.selection.admits chunk.id with
  | false =>
      have hplan : planScript ctx document tag reference
          = { log := [⟨.debug, .folder, "script does not match inline pattern",
              [("chunk", .quoted chunk.id)]⟩] } := by
        simp [planScript, hlocal, hentry, hadmits]
      rw [hplan]
      refine ⟨fun hempty => absurd (congrArg TagPlan.log hempty) (List.cons_ne_nil _ _), ?_⟩
      rintro ⟨f, hf, _⟩
      cases hf
  | true =>
      constructor
      · intro hempty
        have htext := @text?_planScript ctx document tag reference chunk hlocal hentry hadmits
        rw [hempty] at htext
        cases htext
      · rintro ⟨f, hf, hkind⟩
        have hfindings : (planScript ctx document tag reference).findings
            = (if chunk.isAmbiguous then [.ambiguousScript document reference chunk] else [])
              ++ (ctx.linker.flatten chunk.id).findings := by
          simp [planScript, hlocal, hentry, hadmits]
        rw [hfindings, List.mem_append] at hf
        rcases hf with hf | hf
        · split at hf
          · rw [List.mem_singleton.1 hf] at hkind
            cases hkind
          · cases hf
        · exact Linker.kind_ne_of_mem_flatten hf hkind

theorem planScript_eq_empty_iff :
    planScript ctx document tag reference = {} ↔ isExternal reference = true := by
  cases hlocal : isExternal reference with
  | true => simp [planScript_of_isExternal hlocal]
  | false =>
      rcases @Catalog.locate_cases ctx.linker.catalog reference (some document) hlocal with ⟨chunk, h⟩ | h
      · simp [(planScript_of_ok hlocal h).1]
      · simp [planScript_of_error hlocal h, ofFinding_ne_empty]

theorem planScript_reportsUnresolved_iff : (planScript ctx document tag reference).ReportsUnresolved
    ↔ ctx.linker.catalog.locate reference (some document) = .error (.unresolved reference) := by
  apply reportsUnresolved_iff planScript_of_isExternal
  · intro hlocal h
    rw [planScript_of_error hlocal h, reportsUnresolved_ofFinding_iff]
    rfl
  · exact fun hlocal chunk h => (planScript_of_ok hlocal h).2

/-! ### Stylesheets -/

theorem planStyle_of_isExternal (h : isExternal reference = true) :
    planStyle ctx document reference = {} := by
  rw [planStyle, if_pos h]

theorem planStyle_of_error (hlocal : isExternal reference = false)
    (h : ctx.stylesheets.locate reference (some document) = .error error) :
    planStyle ctx document reference = .ofFinding (.unresolvedStylesheet document reference) := by
  simp [planStyle, hlocal, h]

/-- A stylesheet that is found is passed over only where it is not to be folded in. -/
theorem planStyle_of_ok (hlocal : isExternal reference = false)
    (h : ctx.stylesheets.locate reference (some document) = .ok chunk) :
    (planStyle ctx document reference = {} ↔ ctx.selection.admits chunk.id = false) ∧
      ¬ (planStyle ctx document reference).ReportsUnresolved := by
  cases hadmits : ctx.selection.admits chunk.id with
  | false =>
      have hplan : planStyle ctx document reference = {} := by
        simp [planStyle, hlocal, h, hadmits]
      rw [hplan]
      exact ⟨iff_of_true rfl rfl, not_reportsUnresolved_empty⟩
  | true =>
      cases htext : ctx.build.text? chunk.id with
      | none =>
          have hplan : planStyle ctx document reference
              = .ofFinding (.undecodedStylesheet document reference chunk.id) := by
            simp [planStyle, hlocal, h, hadmits, htext]
          rw [hplan, reportsUnresolved_ofFinding_iff]
          refine ⟨iff_of_false (ofFinding_ne_empty _) (by decide), ?_⟩
          rintro ⟨⟩
      | some css =>
          have hplan : planStyle ctx document reference
              = { text? := some (styleElement (if ctx.options.stripComments then stripComments css else css))
                  style? := some chunk.id
                  consumed := [chunk.id] } := by
            simp [planStyle, hlocal, h, hadmits, htext]
          rw [hplan]
          refine ⟨iff_of_false (fun hempty => ?_) (by decide), ?_⟩
          · cases congrArg TagPlan.text? hempty
          · rintro ⟨f, hf, _⟩
            cases hf

theorem planStyle_eq_empty_iff : planStyle ctx document reference = {} ↔ isExternal reference = true ∨
    ∃ sheet, ctx.stylesheets.locate reference (some document) = .ok sheet ∧
      ctx.selection.admits sheet.id = false := by
  cases hlocal : isExternal reference with
  | true => simp [planStyle_of_isExternal hlocal]
  | false =>
      rcases @Catalog.locate_cases ctx.stylesheets reference (some document) hlocal with ⟨sheet, h⟩ | h
      · simp [(planStyle_of_ok hlocal h).1, h]
      · simp [planStyle_of_error hlocal h, ofFinding_ne_empty, h]

theorem planStyle_reportsUnresolved_iff : (planStyle ctx document reference).ReportsUnresolved
    ↔ ctx.stylesheets.locate reference (some document) = .error (.unresolved reference) := by
  apply reportsUnresolved_iff planStyle_of_isExternal
  · intro hlocal h
    rw [planStyle_of_error hlocal h, reportsUnresolved_ofFinding_iff]
    rfl
  · exact fun hlocal chunk h => (planStyle_of_ok hlocal h).2

/-- **The tests for other places agree.**  A plan takes a reference for one to another place just when any
catalog does.  It passes over these scripts and stylesheets in silence, and besides them only stylesheets
that it found and is not to fold in; and it reports just those that are local and not found. -/
theorem external_iff_nonLocal (catalog : Catalog) (importer? : Option String) (ctx : Context)
    (document : String) (tag : Tag) (reference : String) :
    (isExternal reference = true ↔ catalog.locate reference importer? = .error (.nonLocal reference)) ∧
    (planScript ctx document tag reference = {} ↔ isExternal reference = true) ∧
    ((planScript ctx document tag reference).ReportsUnresolved
      ↔ ctx.linker.catalog.locate reference (some document) = .error (.unresolved reference)) ∧
    (planStyle ctx document reference = {} ↔ isExternal reference = true ∨
      ∃ sheet, ctx.stylesheets.locate reference (some document) = .ok sheet ∧
        ctx.selection.admits sheet.id = false) ∧
    ((planStyle ctx document reference).ReportsUnresolved
      ↔ ctx.stylesheets.locate reference (some document) = .error (.unresolved reference)) :=
  ⟨Catalog.locate_eq_nonLocal_iff.symm, planScript_eq_empty_iff, planScript_reportsUnresolved_iff,
    planStyle_eq_empty_iff, planStyle_reportsUnresolved_iff⟩

end Fold

end Pagefold
