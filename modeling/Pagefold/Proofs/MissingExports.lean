import Pagefold.Proofs.Symbols

/-! # Which missing exports are reported

An import or a re-export that is linked takes names from the object that the wrapper of its target
returns.  The object has a field for each export of the target but those that the target itself takes
over from a source that stays (`mem_exportedNames_iff_returns`).  A missing export is reported by what
the target exports, so a name that the object lacks goes unreported when the target passes it on from
a source that stays, and in no other case (`missing_export_reported_iff`). -/

namespace Pagefold.Link

open Script

variable {code : Dictionary String} {lead entry id source t name : String} {b : Binding}

/-- A script warns that `chunk` takes `name` from `source`, and that `target`, which the source means,
does not export it. -/
def ReportsMissing (f : Flat) (chunk source target name : String) : Prop :=
  ∃ d ∈ f.diagnostics, d.kind = .missingExport ∧ d.severity = .warning ∧ d.chunk? = some chunk ∧
    d.reference? = some source ∧ d.message = s!"'{name}' is not exported by {target}"

/-- The object that the wrapper of `t` returns has a field `name`. -/
def ReturnsKey (code : Dictionary String) (lead entry t name : String) : Prop :=
  ∃ f ∈ (readPiece code lead entry t).fields, f.key = name

/-- `t` passes `name` on from a source that stays. -/
def PassesOnUnlinked (code : Dictionary String) (entry t name : String) : Prop :=
  ∃ bindings source, .reexport bindings source ∈ (parsedChunk code t).statements ∧
    Stays code entry t source ∧ ∃ e ∈ bindings, e.newName = name

instance {f : Flat} {chunk target : String} : Decidable (ReportsMissing f chunk source target name) :=
  inferInstanceAs (Decidable (∃ d ∈ f.diagnostics, _))

instance : Decidable (ReturnsKey code lead entry t name) :=
  inferInstanceAs (Decidable (∃ f ∈ (readPiece code lead entry t).fields, _))

/-! ### The fields of a returned object -/

theorem exportObject_linkedChunk (hne : t ≠ entry) :
    exportObject (scopeOf code lead entry) (linkedChunk code entry t)
      = objectText ((readPiece code lead entry t).fields.map Field.text) := by
  rw [objectText_fields, fields_readPiece hne, linkedChunk_exports]

/-- **What a wrapped chunk exports** is a field of the object that it returns, or passed on from a
source that stays. -/
theorem mem_exportedNames_iff_returns (ht : t ∈ orderOf code entry) :
    name ∈ (parsedChunk code t).exportedNames
      ↔ ReturnsKey code lead entry t name ∨ PassesOnUnlinked code entry t name := by
  have hfields := @fields_readPiece code lead entry t (ne_entry_of_mem_order ht)
  rw [mem_exportedNames_iff]
  constructor
  · rintro ⟨⟨b, source?⟩, he, rfl⟩
    have hfield : ∀ f, fieldOf? (scopeOf code lead entry) (linkedChunk code entry t) ⟨b, source?⟩ = some f →
        ReturnsKey code lead entry t b.newName := by
      intro f hf
      refine ⟨f, ?_, key_fieldOf? hf⟩
      rw [hfields]
      exact List.mem_filterMap.2 ⟨_, he, hf⟩
    cases source? with
    | none => exact .inl (hfield _ rfl)
    | some source =>
        obtain ⟨bindings, hp, hb⟩ := taken_mem_exports_iff.1 he
        rcases @target?_or_stays code lead entry t source (.inr ht)
          (mem_sources_of_mem_statements hp rfl) with ⟨u, _, _, hu⟩ | ⟨hstay, _⟩
        · exact .inl (hfield ⟨b.newName, .field (nameOf code lead entry u) b.name⟩ (by simp [fieldOf?, hu]))
        · exact .inr ⟨bindings, source, hp, hstay, b, hb, rfl⟩
  · rintro (⟨f, hf, rfl⟩ | ⟨bindings, source, hp, _, e, he, rfl⟩)
    · rw [hfields] at hf
      obtain ⟨e, he, hf⟩ := List.mem_filterMap.1 hf
      exact ⟨e, he, (key_fieldOf? hf).symm⟩
    · exact ⟨⟨e, some source⟩, taken_mem_exports_iff.2 ⟨bindings, hp, he⟩, rfl⟩

/-! ### What is reported -/

/-- The findings of a source are of other kinds. -/
theorem kind_ne_of_mem_sourceFindings {result : Except LinkError Located} {f : Finding}
    (h : f ∈ sourceFindings entry id source result) : f.diagnostic.kind ≠ .missingExport := by
  intro hkind
  rcases kind_of_mem_sourceFindings h with h | h | h <;> exact absurd (hkind.symm.trans h) (by decide)

/-- The message of a missing export says which name is missing. -/
theorem missing_message_inj {other : String}
    (h : s!"'{name}' is not exported by {t}" = s!"'{other}' is not exported by {t}") : name = other := by
  have h : "'" ++ name ++ "' is not exported by " ++ t = "'" ++ other ++ "' is not exported by " ++ t := h
  rw [String.append_assoc, String.append_assoc, String.append_assoc, String.append_assoc,
    String.append_right_inj, String.append_left_inj] at h
  exact h

/-- Of a name that is reported missing, the target has no export. -/
theorem not_exported_of_reportsMissing (hl : LinksTo code entry id source t)
    (h : ReportsMissing (flatOf code lead entry) id source t name) :
    name ∉ (parsedChunk code t).exportedNames := by
  obtain ⟨d, hd, hkind, _, hc, hr, hmessage⟩ := h
  obtain ⟨f, hf, rfl⟩ := List.mem_map.1 hd
  rw [findings_eq, List.mem_append, List.mem_append] at hf
  rcases hf with (hf | hf) | hf
  · obtain ⟨id', _, source', _, hf⟩ := mem_survey_findings_iff.1 hf
    exact absurd hkind (kind_ne_of_mem_sourceFindings hf)
  · obtain ⟨cycle, _, rfl⟩ := List.mem_map.1 hf
    cases hkind
  · obtain ⟨id', hid', hf⟩ := List.mem_flatMap.1 hf
    rcases mem_bodyFindings hf with ⟨source', target, b, ht, hnot, rfl⟩ | ⟨clause, rfl⟩
    · obtain rfl : id' = id := Option.some.inj hc
      obtain rfl : source' = source := Option.some.inj hr
      have hs := mem_sources_of_target? ht
      have hid := mem_consumed_iff.1 (mem_emitted_iff.1 hid')
      obtain ⟨hl', he⟩ := (target?_iff hid hs).1 ht
      have hto := hl'.1.unique hl.1
      rw [he, hto] at hnot
      have hmessage : s!"'{b.name}' is not exported by {target.id}"
          = s!"'{name}' is not exported by {t}" := hmessage
      rw [hto] at hmessage
      rw [← missing_message_inj hmessage]
      exact hnot
    · cases hkind

/-- **Which missing exports are reported.**  What a chunk of the script imports or re-exports by a
source that is linked to `t` is reported as a missing export of `t` just when the object that the
wrapper of `t` returns has no field of that name, unless `t` passes the name on from a source that
stays. -/
theorem missing_export_reported_iff (code : Dictionary String) (lead entry id : String)
    (hid : id ∈ (flatOf code lead entry).consumed) (text : List Char) (parsed : Statement)
    (hm : .statement text parsed ∈ (parsedChunk code id).segments) (source : String)
    (hs : parsed.source? = some source) (bindings : List Binding)
    (hb : parsed.bindings? = some bindings) (t : String) (hl : LinksTo code entry id source t)
    (b : Binding) (hmem : b ∈ bindings) :
    exportObject (scopeOf code lead entry) (linkedChunk code entry t)
      = objectText ((readPiece code lead entry t).fields.map Field.text) ∧
    (ReportsMissing (flatOf code lead entry) id source t b.name
      ↔ ¬ ReturnsKey code lead entry t b.name ∧ ¬ PassesOnUnlinked code entry t b.name) := by
  have hid := mem_consumed_iff.1 hid
  have hto : t ∈ orderOf code entry :=
    target_mem_order hid (mem_targets_iff.2 ⟨source, mem_sources_of_mem_segments hm hs, hl⟩)
  refine ⟨exportObject_linkedChunk (ne_entry_of_mem_order hto), ?_⟩
  rw [← not_or, ← mem_exportedNames_iff_returns hto]
  constructor
  · exact not_exported_of_reportsMissing hl
  · intro hnot
    exact ⟨_, diagnostic_mem (missing_mem_findings hid hm hs hb hl hmem hnot), rfl, rfl, rfl, rfl, rfl⟩

/-- The entry `i.js` imports two names of `a.js`, which exports one of them. -/
def halfExported : Dictionary String :=
  .ofList [("i.js", "import{x,y as z}from\"./a.js\";"), ("a.js", "const x=1;export{x};")]

theorem halfExported_reported :
    ReportsMissing (flatOf halfExported "__ns_" "i.js") "i.js" "./a.js" "a.js" "y" ∧
    ¬ ReturnsKey halfExported "__ns_" "i.js" "a.js" "y" ∧
    ¬ ReportsMissing (flatOf halfExported "__ns_" "i.js") "i.js" "./a.js" "a.js" "x" := by
  have h := missing_export_reported_iff halfExported "__ns_" "i.js" "i.js" (by decide +kernel)
    "import{x,y as z}from\"./a.js\";".toList (.namedImport [⟨"x", "x"⟩, ⟨"y", "z"⟩] "./a.js")
    (by decide +kernel) "./a.js" rfl _ rfl "a.js" (by decide +kernel)
  have hy : ReportsMissing (flatOf halfExported "__ns_" "i.js") "i.js" "./a.js" "a.js" "y" := by
    decide +kernel
  refine ⟨hy, ((h ⟨"y", "z"⟩ (by decide)).2.1 hy).1, fun hx => ?_⟩
  exact ((h ⟨"x", "x"⟩ (by decide)).2.1 hx).1 (by decide +kernel)

/-- The entry `i.js` imports a name that `a.js` passes on from a chunk that does not exist. -/
def passedOnUnlinked : Dictionary String :=
  .ofList [("i.js", "import{x}from\"./a.js\";"), ("a.js", "export{x}from\"./b.js\";")]

/-- The object of `a.js` has no field `x`, and no missing export is reported. -/
theorem passedOnUnlinked_not_reported :
    "i.js" ∈ (flatOf passedOnUnlinked "__ns_" "i.js").consumed ∧
    .statement "import{x}from\"./a.js\";".toList (.namedImport [⟨"x", "x"⟩] "./a.js")
      ∈ (parsedChunk passedOnUnlinked "i.js").segments ∧
    LinksTo passedOnUnlinked "i.js" "i.js" "./a.js" "a.js" ∧
    exportObject (scopeOf passedOnUnlinked "__ns_" "i.js") (linkedChunk passedOnUnlinked "i.js" "a.js")
      = "\x7b\x7d" ∧
    ¬ ReturnsKey passedOnUnlinked "__ns_" "i.js" "a.js" "x" ∧
    ¬ ReportsMissing (flatOf passedOnUnlinked "__ns_" "i.js") "i.js" "./a.js" "a.js" "x" := by
  refine ⟨?_, ?_, ?_, ?_, ?_, ?_⟩
  · decide +kernel
  · decide +kernel
  · decide +kernel
  · decide +kernel
  · decide +kernel
  · decide +kernel

end Pagefold.Link
