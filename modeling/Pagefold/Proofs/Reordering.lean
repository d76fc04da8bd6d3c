import Pagefold.Proofs.Catalogs
import Pagefold.Proofs.DefinitionOrder
import Pagefold.Proofs.Findings

/-! # The order of the chunks

Linking looks chunks up by id and by file name.  Two dictionaries with the same entries in another order
give the same look-ups by id; by file name they offer the same chunks, and the first of them is the same
where there is only one.  So as long as no reference is ambiguous (`Certain`), every chunk is linked to
the same targets (`linkedChunk_of_perm`), the same chunks are met in the same order (`surveyOf_of_perm`),
and the whole script is the same (`link_of_perm`).  An ambiguous reference is reported wherever it is
met, so it is enough that nothing of the kind is reported. -/

namespace Pagefold

theorem Dictionary.get?_of_perm {α : Type} {d d' : Dictionary α} (h : d.entries.Perm d'.entries)
    (key : String) : d'.get? key = d.get? key := by
  refine Option.ext fun value => ?_
  rw [get?_eq_some_iff, get?_eq_some_iff, h.mem_iff]

namespace Link

open Script

variable {code code' : Dictionary String} {entry id lead reference : String} {importer? : Option String}

/-! ### Look-ups by reference -/

/-- A reference that fits at most one chunk means the same in every order of the ids. -/
theorem Catalog.locate_of_perm {ids ids' : List String} (hnodup : ids.Nodup) (hperm : ids.Perm ids')
    (hclear : ∀ located, (ofList ids).locate reference importer? = .ok located → located.isAmbiguous = false) :
    (ofList ids').locate reference importer? = (ofList ids).locate reference importer? := by
  have hnodup' : ids'.Nodup := hperm.nodup_iff.1 hnodup
  have hcontains : ∀ id, (ofList ids').contains id = (ofList ids).contains id := by
    intro id
    rw [contains, contains, ids_ofList hnodup, ids_ofList hnodup', Bool.eq_iff_iff, List.contains_iff_mem,
      List.contains_iff_mem, hperm.mem_iff]
  unfold locate at hclear ⊢
  dsimp only at hclear ⊢
  rw [hcontains]
  generalize String.ofList (Path.fileName (Reference.path reference)) = name at hclear ⊢
  have hnamed : ((ofList ids).named name).Perm ((ofList ids').named name) := by
    rw [named_ofList hnodup, named_ofList hnodup']
    exact hperm.filter _
  split
  · rfl
  · rename_i hlocal
    split
    · rfl
    · rename_i hname
      split
      · rfl
      · rename_i hmissing
        rw [if_neg hlocal, if_neg hname, if_neg hmissing] at hclear
        cases hfirst : (ofList ids).named name with
        | nil =>
            rw [hfirst] at hnamed
            rw [hnamed.nil_eq.symm]
        | cons first others =>
            rw [hfirst] at hnamed hclear
            have hothers : others = [] := by
              have hcandidates := hclear _ rfl
              simpa [Located.isAmbiguous] using hcandidates
            subst hothers
            rw [List.perm_singleton.1 hnamed.symm]

/-- No source of the chunk `id` is ambiguous. -/
def Certain (code : Dictionary String) (id : String) : Prop :=
  ∀ source ∈ (parsedChunk code id).sources, ∀ located,
    (Catalog.ofList code.keys).locate source id = .ok located → located.isAmbiguous = false

theorem keys_subset_meet {catalog : Catalog} {rounds : Nat} {stack : List String} {met : Dictionary Chunk} :
    met.keys ⊆ (meet code catalog entry rounds stack met).keys := by
  induction rounds generalizing stack met with
  | zero => exact List.Subset.refl _
  | succ rounds ih =>
      unfold meet
      split
      · exact List.Subset.refl _
      · exact fun id hid => ih (Dictionary.mem_keys_insert.2 (.inr hid))

section

variable (hperm : code.entries.Perm code'.entries)
include hperm

theorem parsedChunk_of_perm (id : String) : parsedChunk code' id = parsedChunk code id := by
  rw [parsedChunk, parsedChunk, Dictionary.get?_of_perm hperm]

theorem lookUps_of_perm (h : Certain code id) : lookUps (.ofList code'.keys) (parsedChunk code id)
    = lookUps (.ofList code.keys) (parsedChunk code id) := by
  refine List.map_congr_left fun source hsource => ?_
  exact congrArg _ (Catalog.locate_of_perm code.keys_nodup (hperm.map _) (h source hsource))

theorem linkedChunk_of_perm (h : Certain code id) : linkedChunk code' entry id = linkedChunk code entry id := by
  rw [linkedChunk, linkedChunk, parsedChunk_of_perm hperm, resolve, resolve, lookUps_of_perm hperm h]

/-! ### What is met -/

theorem nextUnmet_of_perm (met : Dictionary Chunk) (stack : List String) :
    nextUnmet code' met stack = nextUnmet code met stack := by
  induction stack with
  | nil => rfl
  | cons id rest ih => rw [nextUnmet, nextUnmet, ih, Dictionary.get?_of_perm hperm]

/-- When each chunk that is met is certain, the other order meets the same chunks, and as early. -/
theorem meet_of_perm {rounds : Nat} {stack : List String} {met : Dictionary Chunk}
    (h : ∀ id ∈ (meet code (.ofList code.keys) entry rounds stack met).keys, Certain code id) :
    meet code' (.ofList code'.keys) entry rounds stack met
      = meet code (.ofList code.keys) entry rounds stack met := by
  induction rounds generalizing stack met with
  | zero => rfl
  | succ rounds ih =>
      unfold meet at h ⊢
      rw [nextUnmet_of_perm hperm]
      cases hnext : nextUnmet code met stack with
      | none => rfl
      | some found =>
          obtain ⟨id, text, rest⟩ := found
          obtain ⟨_, _, _, _, htext⟩ := nextUnmet_eq_some hnext
          have htext' := (Dictionary.get?_of_perm hperm id).trans htext
          rw [hnext] at h
          dsimp only at h ⊢
          rw [resolve_parse_eq htext] at h ⊢
          have hid : Certain code id := h id (keys_subset_meet (Dictionary.mem_keys_insert.2 (.inl rfl)))
          rw [resolve_parse_eq htext', linkedChunk_of_perm hperm hid]
          exact ih h

/-- Every chunk of the survey of `entry` is certain. -/
def AllCertain (code : Dictionary String) (entry : String) : Prop :=
  ∀ id ∈ entry :: (surveyOf code entry).nodes.keys, Certain code id

theorem surveyOf_of_perm (h : AllCertain code entry) : surveyOf code' entry = surveyOf code entry := by
  have hroot : linkedChunk code' entry entry = linkedChunk code entry entry :=
    linkedChunk_of_perm hperm (h entry List.mem_cons_self)
  have hsize : code'.size = code.size := hperm.length_eq.symm
  have hmet : meet code' (.ofList code'.keys) entry code.size (targets (linkedChunk code entry entry)) .empty
      = meet code (.ofList code.keys) entry code.size (targets (linkedChunk code entry entry)) .empty :=
    meet_of_perm hperm fun id hid => h id (List.mem_cons_of_mem _ hid)
  show Survey.mk (linkedChunk code' entry entry) (meet code' _ entry code'.size
      (targets (linkedChunk code' entry entry)) .empty) = _
  rw [hroot, hsize, hmet]
  rfl

theorem survey_findings_of_perm (h : AllCertain code entry) :
    (surveyOf code' entry).findings (.ofList code'.keys) = (surveyOf code entry).findings (.ofList code.keys) := by
  rw [surveyOf_of_perm hperm h, Survey.findings, Survey.findings, chunks_surveyOf, List.flatMap_map,
    List.flatMap_map]
  refine List.flatMap_congr fun id hid => ?_
  have hlook : lookUps (.ofList code'.keys) (linkedChunk code entry id)
      = lookUps (.ofList code.keys) (linkedChunk code entry id) := lookUps_of_perm hperm (h id hid)
  rw [importFindings, importFindings, hlook]

/-! ### The script -/

theorem flatOf_of_perm (h : AllCertain code entry) : flatOf code' lead entry = flatOf code lead entry := by
  have hsurvey : Survey.of code' (.ofList code'.keys) entry = Survey.of code (.ofList code.keys) entry :=
    surveyOf_of_perm hperm h
  have hfindings : (Survey.of code (.ofList code.keys) entry).findings (.ofList code'.keys)
      = (Survey.of code (.ofList code.keys) entry).findings (.ofList code.keys) := by
    have hall := survey_findings_of_perm hperm h
    rwa [surveyOf_of_perm hperm h] at hall
  show flatten code' (.ofList code'.keys) lead entry = flatten code (.ofList code.keys) lead entry
  unfold flatten
  rw [hsurvey]
  dsimp only
  rw [hfindings]

end

/-- A chunk that is not certain is reported. -/
theorem allCertain_of_clear (h : ∀ d ∈ (flatOf code lead entry).diagnostics, d.kind ≠ .ambiguousImport) :
    AllCertain code entry := by
  intro id hid source hsource located hlocated
  by_contra hambiguous
  have hfound : Finding.ambiguousImport id source located
      ∈ sourceFindings entry id source ((Catalog.ofList code.keys).locate source id) := by
    rw [hlocated, sourceFindings, if_pos (by simpa using hambiguous)]
    exact List.mem_append_left _ List.mem_cons_self
  have hfinding : Finding.ambiguousImport id source located ∈ (flatOf code lead entry).findings := by
    rw [findings_eq, List.mem_append, List.mem_append]
    exact .inl (.inl (mem_survey_findings_iff.2 ⟨id, hid, source, hsource, hfound⟩))
  exact h _ (diagnostic_mem hfinding) rfl

namespace Linker

variable {located : Located}

theorem link_eq : (ofChunks code lead).link reference importer?
    = match (Catalog.ofList code.keys).locate reference importer? with
      | .error _ => .error (.noEntry reference)
      | .ok located =>
        let flat := flatOf code lead located.id
        let finding := Finding.ambiguousEntry reference located
        .ok (if located.isAmbiguous then
          { flat with findings := flat.findings ++ [finding], log := flat.log ++ [collected finding] } else flat) := by
  unfold link Linker.entry
  rw [show (ofChunks code lead).catalog = .ofList code.keys from rfl]
  cases (Catalog.ofList code.keys).locate reference importer? with
  | error error => rfl
  | ok located => exact (apply_ite Except.ok _ _ _).symm

theorem link_of_certain (h : (Catalog.ofList code.keys).locate reference importer? = .ok located)
    (hcertain : located.isAmbiguous = false) :
    (ofChunks code lead).link reference importer? = .ok (flatOf code lead located.id) := by
  rw [link_eq, h]
  simp only [hcertain, Bool.false_eq_true, if_false]

/-- What is linked is the script of the chunk that the reference means, or it is reported that several
chunks come into question. -/
theorem link_cases {flat : Flat} (h : (ofChunks code lead).link reference importer? = .ok flat) :
    ∃ located, (Catalog.ofList code.keys).locate reference importer? = .ok located ∧
      (located.isAmbiguous = false ∧ flat = flatOf code lead located.id ∨
        Finding.ambiguousEntry reference located ∈ flat.findings) := by
  rw [link_eq] at h
  split at h
  · cases h
  · rename_i located hlocated
    refine ⟨located, hlocated, ?_⟩
    obtain rfl := Except.ok.inj h
    cases located.isAmbiguous with
    | false => exact .inl ⟨rfl, if_neg (by simp)⟩
    | true => exact .inr (List.mem_append_right _ List.mem_cons_self)

/-- **The order of the chunks does not matter** when linking reports no ambiguous reference: with the
chunks in any other order, the same script is linked, with the same report. -/
theorem link_of_perm {code code' : Dictionary String} (hperm : code.entries.Perm code'.entries)
    {lead reference : String} {importer? : Option String} {flat : Flat}
    (hlink : (ofChunks code lead).link reference importer? = .ok flat)
    (hclear : ∀ d ∈ flat.diagnostics, d.kind ≠ .ambiguousImport) :
    (ofChunks code' lead).link reference importer? = .ok flat := by
  obtain ⟨located, hlocated, ⟨hcertain, rfl⟩ | hfinding⟩ := link_cases hlink
  · have hlocated' : (Catalog.ofList code'.keys).locate reference importer? = .ok located := by
      refine (Catalog.locate_of_perm code.keys_nodup (hperm.map _) fun other hother => ?_).trans hlocated
      rw [hlocated] at hother
      rwa [← Except.ok.inj hother]
    rw [link_of_certain hlocated' hcertain, flatOf_of_perm hperm (allCertain_of_clear hclear)]
  · exact absurd rfl (hclear _ (diagnostic_mem hfinding))

/-- An entry with two imports, of which one is found by file name. -/
def twoImports : Dictionary String :=
  .ofList [("i.js", "import{x}from\"./a.js\";import{y}from\"b.js\";x(y);"),
    ("a.js", "import{y}from\"./lib/b.js\";const x=()=>y;export{x};"), ("lib/b.js", "const y=1;export{y};")]

/-- The same chunks in another order. -/
def twoImportsReordered : Dictionary String :=
  .ofList [("lib/b.js", "const y=1;export{y};"),
    ("i.js", "import{x}from\"./a.js\";import{y}from\"b.js\";x(y);"),
    ("a.js", "import{y}from\"./lib/b.js\";const x=()=>y;export{x};")]

theorem twoImports_reordered :
    twoImports.entries.Perm twoImportsReordered.entries ∧
    (∀ d ∈ (flatOf twoImports "__ns_" "i.js").diagnostics, d.kind ≠ .ambiguousImport) ∧
    (ofChunks twoImportsReordered "__ns_").link "./i.js" none
      = .ok (flatOf twoImports "__ns_" "i.js") := by
  have hperm : twoImports.entries.Perm twoImportsReordered.entries := by decide +kernel
  have hlocated : (Catalog.ofList twoImports.keys).locate "./i.js" none = .ok ⟨"i.js", false, 1⟩ := by
    decide +kernel
  have hlink := @link_of_certain twoImports "__ns_" _ _ _ hlocated (by decide)
  have hclear : ∀ d ∈ (flatOf twoImports "__ns_" "i.js").diagnostics, d.kind ≠ .ambiguousImport := by
    decide +kernel
  exact ⟨hperm, hclear, link_of_perm hperm hlink hclear⟩

end Linker

end Link

end Pagefold
