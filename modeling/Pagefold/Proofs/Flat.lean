import Pagefold.Link.Flat
import Pagefold.Proofs.Naming
import Pagefold.Proofs.Survey

/-! # The pieces of a flat script

The script of `entry` consists of one piece for each chunk of its load order, and the entry's own
piece at the end (`script_eq`).  No chunk is dropped on the way: what is in the load order was met by
the survey and has a name.  Every source that is linked has its target among the wrapped chunks, and
the scope of the script knows the target's name (`target?_iff`). -/

namespace Pagefold.Link

open Script

variable {code : Dictionary String} {lead entry id source t : String}

/-- The script of `entry`, linked from the chunks of `code`. -/
def flatOf (code : Dictionary String) (lead entry : String) : Flat :=
  (Linker.ofChunks code lead).flatten entry

/-- The chunks that are linked in the script of `entry`, and the names of the wrapped ones. -/
def scopeOf (code : Dictionary String) (lead entry : String) : Scope :=
  ⟨(surveyOf code entry).dictionary, .ofList (orderOf code entry) lead⟩

/-- The name of a wrapped chunk. -/
def nameOf (code : Dictionary String) (lead entry id : String) : String :=
  ((scopeOf code lead entry).names.get? id).getD ""

/-- The piece of a chunk in the script of `entry`. -/
def pieceOf (code : Dictionary String) (lead entry id : String) : String :=
  if id = entry then body (scopeOf code lead entry) (linkedChunk code entry id)
  else wrapped (scopeOf code lead entry) (linkedChunk code entry id) (nameOf code lead entry id) ++ "\n"

/-- The ids of the chunks of a script, in the order of their pieces. -/
def Flat.emitted (f : Flat) : List String := f.consumed.tail ++ [f.entry]

/-! ### Chunks and names -/

theorem survey_keys_nodup : ((((surveyOf code entry).entry.id, (surveyOf code entry).entry)
    :: (surveyOf code entry).nodes.entries).map (·.1)).Nodup := by
  rw [List.map_cons, List.nodup_cons]
  exact ⟨entry_not_mem_nodes, (surveyOf code entry).nodes.nodup⟩

theorem chunks_get? (h : id = entry ∨ id ∈ orderOf code entry) :
    (scopeOf code lead entry).chunks.get? id = some (linkedChunk code entry id) := by
  refine (Dictionary.get?_ofList survey_keys_nodup).2 ?_
  rcases h with rfl | h
  · exact List.mem_cons_self
  · exact List.mem_cons_of_mem _ (Dictionary.get?_eq_some_iff.1 (node_get? (mem_nodes_of_mem_order h)))

theorem names_get? (h : id ∈ orderOf code entry) :
    (scopeOf code lead entry).names.get? id = some (nameOf code lead entry id) := by
  obtain ⟨name, hn⟩ := Dictionary.exists_get?_of_mem (Naming.mem_keys_ofList.2 h)
  rw [nameOf, scopeOf, hn, Option.getD_some]

theorem names_get?_iff {name : String} : (scopeOf code lead entry).names.get? id = some name
    ↔ id ∈ orderOf code entry ∧ nameOf code lead entry id = name := by
  constructor
  · intro h
    refine ⟨Naming.mem_keys_ofList.1 (Dictionary.mem_keys_of_get? h), ?_⟩
    rw [nameOf, h, Option.getD_some]
  · rintro ⟨h, rfl⟩
    exact names_get? h

/-- Wrapped chunks of the same name are the same. -/
theorem nameOf_injective {a b : String} (ha : a ∈ orderOf code entry) (hb : b ∈ orderOf code entry)
    (h : nameOf code lead entry a = nameOf code lead entry b) : a = b := by
  have hb' := @names_get? code lead entry b hb
  rw [← h] at hb'
  exact Naming.eq_of_get?_ofList (names_get? ha) hb'

/-! ### The pieces -/

theorem parts_eq : ((orderOf code entry).filterMap fun id => do
      return (← (scopeOf code lead entry).chunks.get? id, ← (scopeOf code lead entry).names.get? id))
    = (orderOf code entry).map fun id => (linkedChunk code entry id, nameOf code lead entry id) := by
  rw [List.filterMap_congr (g := fun id =>
    some (linkedChunk code entry id, nameOf code lead entry id))]
  · rw [List.filterMap_eq_map']
  · intro id hid
    rw [chunks_get? (.inr hid), names_get? hid]
    rfl

theorem consumed_eq : (flatOf code lead entry).consumed = entry :: orderOf code entry := by
  show entry :: (List.map _ (List.filterMap _ _)) = _
  have h := congrArg (List.map (·.1.id)) (@parts_eq code lead entry)
  rw [List.map_map] at h
  exact congrArg (entry :: ·) (h.trans (by simp [Function.comp_def]))

theorem names_eq : (flatOf code lead entry).names = (scopeOf code lead entry).names := rfl

theorem pieceOf_entry : pieceOf code lead entry entry
    = body (scopeOf code lead entry) (linkedChunk code entry entry) :=
  if_pos rfl

theorem pieceOf_of_ne (h : id ≠ entry) : pieceOf code lead entry id
    = wrapped (scopeOf code lead entry) (linkedChunk code entry id) (nameOf code lead entry id)
      ++ "\n" :=
  if_neg h

theorem entryBody_eq : (flatOf code lead entry).entryBody = pieceOf code lead entry entry :=
  pieceOf_entry.symm

theorem emitted_eq : (flatOf code lead entry).emitted = orderOf code entry ++ [entry] := by
  rw [Flat.emitted, Flat.entry, consumed_eq]
  rfl

theorem emitted_nodup : (flatOf code lead entry).emitted.Nodup := by
  rw [emitted_eq, List.nodup_append]
  refine ⟨orderOf_nodup, List.nodup_singleton _, ?_⟩
  rintro a ha b hb rfl
  rw [List.mem_singleton.1 hb] at ha
  exact entry_not_mem_order ha

theorem mem_consumed_iff : id ∈ (flatOf code lead entry).consumed
    ↔ id = entry ∨ id ∈ orderOf code entry := by
  rw [consumed_eq, List.mem_cons]

theorem mem_emitted_iff :
    id ∈ (flatOf code lead entry).emitted ↔ id ∈ (flatOf code lead entry).consumed := by
  rw [emitted_eq, consumed_eq, List.mem_append, List.mem_singleton, List.mem_cons, or_comm]

theorem wrappers_eq : (flatOf code lead entry).wrappers
    = String.join ((orderOf code entry).map (pieceOf code lead entry)) := by
  show String.join (List.map _ (List.filterMap _ _)) = _
  have h := congrArg (List.map fun p : Chunk × String =>
    wrapped (scopeOf code lead entry) p.1 p.2 ++ "\n") (@parts_eq code lead entry)
  refine congrArg String.join (h.trans ?_)
  rw [List.map_map]
  apply List.map_congr_left
  intro id hid
  rw [pieceOf_of_ne (ne_entry_of_mem_order hid)]
  rfl

/-- **The script is its pieces**, in order. -/
theorem script_eq : (flatOf code lead entry).script
    = String.join ((flatOf code lead entry).emitted.map (pieceOf code lead entry)) := by
  rw [Flat.script, wrappers_eq, entryBody_eq, emitted_eq, List.map_append, String.join_append]
  simp

/-! ### The findings -/

/-- What there is to say about a script: of each source that was looked up, of each cycle, and of
each piece. -/
theorem findings_eq : (flatOf code lead entry).findings
    = (surveyOf code entry).findings (.ofList code.keys)
      ++ (surveyOf code entry).graph.loadOrder.cycles.map Finding.circularImports
      ++ (flatOf code lead entry).emitted.flatMap
          fun id => bodyFindings (scopeOf code lead entry) (linkedChunk code entry id) := by
  show _ ++ _ ++ (List.map _ (List.filterMap _ _) ++ [_]).flatMap _ = _
  have h := congrArg (fun parts : List (Chunk × String) =>
    (parts.map (·.1) ++ [linkedChunk code entry entry]).flatMap
      (bodyFindings (scopeOf code lead entry))) (@parts_eq code lead entry)
  refine congrArg (_ ++ ·) (h.trans ?_)
  rw [emitted_eq, List.map_map, List.flatMap_append, List.flatMap_append, List.flatMap_map]
  rfl

/-! ### Targets -/

theorem mem_sources_of_target? {target : Target}
    (h : (scopeOf code lead entry).target? (linkedChunk code entry id) source = some target) :
    source ∈ (parsedChunk code id).sources := by
  obtain ⟨_, ht, _⟩ := Option.bind_eq_some_iff.1 h
  exact (resolved_get?_iff.1 ht).1

/-- The scope knows the target of each linked source of a chunk of the script, and no other. -/
theorem target?_iff (hid : id = entry ∨ id ∈ orderOf code entry)
    (hs : source ∈ (parsedChunk code id).sources) {target : Target} :
    (scopeOf code lead entry).target? (linkedChunk code entry id) source = some target
      ↔ LinksTo code entry id source target.id
        ∧ target = ⟨linkedChunk code entry target.id, target.id, nameOf code lead entry target.id⟩ := by
  have htarget : ∀ t, LinksTo code entry id source t → t ∈ orderOf code entry := fun t ht =>
    target_mem_order hid (mem_targets_iff.2 ⟨source, hs, ht⟩)
  unfold Scope.target?
  constructor
  · intro h
    obtain ⟨t, ht, h⟩ := Option.bind_eq_some_iff.1 h
    obtain ⟨_, hlink⟩ := resolved_get?_iff.1 ht
    rw [chunks_get? (.inr (htarget t hlink)), names_get? (htarget t hlink)] at h
    cases h
    exact ⟨hlink, rfl⟩
  · rintro ⟨hlink, he⟩
    have ht := resolved_get?_iff.2 ⟨hs, hlink⟩
    rw [ht]
    show ((scopeOf code lead entry).chunks.get? target.id).bind _ = _
    rw [chunks_get? (.inr (htarget _ hlink))]
    show ((scopeOf code lead entry).names.get? target.id).bind _ = _
    rw [names_get? (htarget _ hlink)]
    exact congrArg some he.symm

end Pagefold.Link
