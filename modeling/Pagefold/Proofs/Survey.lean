import Mathlib.Data.List.Perm.Subperm
import Pagefold.Proofs.Linking
import Pagefold.Proofs.LoadOrder

/-! # What a survey meets

The chunks below an entry are met from a stack.  While they are met, each chunk's targets are met
too or wait on the stack (`Meeting`); there are as many rounds as chunks, so at the end nothing waits
that exists.  Hence the nodes of a survey are closed under targets (`target_mem_nodes`), each
is the linked chunk of its id (`node_eq`), and the entry is none of them (`entry_not_mem_nodes`).  The
graph of the survey has an edge for each link (`edge_graph_iff`), so the ids of its load order are
nodes and are closed under links (`mem_nodes_of_mem_order`, `target_mem_order`). -/

namespace Pagefold.Link

open Script

variable {code : Dictionary String} {entry id t : String}

/-! ### The next chunk of a stack -/

theorem nextUnmet_eq_some {met : Dictionary Chunk} {stack rest : List String} {text : String}
    (h : nextUnmet code met stack = some (id, text, rest)) :
    ∃ passed, stack = passed ++ id :: rest ∧ (∀ x ∈ passed, x ∈ code.keys → x ∈ met.keys)
      ∧ id ∉ met.keys ∧ code.get? id = some text := by
  induction stack with
  | nil => simp [nextUnmet] at h
  | cons a stack ih =>
      unfold nextUnmet at h
      split at h
      · rename_i hmet
        obtain ⟨passed, rfl, hp, hn⟩ := ih h
        refine ⟨a :: passed, rfl, ?_, hn⟩
        intro x hx hc
        rcases List.mem_cons.1 hx with rfl | hx
        · exact Dictionary.contains_iff.1 hmet
        · exact hp x hx hc
      · rename_i hmet
        split at h
        · rename_i hcode
          obtain ⟨passed, rfl, hp, hn⟩ := ih h
          refine ⟨a :: passed, rfl, ?_, hn⟩
          intro x hx hc
          rcases List.mem_cons.1 hx with rfl | hx
          · exact absurd hc (Dictionary.get?_eq_none_iff.1 hcode)
          · exact hp x hx hc
        · rename_i text' hcode
          cases h
          exact ⟨[], rfl, by simp, fun hm => hmet (Dictionary.contains_iff.2 hm), hcode⟩

theorem nextUnmet_eq_none {met : Dictionary Chunk} {stack : List String}
    (h : nextUnmet code met stack = none) : ∀ x ∈ stack, x ∈ code.keys → x ∈ met.keys := by
  induction stack with
  | nil => simp
  | cons a stack ih =>
      unfold nextUnmet at h
      intro x hx hc
      split at h
      · rename_i hmet
        rcases List.mem_cons.1 hx with rfl | hx
        · exact Dictionary.contains_iff.1 hmet
        · exact ih h x hx hc
      · split at h
        · rename_i hcode
          rcases List.mem_cons.1 hx with rfl | hx
          · exact absurd hc (Dictionary.get?_eq_none_iff.1 hcode)
          · exact ih h x hx hc
        · cases h

/-! ### Meeting -/

theorem resolve_parse_eq {text : String} (h : code.get? id = some text) :
    resolve (.ofList code.keys) entry (.parse id text) = linkedChunk code entry id := by
  rw [linkedChunk, parsedChunk, h, Option.getD_some]

theorem target_mem_keys (h : t ∈ targets (linkedChunk code entry id)) : t ∈ code.keys := by
  obtain ⟨_, _, hl⟩ := mem_targets_iff.1 h
  exact hl.1.mem_keys

/-- The chunks met so far, with what waits on the stack. -/
structure Meeting (code : Dictionary String) (entry : String) (stack : List String)
    (met : Dictionary Chunk) : Prop where
  chunks : ∀ id c, met.get? id = some c → id ∈ code.keys ∧ c = linkedChunk code entry id
  pending : ∀ id ∈ met.keys, ∀ t ∈ targets (linkedChunk code entry id), t ∈ met.keys ∨ t ∈ stack

theorem Meeting.keys_subset {stack : List String} {met : Dictionary Chunk}
    (h : Meeting code entry stack met) : met.keys ⊆ code.keys := by
  intro x hx
  obtain ⟨c, hc⟩ := Dictionary.exists_get?_of_mem hx
  exact (h.chunks x c hc).1

/-- Nothing is left to meet. -/
theorem Meeting.settle {stack : List String} {met : Dictionary Chunk}
    (h : Meeting code entry stack met) (hs : ∀ x ∈ stack, x ∈ code.keys → x ∈ met.keys) :
    Meeting code entry [] met := by
  refine ⟨h.chunks, fun id hid t ht => ?_⟩
  rcases h.pending id hid t ht with hm | hm
  · exact .inl hm
  · exact .inl (hs t hm (target_mem_keys ht))

/-- When as many chunks are met as there are, all are. -/
theorem Meeting.all_met {stack : List String} {met : Dictionary Chunk}
    (h : Meeting code entry stack met) (hsize : code.size ≤ met.size) : code.keys ⊆ met.keys := by
  have hp := List.subperm_of_subset met.keys_nodup h.keys_subset
  have hlen : code.keys.length ≤ met.keys.length := by
    simpa [Dictionary.keys, Dictionary.size] using hsize
  exact (hp.perm_of_length_le hlen).symm.subset

/-- One round: the chunk is met, and its targets wait. -/
theorem Meeting.round {stack rest : List String} {met : Dictionary Chunk} {text : String}
    (h : Meeting code entry stack met) (hn : nextUnmet code met stack = some (id, text, rest)) :
    Meeting code entry
      ((targets (linkedChunk code entry id)).filter (!met.contains ·) ++ rest)
      (met.insert id (linkedChunk code entry id)) := by
  obtain ⟨passed, hstack, hpassed, hnew, htext⟩ := nextUnmet_eq_some hn
  refine ⟨?_, ?_⟩
  · intro x c hc
    rw [Dictionary.get?_insert] at hc
    split at hc
    · rename_i hx
      subst hx
      cases hc
      exact ⟨Dictionary.mem_keys_of_get? htext, rfl⟩
    · exact h.chunks x c hc
  · intro x hx t ht
    rw [Dictionary.mem_keys_insert, List.mem_append, List.mem_filter]
    rw [Dictionary.mem_keys_insert] at hx
    by_cases hmet : t ∈ met.keys
    · exact .inl (.inr hmet)
    · rcases hx with rfl | hx
      · refine .inr (.inl ⟨ht, ?_⟩)
        rw [Bool.not_eq_true', ← Bool.not_eq_true, Dictionary.contains_iff]
        exact hmet
      · have hm := (h.pending x hx t ht).resolve_left hmet
        rw [hstack, List.mem_append, List.mem_cons] at hm
        rcases hm with hm | rfl | hm
        · exact absurd (hpassed t hm (target_mem_keys ht)) hmet
        · exact .inl (.inl rfl)
        · exact .inr (.inr hm)

/-- **Every chunk is met** that waits or that a met chunk leads to. -/
theorem Meeting.complete {rounds : Nat} {stack : List String} {met : Dictionary Chunk}
    (h : Meeting code entry stack met) (hr : code.size ≤ met.size + rounds) :
    Meeting code entry [] (meet code (.ofList code.keys) entry rounds stack met)
      ∧ met.keys ⊆ (meet code (.ofList code.keys) entry rounds stack met).keys
      ∧ ∀ x ∈ stack, x ∈ code.keys →
          x ∈ (meet code (.ofList code.keys) entry rounds stack met).keys := by
  induction rounds generalizing stack met with
  | zero =>
      have hall := h.all_met hr
      exact ⟨h.settle fun x _ hx => hall hx, fun _ hx => hx, fun x _ hx => hall hx⟩
  | succ rounds ih =>
      unfold meet
      cases hn : nextUnmet code met stack with
      | none =>
          have hnone := nextUnmet_eq_none hn
          exact ⟨h.settle hnone, fun _ hx => hx, hnone⟩
      | some found =>
          obtain ⟨id, text, rest⟩ := found
          obtain ⟨passed, hstack, hpassed, hnew, htext⟩ := nextUnmet_eq_some hn
          dsimp only
          rw [resolve_parse_eq htext]
          have hsize : (met.insert id (linkedChunk code entry id)).size = met.size + 1 := by
            rw [Dictionary.size, Dictionary.entries_insert _ hnew, List.length_append]
            rfl
          obtain ⟨h1, h2, h3⟩ := ih (h.round hn) (by omega)
          have hid := h2 (Dictionary.mem_keys_insert.2 (.inl rfl))
          have hold := fun x (hx : x ∈ met.keys) => h2 (Dictionary.mem_keys_insert.2 (.inr hx))
          refine ⟨h1, fun x hx => hold x hx, ?_⟩
          intro x hx hc
          rw [hstack, List.mem_append, List.mem_cons] at hx
          rcases hx with hx | rfl | hx
          · exact hold x (hpassed x hx hc)
          · exact hid
          · exact h3 x (List.mem_append_right _ hx) hc

/-- What holds of the stack and of the targets of each chunk that it holds of, holds of every chunk
met. -/
theorem meet_keys {P : String → Prop}
    (hP : ∀ id, P id → ∀ t ∈ targets (linkedChunk code entry id), P t)
    {rounds : Nat} {stack : List String} {met : Dictionary Chunk} (hs : ∀ t ∈ stack, P t)
    (hm : ∀ id ∈ met.keys, P id) :
    ∀ id ∈ (meet code (.ofList code.keys) entry rounds stack met).keys, P id := by
  induction rounds generalizing stack met with
  | zero => exact hm
  | succ rounds ih =>
      unfold meet
      cases hn : nextUnmet code met stack with
      | none => exact hm
      | some found =>
          obtain ⟨id, text, rest⟩ := found
          obtain ⟨passed, hstack, _, _, htext⟩ := nextUnmet_eq_some hn
          have hid : P id := hs id (by simp [hstack])
          dsimp only
          rw [resolve_parse_eq htext]
          refine ih ?_ ?_
          · intro t ht
            rcases List.mem_append.1 ht with ht | ht
            · exact hP id hid t (List.mem_filter.1 ht).1
            · exact hs t (by simp [hstack, ht])
          · intro x hx
            rcases Dictionary.mem_keys_insert.1 hx with rfl | hx
            · exact hid
            · exact hm x hx

/-! ### The survey of an entry -/

/-- The survey of the chunks below `entry`. -/
def surveyOf (code : Dictionary String) (entry : String) : Survey :=
  .of code (.ofList code.keys) entry

/-- The ids of the chunks below `entry`, in load order. -/
def orderOf (code : Dictionary String) (entry : String) : List String :=
  (surveyOf code entry).graph.loadOrder.order

@[simp] theorem surveyOf_entry : (surveyOf code entry).entry = linkedChunk code entry entry := rfl

theorem meeting_start : Meeting code entry (targets (linkedChunk code entry entry)) .empty where
  chunks := by simp
  pending := by simp

theorem meeting_nodes : Meeting code entry [] (surveyOf code entry).nodes :=
  (meeting_start.complete (Nat.le_add_left _ _)).1

theorem node_eq {c : Chunk} (h : (surveyOf code entry).nodes.get? id = some c) :
    c = linkedChunk code entry id :=
  (meeting_nodes.chunks id c h).2

theorem node_get? (h : id ∈ (surveyOf code entry).nodes.keys) :
    (surveyOf code entry).nodes.get? id = some (linkedChunk code entry id) := by
  obtain ⟨c, hc⟩ := Dictionary.exists_get?_of_mem h
  rw [hc, node_eq hc]

theorem target_mem_nodes (hid : id = entry ∨ id ∈ (surveyOf code entry).nodes.keys)
    (ht : t ∈ targets (linkedChunk code entry id)) : t ∈ (surveyOf code entry).nodes.keys := by
  rcases hid with rfl | hid
  · exact (meeting_start.complete (Nat.le_add_left _ _)).2.2 t ht (target_mem_keys ht)
  · rcases meeting_nodes.pending id hid t ht with h | h
    · exact h
    · simp at h

theorem target_ne_entry (h : t ∈ targets (linkedChunk code entry id)) : t ≠ entry := by
  obtain ⟨_, _, hl⟩ := mem_targets_iff.1 h
  exact hl.2.1

theorem entry_not_mem_nodes : entry ∉ (surveyOf code entry).nodes.keys := by
  intro h
  have hne : ∀ id ∈ (surveyOf code entry).nodes.keys, id ≠ entry :=
    meet_keys (fun _ _ _ => target_ne_entry) (fun _ => target_ne_entry)
      (by simp)
  exact hne entry h rfl

/-- The chunks of a survey are the linked chunks of its ids. -/
theorem chunks_surveyOf : (surveyOf code entry).chunks
    = (entry :: (surveyOf code entry).nodes.keys).map (linkedChunk code entry) := by
  rw [Survey.chunks, surveyOf_entry, List.map_cons, Dictionary.values, Dictionary.keys, List.map_map]
  congr 1
  apply List.map_congr_left
  intro p hp
  exact node_eq (Dictionary.get?_of_mem_entries hp)

/-! ### The graph of a survey -/

theorem dependencies_graph (id : String) : (surveyOf code entry).graph.dependencies id
    = if id ∈ (surveyOf code entry).nodes.keys then targets (linkedChunk code entry id) else [] := by
  rw [ImportGraph.dependencies, Survey.graph, Dictionary.get?_mapValues]
  split
  · rename_i h
    rw [node_get? h]
    rfl
  · rename_i h
    rw [Dictionary.get?_eq_none_iff.2 h]
    rfl

theorem edge_graph_iff : (surveyOf code entry).graph.Edge id t
    ↔ id ∈ (surveyOf code entry).nodes.keys ∧ t ∈ targets (linkedChunk code entry id) := by
  rw [ImportGraph.Edge, dependencies_graph]
  split
  · rename_i h
    exact ⟨fun ht => ⟨h, ht⟩, fun ht => ht.2⟩
  · rename_i h
    simp [h]

theorem mem_nodes_of_mem_order (h : id ∈ orderOf code entry) :
    id ∈ (surveyOf code entry).nodes.keys := by
  obtain ⟨seed, hs, hp⟩ := (ImportGraph.mem_order_iff _).1 h
  induction hp with
  | refl => exact target_mem_nodes (.inl rfl) hs
  | tail _ he _ =>
      obtain ⟨hu, ht⟩ := edge_graph_iff.1 he
      exact target_mem_nodes (.inr hu) ht

theorem orderOf_nodup : (orderOf code entry).Nodup := ImportGraph.order_nodup _

theorem entry_not_mem_order : entry ∉ orderOf code entry := fun h =>
  entry_not_mem_nodes (mem_nodes_of_mem_order h)

theorem ne_entry_of_mem_order (h : id ∈ orderOf code entry) : id ≠ entry := fun he =>
  entry_not_mem_order (he ▸ h)

/-- What a chunk of the script is linked to is in the load order. -/
theorem target_mem_order (hid : id = entry ∨ id ∈ orderOf code entry)
    (ht : t ∈ targets (linkedChunk code entry id)) : t ∈ orderOf code entry := by
  rcases hid with rfl | hid
  · exact ImportGraph.mem_order_of_seed _ ht
  · exact ImportGraph.mem_order_of_edge _ hid (edge_graph_iff.2 ⟨mem_nodes_of_mem_order hid, ht⟩)

/-- **Load order of a link**: the target comes first, or the cycle that the link closes is on
record. -/
theorem target_precedes_or_closes (hid : id ∈ orderOf code entry)
    (ht : t ∈ targets (linkedChunk code entry id)) : [t, id].Sublist (orderOf code entry)
      ∨ (surveyOf code entry).graph.loadOrder.Closes id t :=
  ImportGraph.precedes_or_closes _ hid (edge_graph_iff.2 ⟨mem_nodes_of_mem_order hid, ht⟩)

end Pagefold.Link
