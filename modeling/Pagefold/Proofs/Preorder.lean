import Pagefold.Proofs.Discovery

/-! # The order in which chunks are met

`Visits next met ids out` is a recursive search.  It goes through the ids in order, and when it comes to one for the
first time it writes it down and goes through what lies next to it, before it turns to the id behind.  What such a
search writes down is determined (`Visits.unique`).

A survey has no recursion.  It works off a stack on which ids can wait more than once, and what a chunk leads to is
put in front of what waits there.  So what lies in front of an id on the stack is what the search would go through
before it comes to that id (`Discovers.visits`), and the nodes of a survey are written down in the order of the
search (`survey_preorder`). -/

namespace Pagefold.Link

open Script

/-! ### The recursive search -/

/-- With `met` already written down, going through `ids` writes down the rest of `out`. -/
inductive Visits {α : Type} (next : α → List α) : (met ids out : List α) → Prop
  | done {met} : Visits next met [] met
  | again {id met ids out} (hmet : id ∈ met) (hrest : Visits next met ids out) : Visits next met (id :: ids) out
  | first {id met ids between out} (hnew : id ∉ met) (hbelow : Visits next (met ++ [id]) (next id) between)
      (hrest : Visits next between ids out) : Visits next met (id :: ids) out

section search

variable {α : Type} {next : α → List α} {met ids front back out out' : List α} {p : α → Bool}

/-- The search writes down one list at most. -/
theorem Visits.unique (h : Visits next met ids out) (h' : Visits next met ids out') : out = out' := by
  induction h generalizing out' with
  | done =>
      cases h' with
      | done => rfl
  | again hmet _ ih =>
      cases h' with
      | again _ hrest => exact ih hrest
      | first hnew => exact absurd hmet hnew
  | first hnew _ _ ihbelow ihrest =>
      cases h' with
      | again hmet => exact absurd hmet hnew
      | first _ hbelow hrest =>
          obtain rfl := ihbelow hbelow
          exact ihrest hrest

/-- What is written down stays. -/
theorem Visits.isPrefix (h : Visits next met ids out) : met <+: out := by
  induction h with
  | done => exact List.prefix_rfl
  | again _ _ ih => exact ih
  | first _ _ _ ihbelow ihrest => exact (List.prefix_append _ _).trans (ihbelow.trans ihrest)

/-- Going through two lists is going through the one and then through the other. -/
theorem Visits.exists_between (h : Visits next met (front ++ back) out) :
    ∃ between, Visits next met front between ∧ Visits next between back out := by
  induction front generalizing met with
  | nil => exact ⟨met, .done, h⟩
  | cons id front ih =>
      cases h with
      | again hmet hrest =>
          obtain ⟨between, hfront, hback⟩ := ih hrest
          exact ⟨between, .again hmet hfront, hback⟩
      | first hnew hbelow hrest =>
          obtain ⟨between, hfront, hback⟩ := ih hrest
          exact ⟨between, .first hnew hbelow hfront, hback⟩

/-- Ids that are written down already can be left out. -/
theorem Visits.of_filter (h : Visits next met (ids.filter p) out) (hmet : ∀ id ∈ ids, p id = false → id ∈ met) :
    Visits next met ids out := by
  induction ids generalizing met with
  | nil => exact h
  | cons id ids ih =>
      have hbehind : ∀ x ∈ ids, p x = false → x ∈ met := fun x hx => hmet x (List.mem_cons_of_mem id hx)
      cases hp : p id with
      | false =>
          rw [List.filter_cons_of_neg (by simp [hp])] at h
          exact .again (hmet id List.mem_cons_self hp) (ih h hbehind)
      | true =>
          rw [List.filter_cons_of_pos hp] at h
          cases h with
          | again hid hrest => exact .again hid (ih hrest hbehind)
          | first hnew hbelow hrest =>
              have hgrown : met <+: _ := (List.prefix_append met [id]).trans hbelow.isPrefix
              exact .first hnew hbelow (ih hrest fun x hx hpx => hgrown.subset (hbehind x hx hpx))

end search

/-! ### The stack against the search -/

variable {code : Dictionary String} {entry : String} {stack : List String} {met out : Dictionary Chunk}

/-- **Working the stack off** meets the chunks in the order of the search through it. -/
theorem Discovers.visits (h : Discovers code entry stack met out) (hstack : ∀ id ∈ stack, id ∈ code.keys) :
    Visits (fun id => targets (linkedChunk code entry id)) met.keys stack out.keys := by
  induction h with
  | done => exact .done
  | drop hid _ ih =>
      obtain ⟨hhead, hbehind⟩ := List.forall_mem_cons.1 hstack
      exact .again (hid.resolve_right (absurd hhead)) (ih hbehind)
  | @meet id stack met out hnew _ _ ih =>
      obtain ⟨_, hbehind⟩ := List.forall_mem_cons.1 hstack
      have hwaiting : ∀ x ∈ (targets (linkedChunk code entry id)).filter (!met.contains ·) ++ stack,
          x ∈ code.keys := by
        intro x hx
        rcases List.mem_append.1 hx with hx | hx
        · exact target_mem_keys (List.mem_of_mem_filter hx)
        · exact hbehind x hx
      -- The targets that wait on top are gone through first, and then what waited before them.
      have hvisits := ih hwaiting
      rw [Dictionary.keys_insert _ hnew] at hvisits
      obtain ⟨between, hbelow, hrest⟩ := hvisits.exists_between
      refine .first hnew (hbelow.of_filter fun x _ hx => ?_) hrest
      rw [Bool.not_eq_false'] at hx
      exact List.mem_append_left _ (Dictionary.contains_iff.1 hx)

/-- **Chunks are met in preorder.**  The search from the seeds of a survey, in which the targets of a chunk lie next
to it, writes down the nodes of the survey in their order, and nothing else.  In this order, behind the entry, stand
the chunks of the survey, and what there is to say about their imports is told chunk by chunk. -/
theorem survey_preorder (code : Dictionary String) (entry : String) :
    let survey := surveyOf code entry
    let catalog := Catalog.ofList code.keys
    survey.graph.seeds = targets (linkedChunk code entry entry) ∧
    (∀ order, Visits (fun id => targets (linkedChunk code entry id)) [] survey.graph.seeds order
      ↔ order = survey.graph.nodes) ∧
    survey.chunks = (entry :: survey.graph.nodes).map (linkedChunk code entry) ∧
    survey.findings catalog = (entry :: survey.graph.nodes).flatMap fun id =>
      importFindings catalog entry (linkedChunk code entry id) := by
  intro survey catalog
  have hnodes : survey.graph.nodes = survey.nodes.keys := nodes_graph
  have hchunks : survey.chunks = (entry :: survey.nodes.keys).map (linkedChunk code entry) := chunks_surveyOf
  have hstart : Meeting code entry survey.graph.seeds .empty := meeting_start
  have hvisits : Visits (fun id => targets (linkedChunk code entry id)) [] survey.graph.seeds survey.nodes.keys :=
    (discovers_meet hstart (Nat.le_add_left _ _)).visits fun _ => target_mem_keys
  rw [hnodes]
  refine ⟨rfl, fun order => ⟨fun h => h.unique hvisits, fun h => h ▸ hvisits⟩, hchunks, ?_⟩
  rw [Survey.findings, hchunks, List.flatMap_map]
  rfl

/-- A chunk is met before the chunks that are imported behind it. -/
example : (surveyOf (.ofList [("i.js", "import\"./a.js\";import\"./b.js\";"), ("b.js", "import\"./c.js\";"),
    ("a.js", "import\"./c.js\";import\"./b.js\";"), ("c.js", "import\"./a.js\";")]) "i.js").graph.nodes
      = ["a.js", "c.js", "b.js"] := by decide +kernel

end Pagefold.Link
