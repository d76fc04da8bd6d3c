import Pagefold.Proofs.Flat

/-! # The graph of a survey

`Discovers code entry stack met out` works a stack of ids off without any bound on the work: an id
that is met already, or that has no chunk, is dropped, and any other one is met and puts its targets
on the stack.  A survey counts its rounds, and `discovers_meet` says that it never runs out of them:
its nodes are what the unbounded work comes to.

The nodes are the chunks that imports lead to from the entry, without the entry itself
(`mem_nodes_iff`), and every one but the seeds is the target of an edge of another node
(`exists_edge_to_node`).  The edges of a chunk are read off its record, in the order of its sources
(`targets_linkedChunk`).  `survey_graph` puts these facts together. -/

namespace Pagefold.Link

open Script

variable {code : Dictionary String} {entry id t : String}

/-! ### Working a stack off -/

/-- From the stack, with `met` already met, in the end `out` is met. -/
inductive Discovers (code : Dictionary String) (entry : String) :
    (stack : List String) → (met out : Dictionary Chunk) → Prop
  | done {met} : Discovers code entry [] met met
  | drop {id stack met out} (h : id ∈ met.keys ∨ id ∉ code.keys)
      (hrest : Discovers code entry stack met out) : Discovers code entry (id :: stack) met out
  | meet {id stack met out} (hnew : id ∉ met.keys) (hcode : id ∈ code.keys)
      (hrest : Discovers code entry
        ((targets (linkedChunk code entry id)).filter (!met.contains ·) ++ stack)
        (met.insert id (linkedChunk code entry id)) out) :
      Discovers code entry (id :: stack) met out

variable {stack front : List String} {met out : Dictionary Chunk}

/-- Ids that are met, or that have no chunk, are dropped. -/
theorem Discovers.dropAll (hfront : ∀ x ∈ front, x ∈ code.keys → x ∈ met.keys)
    (h : Discovers code entry stack met out) : Discovers code entry (front ++ stack) met out := by
  induction front with
  | nil => exact h
  | cons x front ih =>
      refine .drop ?_ (ih fun y hy => hfront y (List.mem_cons_of_mem x hy))
      by_cases hx : x ∈ code.keys
      · exact .inl (hfront x List.mem_cons_self hx)
      · exact .inr hx

theorem Discovers.idle (h : ∀ x ∈ stack, x ∈ code.keys → x ∈ met.keys) :
    Discovers code entry stack met met := by
  have hall : Discovers code entry (stack ++ []) met met := .dropAll h .done
  rwa [List.append_nil] at hall

/-- **The rounds suffice**: what is met in as many rounds as there are chunks left is what the stack
comes to without a bound. -/
theorem discovers_meet {rounds : Nat} (h : Meeting code entry stack met)
    (hr : code.size ≤ met.size + rounds) :
    Discovers code entry stack met (meet code (.ofList code.keys) entry rounds stack met) := by
  induction rounds generalizing stack met with
  | zero =>
      have hall := h.all_met hr
      exact .idle fun x _ hx => hall hx
  | succ rounds ih =>
      unfold meet
      cases hn : nextUnmet code met stack with
      | none => exact .idle (nextUnmet_eq_none hn)
      | some found =>
          obtain ⟨id, text, rest⟩ := found
          obtain ⟨passed, rfl, hpassed, hnew, htext⟩ := nextUnmet_eq_some hn
          dsimp only
          rw [resolve_parse_eq htext]
          have hsize : (met.insert id (linkedChunk code entry id)).size = met.size + 1 := by
            rw [Dictionary.size, Dictionary.entries_insert _ hnew, List.length_append]
            rfl
          have hrest := ih (h.round hn) (by omega)
          exact .dropAll hpassed (.meet hnew (Dictionary.mem_keys_of_get? htext) hrest)

/-! ### Nodes -/

theorem nodes_graph : (surveyOf code entry).graph.nodes = (surveyOf code entry).nodes.keys := by
  simp only [ImportGraph.nodes, Survey.graph, Dictionary.keys, Dictionary.mapValues, List.map_map]
  rfl

/-- Every chunk that imports lead to is a node, but for the entry. -/
theorem eq_entry_or_mem_nodes (h : Relation.ReflTransGen (Imports code) entry id) :
    id = entry ∨ id ∈ (surveyOf code entry).nodes.keys := by
  induction h with
  | refl => exact .inl rfl
  | @tail u t _ hstep ih =>
      obtain ⟨source, hs, hr⟩ := hstep
      by_cases hentry : t = entry
      · exact .inl hentry
      · by_cases hself : t = u
        · rwa [hself]
        · exact .inr (target_mem_nodes ih (mem_targets_iff.2 ⟨source, hs, hr, hentry, hself⟩))

/-- **The nodes** are the chunks that one import or more lead to from the entry, without the entry. -/
theorem mem_nodes_iff : id ∈ (surveyOf code entry).nodes.keys
    ↔ id ≠ entry ∧ Relation.TransGen (Imports code) entry id := by
  constructor
  · intro h
    refine ⟨fun he => entry_not_mem_nodes (he ▸ h), ?_⟩
    have hall : ∀ x ∈ (surveyOf code entry).nodes.keys, Relation.TransGen (Imports code) entry x :=
      meet_keys (fun u hu t ht => hu.tail (imports_of_mem_targets ht))
        (fun t ht => .single (imports_of_mem_targets ht)) (by simp)
    exact hall id h
  · rintro ⟨hne, hpath⟩
    exact (eq_entry_or_mem_nodes hpath.to_reflTransGen).resolve_left hne

theorem target_ne_importer (h : t ∈ targets (linkedChunk code entry id)) : t ≠ id := by
  obtain ⟨_, _, hl⟩ := mem_targets_iff.1 h
  exact hl.2.2

/-- A node is a seed, or another node has an edge to it. -/
theorem exists_edge_to_node (h : id ∈ (surveyOf code entry).nodes.keys) :
    id ∈ targets (linkedChunk code entry entry) ∨ ∃ u ∈ (surveyOf code entry).nodes.keys,
      u ≠ id ∧ id ∈ targets (linkedChunk code entry u) := by
  -- Along the way from the seeds every id is a node, so it can stand for `u` in the next step.
  have hall : ∀ x ∈ (surveyOf code entry).nodes.keys, x ∈ (surveyOf code entry).nodes.keys ∧
      (x ∈ targets (linkedChunk code entry entry) ∨ ∃ u ∈ (surveyOf code entry).nodes.keys,
        u ≠ x ∧ x ∈ targets (linkedChunk code entry u)) := by
    refine meet_keys ?_ ?_ (by simp)
    · rintro u ⟨hu, _⟩ t ht
      exact ⟨target_mem_nodes (.inr hu) ht, .inr ⟨u, hu, (target_ne_importer ht).symm, ht⟩⟩
    · intro t ht
      exact ⟨target_mem_nodes (.inl rfl) ht, .inl ht⟩
  exact (hall id h).2

/-! ### Edges -/

/-- The distinct chunks that the record of a chunk gives for its sources, in the order of the
sources. -/
def recorded (c : Chunk) : List String := (c.sources.filterMap c.resolved.get?).eraseDups

/-- **The targets of a chunk** are read off its record. -/
theorem targets_linkedChunk :
    targets (linkedChunk code entry id) = recorded (linkedChunk code entry id) := by
  have hnodup : ((links code entry id (parsedChunk code id).sources).map (·.1)).Nodup :=
    (Lists.nodup_eraseDups _).sublist (map_fst_links_sublist code entry id _)
  have hvalues : (linkedChunk code entry id).resolved.values
      = (parsedChunk code id).sources.filterMap fun source =>
          linkedTo? entry id ((Catalog.ofList code.keys).locate source id) := by
    rw [linkedChunk_resolved, Dictionary.values, Dictionary.entries_ofList hnodup, links,
      List.map_filterMap]
    refine List.filterMap_congr fun source _ => ?_
    rw [Option.map_map]
    exact congrFun Option.map_id _
  rw [targets, recorded, hvalues]
  congr 1
  refine List.filterMap_congr fun source hs => Option.ext fun t => ?_
  rw [linkedTo?_eq_some_iff, resolved_get?_iff]
  exact (and_iff_right hs).symm

/-! ### The survey as a whole -/

theorem entries_dictionary : (surveyOf code entry).dictionary.entries
    = (surveyOf code entry).chunks.map fun c => (c.id, c) := by
  rw [Survey.dictionary, Dictionary.entries_ofList survey_keys_nodup, Survey.chunks, List.map_cons,
    Dictionary.values, List.map_map]
  congr 1
  conv_lhs => rw [← List.map_id (surveyOf code entry).nodes.entries]
  refine List.map_congr_left fun e he => ?_
  have hchunk := node_eq (Dictionary.get?_of_mem_entries he)
  rw [Function.comp_apply, hchunk]
  exact Prod.ext rfl hchunk

/-- **The graph of a survey.**  The work on the stack of the seeds comes to an end, and the nodes are
what it has met.  They are the chunks that one import or more lead to from the entry, without the
entry, each once; each is a seed or the target of an edge of another node, and all seeds and targets of
edges are nodes.  The entry is no node, no seed and no target, and no node has an edge to itself.
The seeds and the edges of a node list the chunks on record for the sources of the entry and of the
node, where what is on record is what the sources are linked to.  The chunks of the survey are the
entry and the nodes, in order. -/
theorem survey_graph (code : Dictionary String) (entry : String) :
    let survey := surveyOf code entry
    let graph := survey.graph
    Discovers code entry graph.seeds .empty survey.nodes ∧
    (∀ id, id ∈ graph.nodes ↔ id ≠ entry ∧ Relation.TransGen (Imports code) entry id) ∧
    graph.nodes.Nodup ∧
    (∀ id ∈ graph.nodes, id ∈ graph.seeds ∨ ∃ u ∈ graph.nodes, u ≠ id ∧ graph.Edge u id) ∧
    (∀ id ∈ graph.seeds, id ∈ graph.nodes) ∧
    (∀ u v, graph.Edge u v → u ∈ graph.nodes ∧ v ∈ graph.nodes) ∧
    entry ∉ graph.nodes ∧ entry ∉ graph.seeds ∧ (∀ u, ¬ graph.Edge u entry) ∧
    (∀ u, ¬ graph.Edge u u) ∧
    graph.seeds = recorded (linkedChunk code entry entry) ∧
    (∀ id ∈ graph.nodes, graph.dependencies id = recorded (linkedChunk code entry id)) ∧
    (∀ id source t, (linkedChunk code entry id).resolved.get? source = some t
      ↔ source ∈ (parsedChunk code id).sources ∧ LinksTo code entry id source t) ∧
    survey.chunks = (entry :: graph.nodes).map (linkedChunk code entry) ∧
    survey.dictionary.entries = survey.chunks.map fun c => (c.id, c) := by
  intro survey graph
  have hnodes : graph.nodes = survey.nodes.keys := nodes_graph
  have hseeds : graph.seeds = targets (linkedChunk code entry entry) := rfl
  have hedge : ∀ {u v}, graph.Edge u v ↔ u ∈ survey.nodes.keys ∧ v ∈ targets (linkedChunk code entry u) :=
    edge_graph_iff
  rw [hnodes, hseeds]
  refine ⟨discovers_meet meeting_start (Nat.le_add_left _ _), fun _ => mem_nodes_iff,
    survey.nodes.keys_nodup, ?_, fun _ => target_mem_nodes (.inl rfl), ?_, entry_not_mem_nodes,
    fun h => target_ne_entry h rfl, fun u h => target_ne_entry (hedge.1 h).2 rfl,
    fun u h => target_ne_importer (hedge.1 h).2 rfl, targets_linkedChunk, ?_,
    fun _ _ _ => resolved_get?_iff, chunks_surveyOf, entries_dictionary⟩
  · intro id hid
    refine (exists_edge_to_node hid).imp_right ?_
    rintro ⟨u, hu, hne, ht⟩
    exact ⟨u, hu, hne, hedge.2 ⟨hu, ht⟩⟩
  · intro u v h
    obtain ⟨hu, hv⟩ := hedge.1 h
    exact ⟨hu, target_mem_nodes (.inr hu) hv⟩
  · intro id hid
    rw [← targets_linkedChunk]
    exact (dependencies_graph id).trans (if_pos hid)

/-- `i.js` writes `a.js` in two ways; `a.js` and `b.js` import each other, the entry and themselves. -/
def crossedImports : Dictionary String :=
  .ofList [("i.js", "import\"./a.js\";import\"a.js\";"),
    ("a.js", "import\"./i.js\";import\"./a.js\";import\"./b.js\";"),
    ("b.js", "import\"./b.js\";import\"./a.js\";import\"./gone.js\";")]

theorem crossedImports_graph :
    (surveyOf crossedImports "i.js").graph.nodes = ["a.js", "b.js"] ∧
    (surveyOf crossedImports "i.js").graph.seeds = ["a.js"] ∧
    (surveyOf crossedImports "i.js").graph.dependencies "a.js" = ["b.js"] ∧
    Relation.TransGen (Imports crossedImports) "i.js" "b.js" ∧
    ¬ (surveyOf crossedImports "i.js").graph.Edge "b.js" "b.js" ∧
    ((linkedChunk crossedImports "i.js" "b.js").resolved.get? "./a.js" = some "a.js" →
      LinksTo crossedImports "i.js" "b.js" "./a.js" "a.js") := by
  obtain ⟨_, hnodes, _, _, _, _, _, _, _, hself, _, _, hrecord, _⟩ := survey_graph crossedImports "i.js"
  have hlist : (surveyOf crossedImports "i.js").graph.nodes = ["a.js", "b.js"] := by decide +kernel
  have hb : "b.js" ∈ (surveyOf crossedImports "i.js").graph.nodes := by
    rw [hlist]
    decide
  exact ⟨hlist, by decide +kernel, by decide +kernel, ((hnodes "b.js").1 hb).2, hself "b.js",
    fun h => ((hrecord _ _ _).1 h).2⟩

end Pagefold.Link
