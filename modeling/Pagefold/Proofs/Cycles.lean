import Mathlib.Data.List.Chain
import Mathlib.Data.List.Perm.Subperm
import Mathlib.Logic.Function.Iterate
import Pagefold.Proofs.LoadOrder

/-! # Cycles on record

What the search of `Pagefold.Link.LoadOrder` records about cycles.  The ids finished so far, and behind
them those on the path with the current one first, stand in the order in which they will all have been
finished (`Search.lined`): a step only puts a new id in between.  `Search.Recorded g s` says of a search
under way that

* each id on the path imports the one in front of it;
* each cycle on record is a closed walk (`ImportGraph.ClosedWalk`);
* the last edge of a recorded cycle leads back: its target is finished after its source;
* each edge is followed once, so at most one cycle on record ends in it.

With `Search.Sound`, for graphs whose lists of dependencies repeat nothing, an edge of the finished
search leads to an id that comes first, or it closes just one recorded cycle, and never both
(`settled_once`).  A cycle is recorded exactly when edges lead from a seed into a cycle
(`cycles_eq_nil_iff`). -/

namespace Pagefold.Link

/-! ### Closed walks -/

/-- A walk along edges that ends where it starts and passes no other id twice. -/
def ImportGraph.ClosedWalk (g : ImportGraph) (walk : List String) : Prop :=
  ∃ v inner, walk = v :: inner ++ [v] ∧ walk.IsChain g.Edge ∧ (v :: inner).Nodup

/-- The recorded paths that start at `v` and end with the edge from `u` to `v`. -/
def LoadOrder.closings (o : LoadOrder) (u v : String) : List (List String) :=
  o.cycles.filter fun cycle => cycle.head? == some v && [u, v].isSuffixOf cycle

namespace LoadOrder

variable {o : LoadOrder} {u v : String} {cycle : List String}

theorem mem_closings_iff :
    cycle ∈ o.closings u v ↔ cycle ∈ o.cycles ∧ cycle.head? = some v ∧ [u, v] <:+ cycle := by
  simp [closings]

theorem closings_eq_nil (h : ¬ o.Closes u v) : o.closings u v = [] := by
  rw [List.eq_nil_iff_forall_not_mem]
  intro cycle hm
  obtain ⟨hc, _, hsuf⟩ := mem_closings_iff.1 hm
  exact h ⟨cycle, hc, hsuf⟩

end LoadOrder

namespace ImportGraph

variable {g : ImportGraph} {u v : String} {walk : List String}

/-- A closed walk starts with the target of its last edge. -/
theorem ClosedWalk.head?_of_suffix (h : g.ClosedWalk walk) (hs : [u, v] <:+ walk) :
    walk.head? = some v := by
  obtain ⟨w, inner, rfl, _, _⟩ := h
  obtain ⟨front, hfront⟩ := hs
  have hlast := congrArg List.getLast? hfront
  rw [List.getLast?_append_cons, List.getLast?_concat] at hlast
  simpa using hlast.symm

theorem ClosedWalk.transGen (h : g.ClosedWalk walk) :
    ∃ id ∈ walk, Relation.TransGen g.Edge id id := by
  obtain ⟨v, inner, rfl, hchain, _⟩ := h
  refine ⟨v, by simp, ?_⟩
  cases inner with
  | nil => exact .single (by simpa using hchain)
  | cons w inner =>
      rw [List.cons_append, List.cons_append, List.isChain_cons_cons] at hchain
      refine .head' hchain.1 ?_
      exact List.relationReflTransGen_of_exists_isChain_cons (inner ++ [v]) hchain.2 (by simp)

end ImportGraph

namespace Search

variable {g : ImportGraph} {s s' : Search} {u v id next : String} {rest : List String}
  {path : List (String × List String)}

/-! ### The order of finishing -/

/-- The ids met so far in the order in which they will have been finished. -/
def lined (s : Search) : List String := s.found.order ++ s.onPath

theorem lined_perm_met (s : Search) : s.lined.Perm s.met := List.perm_append_comm

theorem Sound.lined_nodup (h : Sound g s) : s.lined.Nodup := by
  have hall := h.ids.nodup_iff.2 (Lists.nodup_eraseDups _)
  exact (lined_perm_met s).nodup_iff.2 (List.nodup_append.1 hall).1

theorem Sound.onPath_nodup (h : Sound g s) : s.onPath.Nodup :=
  (List.nodup_append.1 h.lined_nodup).2.1

/-- A step puts a new id in its place, or changes nothing. -/
theorem Step.lined (h : Step g s s') : s.lined.Sublist s'.lined := by
  cases h with
  | skipSeed | close | pass => exact .refl _
  | enterSeed => exact (List.nil_sublist _).append_left _
  | finish => simp [Search.lined, onPath]
  | descend => exact (List.sublist_cons_self _ _).append_left _

/-! ### The cycle that an edge closes -/

/-- The part of the path up to an id on it. -/
theorem exists_takeWhile_append {ids : List String} (h : v ∈ ids) :
    ∃ below, ids = ids.takeWhile (· != v) ++ v :: below := by
  induction ids with
  | nil => cases h
  | cons a ids ih =>
      by_cases ha : a = v
      · exact ⟨ids, by simp [ha]⟩
      · obtain ⟨below, hbelow⟩ := ih ((List.mem_cons.1 h).resolve_left (Ne.symm ha))
        refine ⟨below, ?_⟩
        rw [List.takeWhile_cons, if_pos (bne_iff_ne.2 ha), List.cons_append, ← hbelow]

/-- An edge from the current id back to an id on the path closes a walk. -/
theorem closedWalk_cycleThrough
    (hchain : (id :: path.map (·.1)).IsChain fun u v => g.Edge v u)
    (hnodup : (id :: path.map (·.1)).Nodup) (hedge : g.Edge id next)
    (hp : next ∈ id :: path.map (·.1)) :
    g.ClosedWalk (cycleThrough ((id, rest) :: path) next) := by
  obtain ⟨below, hbelow⟩ := exists_takeWhile_append hp
  unfold cycleThrough
  rw [List.map_cons]
  generalize (id :: path.map (·.1)).takeWhile (· != next) = above at hbelow ⊢
  refine ⟨next, above.reverse, rfl, ?_, ?_⟩
  · -- Backwards, the walk is `next` followed by the path up to `next`.
    have hback : (next :: (above ++ next :: below)).IsChain fun u v => g.Edge v u := by
      rw [← hbelow, List.isChain_cons_cons]
      exact ⟨hedge, hchain⟩
    have hpart : next :: (above ++ [next]) <+: next :: (above ++ next :: below) :=
      ⟨below, by simp⟩
    have hfront := List.IsChain.prefix hback hpart
    have hwalk := List.isChain_reverse.2 hfront
    simpa using hwalk
  · rw [hbelow] at hnodup
    have hpart : (above ++ [next]).Sublist (above ++ next :: below) :=
      List.Sublist.append_left (by simp) _
    have hrev := List.nodup_reverse.2 (hnodup.sublist hpart)
    simpa using hrev

/-! ### The invariant of the record -/

structure Recorded (g : ImportGraph) (s : Search) : Prop where
  linked : s.onPath.IsChain fun u v => g.Edge v u
  walks : ∀ cycle ∈ s.found.cycles, g.ClosedWalk cycle
  backward : ∀ u v, s.found.Closes u v → u = v ∨ [u, v].Sublist s.lined
  past : ∀ u v, s.found.Closes u v → u ∈ s.found.order ∨ ∃ rest, (u, rest) ∈ s.path ∧ v ∉ rest
  once : ∀ u v, (s.found.closings u v).length ≤ 1

theorem not_closes_start (g : ImportGraph) : ¬ (start g).found.Closes u v := by
  rintro ⟨cycle, hc, _⟩
  cases hc

theorem recorded_start (g : ImportGraph) : Recorded g (start g) where
  linked := .nil
  walks := by simp [start]
  backward _ _ h := absurd h (not_closes_start g)
  past _ _ h := absurd h (not_closes_start g)
  once _ _ := by simp [start, LoadOrder.closings]

/-- The record after one more cycle. -/
theorem closes_append_iff {order cycle : List String} {cycles : List (List String)} :
    (⟨order, cycles ++ [cycle]⟩ : LoadOrder).Closes u v
      ↔ (⟨order, cycles⟩ : LoadOrder).Closes u v ∨ [u, v] <:+ cycle := by
  constructor
  · rintro ⟨c, hc, hs⟩
    rcases List.mem_append.1 hc with hc | hc
    · exact .inl ⟨c, hc, hs⟩
    · exact .inr (List.mem_singleton.1 hc ▸ hs)
  · rintro (⟨c, hc, hs⟩ | hs)
    · exact ⟨c, List.mem_append_left _ hc, hs⟩
    · exact ⟨cycle, List.mem_append_right _ List.mem_cons_self, hs⟩

/-- A cycle ends in one edge. -/
theorem eq_of_suffix_cycleThrough (h : [u, v] <:+ cycleThrough ((id, rest) :: path) next) :
    u = id ∧ v = next := by
  have hends := suffix_cycleThrough id next rest path
  have heq := (List.suffix_of_suffix_length_le h hends (Nat.le_refl 2)).eq_of_length rfl
  simpa using heq

theorem Recorded.linked_step (hr : Recorded g s) (hs : Sound g s) (h : Step g s s') :
    s'.onPath.IsChain fun u v => g.Edge v u := by
  have hlinked := hr.linked
  cases h with
  | skipSeed | close | pass => exact hlinked
  | enterSeed => exact .singleton _
  | finish => exact hlinked.tail
  | descend => exact List.isChain_cons_cons.2 ⟨hs.followed.edge, hlinked⟩

theorem Recorded.walks_step (hr : Recorded g s) (hs : Sound g s) (h : Step g s s') :
    ∀ cycle ∈ s'.found.cycles, g.ClosedWalk cycle := by
  have hwalks := hr.walks
  cases h with
  | enterSeed | skipSeed | finish | descend | pass => exact hwalks
  | close hf hp =>
      intro cycle hc
      rcases List.mem_append.1 hc with hc | hc
      · exact hwalks cycle hc
      · rw [List.mem_singleton.1 hc]
        exact closedWalk_cycleThrough hr.linked hs.onPath_nodup hs.followed.edge hp

theorem Recorded.backward_step (hr : Recorded g s) (h : Step g s s') :
    ∀ u v, s'.found.Closes u v → u = v ∨ [u, v].Sublist s'.lined := by
  have hold : ∀ u v, s.found.Closes u v → u = v ∨ [u, v].Sublist s'.lined := fun u v hc =>
    (hr.backward u v hc).imp_right fun hsub => hsub.trans h.lined
  cases h with
  | enterSeed | skipSeed | finish | descend | pass => exact hold
  | @close id next rest seeds fresh path order cycles hf hp =>
      intro u v hc
      rcases closes_append_iff.1 hc with hc | hsuf
      · exact hold u v hc
      · obtain ⟨rfl, rfl⟩ := eq_of_suffix_cycleThrough hsuf
        -- The target is on the path: it is the source, or it is finished after it.
        rcases List.mem_cons.1 hp with heq | hbelow
        · exact .inl heq.symm
        · refine .inr (.trans ?_ (List.sublist_append_right _ _))
          exact (List.singleton_sublist.2 hbelow).cons_cons u

/-- What is followed next is no longer among what is to be followed. -/
theorem past_of_next {rest' : List String} (hm : (u, rest') ∈ (id, next :: rest) :: path)
    (hv : v ∉ rest') : ∃ rest', (u, rest') ∈ (id, rest) :: path ∧ v ∉ rest' := by
  rcases List.mem_cons.1 hm with he | hm
  · cases he
    exact ⟨rest, List.mem_cons_self, fun h => hv (List.mem_cons_of_mem _ h)⟩
  · exact ⟨rest', List.mem_cons_of_mem _ hm, hv⟩

theorem Recorded.past_step (hr : Recorded g s) (hs : Sound g s)
    (hnodup : ∀ id, (g.dependencies id).Nodup) (h : Step g s s') :
    ∀ u v, s'.found.Closes u v → u ∈ s'.found.order ∨ ∃ rest, (u, rest) ∈ s'.path ∧ v ∉ rest := by
  intro u v hc
  have hpast := hr.past u v
  have hfol := hs.followed
  cases h with
  | skipSeed => exact hpast hc
  | enterSeed =>
      refine (hpast hc).imp_right fun ⟨_, hm, _⟩ => ?_
      cases hm
  | finish =>
      rcases hpast hc with ho | ⟨rest, hm, hv⟩
      · exact .inl (List.mem_append_left _ ho)
      · rcases List.mem_cons.1 hm with he | hm
        · cases he
          exact .inl (List.mem_append_right _ List.mem_cons_self)
        · exact .inr ⟨rest, hm, hv⟩
  | descend =>
      refine (hpast hc).imp_right fun ⟨_, hm, hv⟩ => ?_
      obtain ⟨rest', hm', hv'⟩ := past_of_next hm hv
      exact ⟨rest', List.mem_cons_of_mem _ hm', hv'⟩
  | pass => exact (hpast hc).imp_right fun ⟨_, hm, hv⟩ => past_of_next hm hv
  | @close id next rest seeds fresh path order cycles =>
      rcases closes_append_iff.1 hc with hc | hsuf
      · exact (hpast hc).imp_right fun ⟨_, hm, hv⟩ => past_of_next hm hv
      · obtain ⟨rfl, rfl⟩ := eq_of_suffix_cycleThrough hsuf
        -- A list of dependencies repeats nothing, so `v` does not come again.
        obtain ⟨⟨done, hd, _⟩, _⟩ := hfol
        have hdeps := hnodup u
        rw [hd] at hdeps
        have hv : v ∉ rest := (List.nodup_cons.1 (List.nodup_append.1 hdeps).2.1).1
        exact .inr ⟨rest, List.mem_cons_self, hv⟩

/-- The edge to be followed next closes no cycle on record. -/
theorem Recorded.not_closes_next (hr : Recorded g s) (hs : Sound g s)
    (hpath : s.path = (id, next :: rest) :: path) : ¬ s.found.Closes id next := by
  intro hc
  have hnodup := hs.lined_nodup
  rw [lined, onPath, hpath, List.map_cons, List.nodup_append, List.nodup_cons] at hnodup
  obtain ⟨_, ⟨hbelow, _⟩, hdisjoint⟩ := hnodup
  rcases hr.past id next hc with ho | ⟨rest', hm, hv⟩
  · exact hdisjoint id ho id List.mem_cons_self rfl
  · rw [hpath] at hm
    rcases List.mem_cons.1 hm with he | hm
    · cases he
      exact hv List.mem_cons_self
    · exact hbelow (List.mem_map.2 ⟨_, hm, rfl⟩)

theorem Recorded.once_step (hr : Recorded g s) (hs : Sound g s) (h : Step g s s') :
    ∀ u v, (s'.found.closings u v).length ≤ 1 := by
  have honce := hr.once
  cases h with
  | enterSeed | skipSeed | finish | descend | pass => exact honce
  | @close id next rest seeds fresh path order cycles hf hp =>
      intro u v
      have hsplit : (⟨order, cycles ++ [cycleThrough ((id, rest) :: path) next]⟩ : LoadOrder).closings u v
          = (⟨order, cycles⟩ : LoadOrder).closings u v
            ++ [cycleThrough ((id, rest) :: path) next].filter
              fun cycle => cycle.head? == some v && [u, v].isSuffixOf cycle :=
        List.filter_append _ _
      rw [hsplit, List.length_append]
      by_cases hsuf : [u, v] <:+ cycleThrough ((id, rest) :: path) next
      · obtain ⟨rfl, rfl⟩ := eq_of_suffix_cycleThrough hsuf
        rw [LoadOrder.closings_eq_nil (hr.not_closes_next hs rfl)]
        exact (Nat.zero_add _).trans_le (List.length_filter_le _ _)
      · have hnone : [cycleThrough ((id, rest) :: path) next].filter
            (fun cycle => cycle.head? == some v && [u, v].isSuffixOf cycle) = [] := by
          simp [hsuf]
        rw [hnone]
        exact honce u v

theorem Recorded.step (hr : Recorded g s) (hs : Sound g s)
    (hnodup : ∀ id, (g.dependencies id).Nodup) (h : Step g s s') : Recorded g s' where
  linked := hr.linked_step hs h
  walks := hr.walks_step hs h
  backward := hr.backward_step h
  past := hr.past_step hs hnodup h
  once := hr.once_step hs h

theorem recorded_run (hnodup : ∀ id, (g.dependencies id).Nodup) : Recorded g ((start g).run g) :=
  (run_keeps (P := fun s => Sound g s ∧ Recorded g s)
    (fun _ _ hs h => ⟨hs.1.step h, hs.2.step hs.1 hnodup h⟩) _ ⟨sound_start g, recorded_start g⟩).2

/-! ### Step by step -/

theorem step_of_isFinished (h : s.isFinished = true) : s.step g = s := by
  obtain ⟨seeds, fresh, path, found⟩ := s
  simp only [isFinished, Bool.and_eq_true, List.isEmpty_iff] at h
  obtain ⟨rfl, rfl⟩ := h
  rfl

/-- A search under way stays sound, step after step. -/
theorem sound_iterate (g : ImportGraph) (n : Nat) : Sound g ((step g)^[n] (start g)) := by
  induction n with
  | zero => exact sound_start g
  | succ n ih =>
      rw [Function.iterate_succ_apply']
      by_cases hf : ((step g)^[n] (start g)).isFinished = true
      · rwa [step_of_isFinished hf]
      · exact ih.step (step_spec (by simpa using hf))

/-- **A search comes to its end** within as many steps as it has work. -/
theorem exists_run_eq_iterate (g : ImportGraph) (s : Search) :
    ∃ n ≤ s.work g, s.run g = (step g)^[n] s := by
  induction s using run.induct g with
  | case1 s hf =>
      rw [run, dif_pos hf]
      exact ⟨0, Nat.zero_le _, rfl⟩
  | case2 s hf ih =>
      obtain ⟨n, hn, heq⟩ := ih
      have hless := work_step_lt (g := g) (s := s) (by simpa using hf)
      rw [run, dif_neg hf]
      refine ⟨n + 1, by omega, ?_⟩
      rw [heq, Function.iterate_succ_apply]

end Search

/-! ### The load order of a graph -/

namespace ImportGraph

open Search

variable {g : ImportGraph} {u v id : String}

theorem lined_run (g : ImportGraph) : ((start g).run g).lined = g.loadOrder.order := by
  have h := isFinished_run (g := g) (start g)
  rw [isFinished, Bool.and_eq_true, List.isEmpty_iff] at h
  rw [lined, onPath, h.1]
  exact List.append_nil _

/-- **Each edge is settled once**: its target comes first and it closes no recorded cycle, or the
target does not come first and the edge closes one. -/
theorem settled_once (hnodup : ∀ id, (g.dependencies id).Nodup) (hu : u ∈ g.loadOrder.order)
    (h : g.Edge u v) :
    [v, u].Sublist g.loadOrder.order ∧ g.loadOrder.closings u v = [] ∨
      ¬ [v, u].Sublist g.loadOrder.order ∧ ∃ cycle, g.loadOrder.closings u v = [cycle] := by
  have hr := recorded_run (g := g) hnodup
  by_cases hc : g.loadOrder.Closes u v
  · right
    constructor
    · have hback := hr.backward u v hc
      rw [lined_run] at hback
      rcases hback with rfl | hback
      · exact fun h => Lists.not_pair_sublist_swap g.order_nodup h h
      · exact Lists.not_pair_sublist_swap g.order_nodup hback
    · obtain ⟨cycle, hm, hsuf⟩ := hc
      have hmem : cycle ∈ g.loadOrder.closings u v :=
        LoadOrder.mem_closings_iff.2 ⟨hm, (hr.walks cycle hm).head?_of_suffix hsuf, hsuf⟩
      have hone : (g.loadOrder.closings u v).length = 1 :=
        Nat.le_antisymm (hr.once u v) (List.length_pos_of_mem hmem)
      exact List.length_eq_one_iff.1 hone
  · exact .inl ⟨(g.precedes_or_closes hu h).resolve_right hc, LoadOrder.closings_eq_nil hc⟩

theorem reaches_of_transGen (hu : g.Reaches u) (h : Relation.TransGen g.Edge u v) : g.Reaches v := by
  induction h with
  | single he => exact hu.edge he
  | tail _ he ih => exact ih.edge he

/-- Where no cycle is on record, edges lead from later ids to earlier ones. -/
theorem precedes_of_transGen (hnone : g.loadOrder.cycles = []) (hu : g.Reaches u)
    (h : Relation.TransGen g.Edge u v) : [v, u].Sublist g.loadOrder.order := by
  have hedge : ∀ {a b}, g.Reaches a → g.Edge a b → [b, a].Sublist g.loadOrder.order := by
    intro a b ha he
    refine (g.precedes_or_closes (g.mem_order_iff.2 ha) he).resolve_right ?_
    rintro ⟨cycle, hc, _⟩
    rw [hnone] at hc
    cases hc
  induction h with
  | single he => exact hedge hu he
  | tail hpath he ih =>
      exact Lists.pair_sublist_trans g.order_nodup (hedge (reaches_of_transGen hu hpath) he) ih

/-- **A cycle is on record** exactly when edges lead from a seed into a cycle. -/
theorem cycles_eq_nil_iff (hnodup : ∀ id, (g.dependencies id).Nodup) :
    g.loadOrder.cycles = [] ↔ ¬ ∃ id, g.Reaches id ∧ Relation.TransGen g.Edge id id := by
  constructor
  · rintro hnone ⟨id, hid, hloop⟩
    have hself := precedes_of_transGen hnone hid hloop
    exact Lists.not_pair_sublist_swap g.order_nodup hself hself
  · intro hacyclic
    rw [List.eq_nil_iff_forall_not_mem]
    intro cycle hc
    obtain ⟨id, hid, hloop⟩ := ((recorded_run hnodup).walks cycle hc).transGen
    exact hacyclic ⟨id, g.mem_order_iff.1 (g.mem_order_of_mem_cycle hc hid), hloop⟩

/-! ### Graphs of lists -/

theorem dependencies_ofLists_nodup (entry : String) (seeds : List String)
    (edges : List (String × List String)) (id : String) :
    ((ofLists entry seeds edges).dependencies id).Nodup := by
  unfold dependencies
  cases hd : (ofLists entry seeds edges).edges.get? id with
  | none => exact List.nodup_nil
  | some targets =>
      have hmem := Dictionary.mem_of_get?_ofList hd
      obtain ⟨⟨_, ids⟩, _, he⟩ := List.mem_map.1 hmem
      cases he
      exact Lists.nodup_eraseDups ids

/-- **The load order of any graph.**  The search comes to its end.  Its order lists the ids that edges
lead to from a seed, each once.  For every edge from an ordered id, either its target comes first, or
just one recorded path starts and ends with the target and goes over the edge at its end.  Every
recorded cycle is a closed walk, and there is none just when no cycle can be reached from a seed.  At
every step the ids on the path are distinct, and never more than those that are ordered in the end. -/
theorem loadOrder_ofLists (entry : String) (seeds : List String)
    (edges : List (String × List String)) :
    let g := ofLists entry seeds edges
    (∃ n, ((step g)^[n] (start g)).isFinished = true ∧
      g.loadOrder = ((step g)^[n] (start g)).found) ∧
    g.loadOrder.order.Nodup ∧ (∀ id, id ∈ g.loadOrder.order ↔ g.Reaches id) ∧
    (∀ u ∈ g.loadOrder.order, ∀ v, g.Edge u v →
      [v, u].Sublist g.loadOrder.order ∧ g.loadOrder.closings u v = [] ∨
        ¬ [v, u].Sublist g.loadOrder.order ∧ ∃ cycle, g.loadOrder.closings u v = [cycle]) ∧
    (∀ cycle ∈ g.loadOrder.cycles, g.ClosedWalk cycle) ∧
    (g.loadOrder.cycles = [] ↔ ¬ ∃ id, g.Reaches id ∧ Relation.TransGen g.Edge id id) ∧
    (∀ n, ((step g)^[n] (start g)).onPath.Nodup ∧
      ((step g)^[n] (start g)).onPath ⊆ g.loadOrder.order ∧
      ((step g)^[n] (start g)).path.length ≤ g.loadOrder.order.length) := by
  intro g
  have hnodup : ∀ id, (g.dependencies id).Nodup := dependencies_ofLists_nodup entry seeds edges
  refine ⟨?_, g.order_nodup, fun _ => g.mem_order_iff, fun u hu v => settled_once hnodup hu,
    (recorded_run hnodup).walks, cycles_eq_nil_iff hnodup, ?_⟩
  · obtain ⟨n, _, hn⟩ := exists_run_eq_iterate g (start g)
    refine ⟨n, ?_, ?_⟩
    · rw [← hn]
      exact isFinished_run _
    · rw [← hn]
      rfl
  · intro n
    have hs := sound_iterate g n
    have hsub : ((step g)^[n] (start g)).onPath ⊆ g.loadOrder.order := fun id hid =>
      g.mem_order_iff.2 (hs.reached id (List.mem_append_left _ hid))
    refine ⟨hs.onPath_nodup, hsub, ?_⟩
    have hlen := (List.subperm_of_subset hs.onPath_nodup hsub).length_le
    rwa [onPath, List.length_map] at hlen

/-- `a` and `b` import each other, `b` imports itself, and `c` has no entry among the edges. -/
def knot : ImportGraph := .ofLists "i" ["a"] [("a", ["b", "c", "b"]), ("b", ["a", "b"])]

theorem knot_loadOrder :
    knot.loadOrder = ⟨["b", "c", "a"], [["a", "b", "a"], ["b", "b"]]⟩ ∧
    "b" ∈ knot.loadOrder.order ∧ knot.Edge "b" "a" ∧ knot.Edge "b" "b" ∧
    (∃ cycle, knot.loadOrder.closings "b" "a" = [cycle]) ∧
    (∃ cycle, knot.loadOrder.closings "b" "b" = [cycle]) ∧
    ∃ id, knot.Reaches id ∧ Relation.TransGen knot.Edge id id := by
  obtain ⟨_, _, _, hedges, _, hcycles, _⟩ :=
    loadOrder_ofLists "i" ["a"] [("a", ["b", "c", "b"]), ("b", ["a", "b"])]
  have horder : knot.loadOrder = ⟨["b", "c", "a"], [["a", "b", "a"], ["b", "b"]]⟩ := by
    decide +kernel
  have hb : "b" ∈ knot.loadOrder.order := by
    rw [horder]
    decide
  have hba : knot.Edge "b" "a" := by
    show "a" ∈ knot.dependencies "b"
    decide +kernel
  have hbb : knot.Edge "b" "b" := by
    show "b" ∈ knot.dependencies "b"
    decide +kernel
  refine ⟨horder, hb, hba, hbb, ?_, ?_, ?_⟩
  · exact ((hedges "b" hb "a" hba).resolve_left (by decide +kernel)).2
  · exact ((hedges "b" hb "b" hbb).resolve_left (by decide +kernel)).2
  · by_contra hnone
    exact absurd (hcycles.2 hnone) (by decide +kernel)

end ImportGraph

end Pagefold.Link
