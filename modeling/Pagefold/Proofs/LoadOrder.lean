import Mathlib.Logic.Relation
import Pagefold.Link.LoadOrder
import Pagefold.Proofs.Dictionary
import Pagefold.Proofs.Lists

/-! # What a load order holds

The search of `Pagefold.Link.LoadOrder`, read as a relation: `Search.Step` lists the six things that
one step can do, and each invariant is kept by each of them.  `Search.Sound g s` says of a search
under way that

* the fresh ids, those on the path and the finished ones are together the ids that the graph
  mentions, each once;
* edges lead to every id met so far from a seed;
* each dependency followed so far is finished, or further along the path, or the cycle that it closes
  is on record (`LoadOrder.Settles`).

When the search is finished, the path is empty.  So the order lists the ids that edges lead to, each
once (`mem_order_iff`, `order_nodup`), and the target of an edge comes before its source unless a
cycle that ends in the edge is on record (`precedes_or_closes`). -/

namespace Pagefold.Link

/-! ### Reachability -/

namespace ImportGraph

variable {g : ImportGraph} {u v id : String}

/-- `u` imports `v`. -/
def Edge (g : ImportGraph) (u v : String) : Prop := v ∈ g.dependencies u

/-- Edges lead to `id` from a seed. -/
def Reaches (g : ImportGraph) (id : String) : Prop :=
  ∃ seed ∈ g.seeds, Relation.ReflTransGen g.Edge seed id

theorem reaches_of_seed (h : id ∈ g.seeds) : g.Reaches id := ⟨id, h, .refl⟩

theorem Reaches.edge (hu : g.Reaches u) (h : g.Edge u v) : g.Reaches v := by
  obtain ⟨seed, hs, hp⟩ := hu
  exact ⟨seed, hs, hp.tail h⟩

/-- The ids that a search can come to. -/
def mentioned (g : ImportGraph) : List String := (g.seeds ++ g.edges.values.flatten).eraseDups

theorem mem_mentioned_of_seed (h : id ∈ g.seeds) : id ∈ g.mentioned :=
  List.mem_eraseDups.2 (List.mem_append_left _ h)

theorem mem_mentioned_of_edge (h : g.Edge u v) : v ∈ g.mentioned := by
  unfold Edge dependencies at h
  cases hd : g.edges.get? u with
  | none =>
      rw [hd] at h
      simp at h
  | some targets =>
      rw [hd, Option.getD_some] at h
      refine List.mem_eraseDups.2 (List.mem_append_right _ (List.mem_flatten.2 ⟨targets, ?_, h⟩))
      exact Dictionary.mem_values_of_get? hd

end ImportGraph

/-! ### The steps of a search -/

namespace Search

/-- The ids on the path, the current one first. -/
def onPath (s : Search) : List String := s.path.map (·.1)

/-- The six things that a step can do. -/
inductive Step (g : ImportGraph) : Search → Search → Prop
  | enterSeed {id seeds fresh found} (hf : id ∈ fresh) :
      Step g ⟨id :: seeds, fresh, [], found⟩
        ⟨seeds, fresh.erase id, [(id, g.dependencies id)], found⟩
  | skipSeed {id seeds fresh found} (hf : id ∉ fresh) :
      Step g ⟨id :: seeds, fresh, [], found⟩ ⟨seeds, fresh, [], found⟩
  | finish {id seeds fresh path order cycles} :
      Step g ⟨seeds, fresh, (id, []) :: path, ⟨order, cycles⟩⟩
        ⟨seeds, fresh, path, ⟨order ++ [id], cycles⟩⟩
  | descend {id next rest seeds fresh path found} (hf : next ∈ fresh) :
      Step g ⟨seeds, fresh, (id, next :: rest) :: path, found⟩
        ⟨seeds, fresh.erase next, (next, g.dependencies next) :: (id, rest) :: path, found⟩
  | close {id next rest seeds fresh path order cycles} (hf : next ∉ fresh)
      (hp : next ∈ id :: path.map (·.1)) :
      Step g ⟨seeds, fresh, (id, next :: rest) :: path, ⟨order, cycles⟩⟩
        ⟨seeds, fresh, (id, rest) :: path,
          ⟨order, cycles ++ [cycleThrough ((id, rest) :: path) next]⟩⟩
  | pass {id next rest seeds fresh path found} (hf : next ∉ fresh)
      (hp : next ∉ id :: path.map (·.1)) :
      Step g ⟨seeds, fresh, (id, next :: rest) :: path, found⟩
        ⟨seeds, fresh, (id, rest) :: path, found⟩

variable {g : ImportGraph} {s s' : Search}

theorem step_spec (h : s.isFinished = false) : Step g s (s.step g) := by
  obtain ⟨seeds, fresh, path, order, cycles⟩ := s
  match path, seeds with
  | [], [] => simp [isFinished] at h
  | [], id :: seeds =>
      by_cases hf : id ∈ fresh
      · simp only [step, enter, if_pos hf]
        exact .enterSeed hf
      · simp only [step, if_neg hf]
        exact .skipSeed hf
  | (id, []) :: path, seeds => exact .finish
  | (id, next :: rest) :: path, seeds =>
      by_cases hf : next ∈ fresh
      · simp only [step, enter, if_pos hf]
        exact .descend hf
      · by_cases hp : next ∈ id :: path.map (·.1)
        · simp only [step, if_neg hf, List.map_cons, if_pos hp]
          exact .close hf hp
        · simp only [step, if_neg hf, List.map_cons, if_neg hp]
          exact .pass hf hp

theorem isFinished_run (s : Search) : (s.run g).isFinished = true := by
  induction s using run.induct g with
  | case1 s h =>
      rw [run, dif_pos h]
      exact h
  | case2 s h ih =>
      rw [run, dif_neg h]
      exact ih

/-- What every step keeps, a whole search keeps. -/
theorem run_keeps {P : Search → Prop} (hstep : ∀ s s', P s → Step g s s' → P s') (s : Search)
    (h : P s) : P (s.run g) := by
  induction s using run.induct g with
  | case1 s hf =>
      rw [run, dif_pos hf]
      exact h
  | case2 s hf ih =>
      rw [run, dif_neg hf]
      exact ih (hstep _ _ h (step_spec (by simpa using hf)))

end Search

/-! ### What is found only grows -/

namespace LoadOrder

variable {o o' : LoadOrder} {above above' : List String} {u v : String}

/-- `o'` is `o` with more at the ends. -/
def Extends (o o' : LoadOrder) : Prop := o.order <+: o'.order ∧ o.cycles <+: o'.cycles

/-- A cycle whose last edge goes from `u` to `v` is on record. -/
def Closes (o : LoadOrder) (u v : String) : Prop := ∃ cycle ∈ o.cycles, [u, v] <:+ cycle

/-- What has become of the dependency `v` of an id `u` on the path, where `above` are the ids further
along the path. -/
def Settles (o : LoadOrder) (above : List String) (u v : String) : Prop :=
  v ∈ above ∨ v ∈ o.order ∨ o.Closes u v

theorem Closes.mono (ho : o.Extends o') (h : o.Closes u v) : o'.Closes u v := by
  obtain ⟨cycle, hm, hs⟩ := h
  exact ⟨cycle, ho.2.subset hm, hs⟩

theorem Settles.mono (ho : o.Extends o') (ha : ∀ id ∈ above, id ∈ above' ∨ id ∈ o'.order)
    (h : o.Settles above u v) : o'.Settles above' u v := by
  rcases h with h | h | h
  · rcases ha v h with h | h
    · exact .inl h
    · exact .inr (.inl h)
  · exact .inr (.inl (ho.1.subset h))
  · exact .inr (.inr (h.mono ho))

end LoadOrder

namespace Search

variable {g : ImportGraph} {s s' : Search} {o o' : LoadOrder}

theorem Step.extends (h : Step g s s') : s.found.Extends s'.found := by
  cases h with
  | enterSeed | skipSeed | descend | pass => exact ⟨List.prefix_rfl, List.prefix_rfl⟩
  | finish => exact ⟨List.prefix_append _ _, List.prefix_rfl⟩
  | close => exact ⟨List.prefix_rfl, List.prefix_append _ _⟩

/-- The ids met so far: those on the path and the finished ones. -/
def met (s : Search) : List String := s.onPath ++ s.found.order

/-- A step meets an id or finishes one; it neither drops nor repeats any. -/
theorem Step.ids_perm (h : Step g s s') : (s'.met ++ s'.fresh).Perm (s.met ++ s.fresh) := by
  cases h with
  | @enterSeed id seeds fresh found hf =>
      show (id :: (found.order ++ fresh.erase id)).Perm (found.order ++ fresh)
      exact List.perm_middle.symm.trans ((List.perm_cons_erase hf).symm.append_left _)
  | skipSeed => exact .refl _
  | @finish id seeds fresh path order cycles =>
      show ((path.map (·.1) ++ (order ++ [id])) ++ fresh).Perm
        (id :: ((path.map (·.1) ++ order) ++ fresh))
      have e : (path.map (·.1) ++ (order ++ [id])) ++ fresh
          = (path.map (·.1) ++ order) ++ id :: fresh := by simp
      rw [e]
      exact List.perm_middle
  | @descend id next rest seeds fresh path found hf =>
      show (next :: ((id :: path.map (·.1) ++ found.order) ++ fresh.erase next)).Perm
        ((id :: path.map (·.1) ++ found.order) ++ fresh)
      exact List.perm_middle.symm.trans ((List.perm_cons_erase hf).symm.append_left _)
  | close => exact .refl _
  | pass => exact .refl _

theorem Step.met_subset (h : Step g s s') : s.met ⊆ s'.met := by
  intro id hid
  cases h with
  | skipSeed | close | pass => exact hid
  | enterSeed | descend => exact List.mem_cons_of_mem _ hid
  | finish =>
      simp only [met, onPath, List.map_cons, List.cons_append, List.mem_cons, List.mem_append,
        List.not_mem_nil, or_false] at hid ⊢
      tauto

/-- For each id on the path, the dependencies followed so far are settled. -/
def Followed (g : ImportGraph) (o : LoadOrder) :
    (above : List String) → List (String × List String) → Prop
  | _, [] => True
  | above, (u, rest) :: below =>
    (∃ done, g.dependencies u = done ++ rest ∧ ∀ v ∈ done, o.Settles above u v)
      ∧ Followed g o (u :: above) below

theorem Followed.mono {path : List (String × List String)} {above above' : List String}
    (ho : o.Extends o') (ha : ∀ id ∈ above, id ∈ above' ∨ id ∈ o'.order)
    (h : Followed g o above path) : Followed g o' above' path := by
  induction path generalizing above above' with
  | nil => trivial
  | cons e path ih =>
      obtain ⟨u, rest⟩ := e
      obtain ⟨⟨done, hd, hs⟩, hbelow⟩ := h
      refine ⟨⟨done, hd, fun v hv => (hs v hv).mono ho ha⟩, ih ?_ hbelow⟩
      intro id hid
      rcases List.mem_cons.1 hid with rfl | hid
      · exact .inl List.mem_cons_self
      · exact (ha id hid).imp (List.mem_cons_of_mem _) fun h => h

/-- One dependency of the current id more is followed. -/
theorem Followed.next {id next : String} {rest : List String} {path : List (String × List String)}
    {above : List String} (h : Followed g o [] ((id, next :: rest) :: path))
    (ho : o.Extends o') (hnext : o'.Settles above id next) :
    Followed g o' above ((id, rest) :: path) := by
  obtain ⟨⟨done, hd, hs⟩, hbelow⟩ := h
  refine ⟨⟨done ++ [next], by simp [hd], ?_⟩, hbelow.mono ho ?_⟩
  · intro v hv
    rcases List.mem_append.1 hv with hv | hv
    · exact (hs v hv).mono ho (by simp)
    · rw [List.mem_singleton.1 hv]
      exact hnext
  · intro u hu
    rw [List.mem_singleton.1 hu]
    exact .inl List.mem_cons_self

/-! ### The closed path of a cycle -/

/-- The path from `v` back to the current id, and once more `v`, ends in the edge followed. -/
theorem suffix_cycleThrough (u v : String) (rest : List String) (path : List (String × List String)) :
    [u, v] <:+ cycleThrough ((u, rest) :: path) v := by
  unfold cycleThrough
  by_cases h : u = v
  · subst h
    simp
  · have ht : (((u, rest) :: path).map (·.1)).takeWhile (· != v)
        = u :: (path.map (·.1)).takeWhile (· != v) := by
      rw [List.map_cons, List.takeWhile_cons, if_pos (bne_iff_ne.2 h)]
    rw [ht, List.reverse_cons]
    exact ⟨v :: ((path.map (·.1)).takeWhile (· != v)).reverse, by simp⟩

theorem mem_of_mem_cycleThrough {path : List (String × List String)} {v id : String}
    (h : id ∈ cycleThrough path v) : id = v ∨ id ∈ path.map (·.1) := by
  simp only [cycleThrough, List.mem_append, List.mem_cons, List.mem_reverse, List.not_mem_nil,
    or_false] at h
  rcases h with (rfl | h) | rfl
  · exact .inl rfl
  · exact .inr ((List.takeWhile_sublist _).subset h)
  · exact .inl rfl

/-! ### The invariant of a search -/

structure Sound (g : ImportGraph) (s : Search) : Prop where
  ids : (s.met ++ s.fresh).Perm g.mentioned
  reached : ∀ id ∈ s.met, g.Reaches id
  seeds : ∃ gone, g.seeds = gone ++ s.seeds ∧ ∀ id ∈ gone, id ∈ s.met
  followed : Followed g s.found [] s.path
  settled : ∀ u ∈ s.found.order, ∀ v, g.Edge u v →
    [v, u].Sublist s.found.order ∨ s.found.Closes u v
  cycles_met : ∀ cycle ∈ s.found.cycles, ∀ id ∈ cycle, id ∈ s.met

theorem Sound.met_of_not_fresh {id : String} (h : Sound g s) (hm : id ∈ g.mentioned)
    (hf : id ∉ s.fresh) : id ∈ s.met :=
  (List.mem_append.1 (h.ids.mem_iff.2 hm)).resolve_right hf

/-- What is followed next is a dependency. -/
theorem Followed.edge {above : List String} {id next : String} {rest : List String}
    {path : List (String × List String)} {o : LoadOrder}
    (h : Followed g o above ((id, next :: rest) :: path)) : g.Edge id next := by
  obtain ⟨⟨done, hd, _⟩, _⟩ := h
  show next ∈ g.dependencies id
  rw [hd]
  simp

theorem sound_start (g : ImportGraph) : Sound g (start g) where
  ids := .refl _
  reached := by simp [met, onPath, start]
  seeds := ⟨[], rfl, by simp⟩
  followed := trivial
  settled := by simp [start]
  cycles_met := by simp [start]

theorem Step.reached (h : Step g s s') (hs : Sound g s) : ∀ id ∈ s'.met, g.Reaches id := by
  cases h with
  | skipSeed | close | pass => exact hs.reached
  | @enterSeed id seeds fresh found hf =>
      obtain ⟨gone, hg, _⟩ := hs.seeds
      have hid : id ∈ g.seeds := by
        rw [hg]
        simp
      intro x hx
      rcases List.mem_cons.1 hx with rfl | hx
      · exact ImportGraph.reaches_of_seed hid
      · exact hs.reached x hx
  | @finish id seeds fresh path order cycles =>
      intro x hx
      refine hs.reached x ?_
      simp only [met, onPath, List.map_cons, List.cons_append, List.mem_cons, List.mem_append,
        List.not_mem_nil, or_false] at hx ⊢
      tauto
  | @descend id next rest seeds fresh path found hf =>
      intro x hx
      rcases List.mem_cons.1 hx with rfl | hx
      · exact (hs.reached id (by simp [met, onPath])).edge hs.followed.edge
      · exact hs.reached x hx

theorem Step.seeds (h : Step g s s') (hs : Sound g s) :
    ∃ gone, g.seeds = gone ++ s'.seeds ∧ ∀ id ∈ gone, id ∈ s'.met := by
  have hsub := h.met_subset
  obtain ⟨gone, hg, hm⟩ := hs.seeds
  -- A seed is gone once it is met: now, or before if it is no longer fresh.
  have hgone : ∀ {id seeds}, g.seeds = gone ++ id :: seeds → id ∈ s'.met →
      ∃ gone, g.seeds = gone ++ seeds ∧ ∀ x ∈ gone, x ∈ s'.met := by
    intro id seeds he hid
    refine ⟨gone ++ [id], by simp [he], ?_⟩
    intro x hx
    rcases List.mem_append.1 hx with hx | hx
    · exact hsub (hm x hx)
    · rw [List.mem_singleton.1 hx]
      exact hid
  cases h with
  | enterSeed hf => exact hgone hg List.mem_cons_self
  | skipSeed hf =>
      refine hgone hg (hs.met_of_not_fresh (ImportGraph.mem_mentioned_of_seed ?_) hf)
      rw [hg]
      simp
  | finish | descend | close | pass => exact ⟨gone, hg, fun id hid => hsub (hm id hid)⟩

theorem Step.followed (h : Step g s s') (hs : Sound g s) : Followed g s'.found [] s'.path := by
  have ho := h.extends
  have hfol := hs.followed
  cases h with
  | skipSeed => exact trivial
  | enterSeed => exact ⟨⟨[], rfl, by simp⟩, trivial⟩
  | finish => exact hfol.2.mono ho (by simp)
  | descend hf => exact ⟨⟨[], rfl, by simp⟩, hfol.next ho (.inl List.mem_cons_self)⟩
  | @close id next rest seeds fresh path order cycles hf hp =>
      refine hfol.next ho (.inr (.inr ⟨_, ?_, suffix_cycleThrough id next rest path⟩))
      exact List.mem_append_right _ List.mem_cons_self
  | @pass id next rest seeds fresh path found hf hp =>
      refine hfol.next ho (.inr (.inl ?_))
      have hm := hs.met_of_not_fresh (ImportGraph.mem_mentioned_of_edge hfol.edge) hf
      exact (List.mem_append.1 hm).resolve_left hp

theorem Step.settled (h : Step g s s') (hs : Sound g s) :
    ∀ u ∈ s'.found.order, ∀ v, g.Edge u v →
      [v, u].Sublist s'.found.order ∨ s'.found.Closes u v := by
  have ho := h.extends
  have hold : ∀ u ∈ s.found.order, ∀ v, g.Edge u v →
      [v, u].Sublist s'.found.order ∨ s'.found.Closes u v := fun u hu v hv =>
    (hs.settled u hu v hv).imp (fun h => h.trans ho.1.sublist) (fun h => h.mono ho)
  have hfol := hs.followed
  cases h with
  | enterSeed | skipSeed | descend | close | pass => exact hold
  | @finish id seeds fresh path order cycles =>
      intro u hu v hv
      rcases List.mem_append.1 hu with hu | hu
      · exact hold u hu v hv
      · obtain rfl := List.mem_singleton.1 hu
        -- Nothing is left to follow and nothing lies further along the path.
        obtain ⟨⟨done, hd, hset⟩, _⟩ := hfol
        rw [List.append_nil] at hd
        have hv : v ∈ done := hd ▸ hv
        rcases hset v hv with h | h | h
        · simp at h
        · exact .inl ((List.singleton_sublist.2 h).append (.refl [u]))
        · exact .inr (h.mono ho)

theorem Step.cycles_met (h : Step g s s') (hs : Sound g s) :
    ∀ cycle ∈ s'.found.cycles, ∀ id ∈ cycle, id ∈ s'.met := by
  have hsub := h.met_subset
  have hold := fun cycle hc id hid => hsub (hs.cycles_met cycle hc id hid)
  cases h with
  | enterSeed | skipSeed | finish | descend | pass => exact hold
  | @close id next rest seeds fresh path order cycles hf hp =>
      intro cycle hc x hx
      rcases List.mem_append.1 hc with hc | hc
      · exact hold cycle hc x hx
      · rw [List.mem_singleton.1 hc] at hx
        rcases mem_of_mem_cycleThrough hx with rfl | hx
        · exact List.mem_append_left _ hp
        · exact List.mem_append_left _ hx

theorem Sound.step (hs : Sound g s) (h : Step g s s') : Sound g s' where
  ids := h.ids_perm.trans hs.ids
  reached := h.reached hs
  seeds := h.seeds hs
  followed := h.followed hs
  settled := h.settled hs
  cycles_met := h.cycles_met hs

theorem sound_run (g : ImportGraph) : Sound g ((start g).run g) :=
  run_keeps (fun _ _ hs h => hs.step h) _ (sound_start g)

end Search

/-! ### The load order of a graph -/

namespace ImportGraph

open Search

variable (g : ImportGraph) {u v : String}

/-- In the end the met ids are the finished ones. -/
theorem met_run : ((start g).run g).met = g.loadOrder.order := by
  have h := isFinished_run (g := g) (start g)
  rw [isFinished, Bool.and_eq_true, List.isEmpty_iff] at h
  rw [met, onPath, h.1]
  rfl

theorem order_nodup : g.loadOrder.order.Nodup := by
  have h := (sound_run g).ids.nodup_iff.2 (Lists.nodup_eraseDups _)
  rw [← met_run]
  exact (List.nodup_append.1 h).1

/-- **Order of an edge**: the target comes before its source, or a cycle that ends in the edge is on
record. -/
theorem precedes_or_closes (hu : u ∈ g.loadOrder.order) (h : g.Edge u v) :
    [v, u].Sublist g.loadOrder.order ∨ g.loadOrder.Closes u v :=
  (sound_run g).settled u hu v h

theorem mem_order_of_mem_cycle {cycle : List String} {id : String}
    (hc : cycle ∈ g.loadOrder.cycles) (h : id ∈ cycle) : id ∈ g.loadOrder.order := by
  rw [← met_run]
  exact (sound_run g).cycles_met cycle hc id h

/-- What an ordered id imports is ordered as well. -/
theorem mem_order_of_edge (hu : u ∈ g.loadOrder.order) (h : g.Edge u v) :
    v ∈ g.loadOrder.order := by
  rcases g.precedes_or_closes hu h with hp | ⟨cycle, hc, hs⟩
  · exact hp.subset List.mem_cons_self
  · exact g.mem_order_of_mem_cycle hc (hs.subset (by simp))

theorem mem_order_of_seed (h : u ∈ g.seeds) : u ∈ g.loadOrder.order := by
  obtain ⟨gone, hg, hm⟩ := (sound_run g).seeds
  have hf := isFinished_run (g := g) (start g)
  rw [isFinished, Bool.and_eq_true, List.isEmpty_iff, List.isEmpty_iff] at hf
  rw [hf.2, List.append_nil] at hg
  rw [← met_run]
  exact hm u (hg ▸ h)

/-- **The ids of a load order** are those that edges lead to from a seed. -/
theorem mem_order_iff : u ∈ g.loadOrder.order ↔ g.Reaches u := by
  constructor
  · intro h
    rw [← met_run] at h
    exact (sound_run g).reached u h
  · rintro ⟨seed, hs, hp⟩
    induction hp with
    | refl => exact g.mem_order_of_seed hs
    | tail _ he ih => exact g.mem_order_of_edge ih he

end ImportGraph

end Pagefold.Link
