import Pagefold.Link.ImportGraph

/-! # Load order

The order in which the chunks of a graph are to be evaluated: each one after the chunks that it
imports.  The order is found by a depth-first search with three kinds of ids: `fresh` ones that the
search has not come to, those on its `path`, and those that are finished and thereby in `order`.  An
edge back to an id on the path closes a cycle; it is recorded and otherwise passed over.

One step of the search is `Search.step`; every step leaves less work (`Search.work_step_lt`), so the
search comes to an end. -/

namespace Pagefold.Link

/-- The order found, and the closed paths `v, …, u, v` of the edges passed over. -/
structure LoadOrder where
  order : List String
  cycles : List (List String)
deriving DecidableEq, Repr

/-- Where an id stands in the order. -/
def LoadOrder.position? (o : LoadOrder) (id : String) : Option Nat := o.order.findIdx? (· == id)

/-- A search under way. -/
structure Search where
  /-- The ids at which the search is still to start. -/
  seeds : List String
  /-- The ids that the search has not come to. -/
  fresh : List String
  /-- The ids from the current one back to a seed, each with the dependencies still to follow. -/
  path : List (String × List String)
  found : LoadOrder
deriving Repr

namespace Search

/-- The search before its first step. -/
def start (g : ImportGraph) : Search :=
  ⟨g.seeds, (g.seeds ++ g.edges.values.flatten).eraseDups, [], ⟨[], []⟩⟩

/-- The closed path from `id` along the path and back to `id`. -/
def cycleThrough (path : List (String × List String)) (id : String) : List String :=
  id :: ((path.map (·.1)).takeWhile (· != id)).reverse ++ [id]

/-- Comes to a fresh id. -/
def enter (g : ImportGraph) (s : Search) (id : String) : Search :=
  { s with fresh := s.fresh.erase id, path := (id, g.dependencies id) :: s.path }

/-- Follows one dependency, starts at one seed, or finishes the current id. -/
def step (g : ImportGraph) (s : Search) : Search :=
  match s.path with
  | [] =>
    match s.seeds with
    | [] => s
    | id :: seeds =>
      let s := { s with seeds }
      if id ∈ s.fresh then s.enter g id else s
  | (id, []) :: path => { s with path, found := { s.found with order := s.found.order ++ [id] } }
  | (id, next :: rest) :: path =>
    let s := { s with path := (id, rest) :: path }
    if next ∈ s.fresh then s.enter g next
    else if next ∈ s.path.map (·.1) then
      { s with found := { s.found with cycles := s.found.cycles ++ [cycleThrough s.path next] } }
    else s

def isFinished (s : Search) : Bool := s.path.isEmpty && s.seeds.isEmpty

/-- The steps that a search can still take, at most. -/
def work (g : ImportGraph) (s : Search) : Nat :=
  s.seeds.length + 2 * s.fresh.length + (s.fresh.flatMap g.dependencies).length
    + s.path.length + (s.path.flatMap (·.2)).length

/-! ### Every step leaves less work -/

theorem length_flatMap_erase {f : String → List String} {id : String} {ids : List String}
    (h : id ∈ ids) :
    ((ids.erase id).flatMap f).length + (f id).length = (ids.flatMap f).length := by
  induction ids with
  | nil => simp at h
  | cons a ids ih =>
    by_cases ha : a = id
    · subst ha
      simp only [List.erase_cons_head, List.flatMap_cons, List.length_append]
      omega
    · have hm : id ∈ ids := by
        rcases List.mem_cons.1 h with rfl | h
        · exact absurd rfl ha
        · exact h
      rw [List.erase_cons_tail (by simpa using ha)]
      simp only [List.flatMap_cons, List.length_append, ← ih hm]
      omega

theorem work_enter {g : ImportGraph} {s : Search} {id : String} (h : id ∈ s.fresh) :
    (s.enter g id).work g + 1 = s.work g := by
  have hd := length_flatMap_erase (f := g.dependencies) h
  have hl := List.length_erase_of_mem h
  have hp := List.length_pos_of_mem h
  simp only [work, enter, List.flatMap_cons, List.length_append, List.length_cons]
  omega

theorem work_step_lt {g : ImportGraph} {s : Search} (h : s.isFinished = false) :
    (s.step g).work g < s.work g := by
  unfold step
  split
  · rename_i hp
    split
    · rename_i hs
      simp [isFinished, hp, hs] at h
    · rename_i id seeds hs
      dsimp only
      split
      · rename_i hf
        have := work_enter (g := g) (s := { s with seeds }) hf
        simp only [work, hs, List.length_cons] at this ⊢
        omega
      · simp only [work, hs, List.length_cons]
        omega
  · rename_i id path hp
    simp only [work, hp, List.flatMap_cons, List.length_append, List.length_cons, List.length_nil]
    omega
  · rename_i id next rest path hp
    dsimp only
    have hw : ({ s with path := (id, rest) :: path } : Search).work g < s.work g := by
      simp only [work, hp, List.flatMap_cons, List.length_append, List.length_cons]
      omega
    split
    · rename_i hf
      have := work_enter (g := g) (s := { s with path := (id, rest) :: path }) hf
      omega
    · split
      · exact hw
      · exact hw

/-- Takes steps until the search is finished. -/
def run (g : ImportGraph) (s : Search) : Search :=
  if _h : s.isFinished = true then s else run g (s.step g)
termination_by s.work g
decreasing_by exact work_step_lt (by simpa using _h)

end Search

/-- The load order of a graph. -/
def ImportGraph.loadOrder (g : ImportGraph) : LoadOrder := ((Search.start g).run g).found

end Pagefold.Link
