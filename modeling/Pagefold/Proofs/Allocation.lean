import Mathlib.Data.Finset.Card
import Mathlib.Data.Finset.Dedup
import Mathlib.Data.Nat.Find
import Mathlib.Logic.Relation
import Pagefold.Proofs.Naming

/-! # Giving names call by call

Names are given one call after the other, by a register that keeps them beside the set of those that are
taken (`Register`).  A call for an id without a name tries its base, and as long as what it tries is taken,
the base with the next counter (`Round`).  This comes to an end, as each round uses up one of the names
that are taken (`round_wf`), and it ends with the first name that is free (`settles_iff`).  Whatever the
calls are, the register holds what naming the ids in their order gives, and its names are taken, and no
others (`reached_iff`, `names_after_calls`). -/

namespace Pagefold.Link

open Relation

variable {base id lead name : String} {k : Nat} {taken : Finset String} {calls : List (String × String)}

/-! ### The names tried -/

/-- The names tried for a base: the base itself, and then the base with one counter after the other. -/
def tried (base : String) : Nat → String
  | 0 => base
  | k + 1 => s!"{base}_{k + 1}"

theorem candidates_eq (base : String) (n : Nat) :
    candidates base n = (List.range (n + 1)).map (tried base) := by
  rw [List.range_succ_eq_map, List.map_cons, List.map_map]
  rfl

/-- Of the names tried, the `k`th is the first that is not taken. -/
structure IsFirstFree (taken : Finset String) (base : String) (k : Nat) : Prop where
  free : tried base k ∉ taken
  before : ∀ j < k, tried base j ∈ taken

theorem IsFirstFree.le (h : IsFirstFree taken base k) {j : Nat} (hj : tried base j ∉ taken) : k ≤ j :=
  Nat.le_of_not_lt fun hlt => hj (h.before j hlt)

theorem IsFirstFree.unique {j : Nat} (h : IsFirstFree taken base k) (h' : IsFirstFree taken base j) :
    k = j :=
  le_antisymm (h.le h'.free) (h'.le h.free)

/-- Among one more names than are taken, one is free. -/
theorem exists_tried_free (taken : List String) (base : String) :
    ∃ k ≤ taken.length, tried base k ∉ taken := by
  obtain ⟨name, hname, hfree⟩ := exists_free taken base
  rw [candidates_eq] at hname
  obtain ⟨k, hk, rfl⟩ := List.mem_map.1 hname
  exact ⟨k, Nat.le_of_lt_succ (List.mem_range.1 hk), hfree⟩

theorem exists_firstFree (taken : Finset String) (base : String) : ∃ k, IsFirstFree taken base k := by
  have hfree : ∃ k, tried base k ∉ taken := by
    obtain ⟨k, _, hk⟩ := exists_tried_free taken.toList base
    exact ⟨k, mt Finset.mem_toList.2 hk⟩
  exact ⟨Nat.find hfree, Nat.find_spec hfree, fun j hj => not_not.1 (Nat.find_min hfree hj)⟩

/-- The name that a search among the candidates finds is the first that is free. -/
theorem freeName_eq {taken : List String} (h : IsFirstFree taken.toFinset base k) :
    freeName taken base = tried base k := by
  have hlt : k < taken.length + 1 := by
    obtain ⟨j, hj, hfree⟩ := exists_tried_free taken base
    exact Nat.lt_succ_of_le ((h.le (mt List.mem_toFinset.1 hfree)).trans hj)
  have hfind : (List.range (taken.length + 1)).find? (fun k => !taken.contains (tried base k)) = some k := by
    rw [List.find?_range_eq_some]
    refine ⟨by simpa using mt List.mem_toFinset.2 h.free, List.mem_range.2 hlt, fun j hj => ?_⟩
    simpa using List.mem_toFinset.1 (h.before j hj)
  show ((candidates base taken.length).find? (!taken.contains ·)).getD base = tried base k
  rw [candidates_eq, List.find?_map]
  show (((List.range (taken.length + 1)).find? (fun k => !taken.contains (tried base k))).map
    (tried base)).getD base = tried base k
  rw [hfind]
  rfl

/-! ### Trying one name after the other -/

/-- One round: a name that is taken gives way to the base with the counter, and the counter goes up. -/
inductive Round (taken : Finset String) (base : String) : String × Nat → String × Nat → Prop
  | next {name : String} {counter : Nat} (h : name ∈ taken) :
      Round taken base (name, counter) (s!"{base}_{counter}", counter + 1)

/-- The names that are taken and that a counter from `n` on would make again. -/
noncomputable def ahead (taken : Finset String) (base : String) (n : Nat) : Finset String :=
  open Classical in taken.filter fun name => ∃ j, n ≤ j ∧ name = s!"{base}_{j}"

theorem mem_ahead {n : Nat} :
    name ∈ ahead taken base n ↔ name ∈ taken ∧ ∃ j, n ≤ j ∧ name = s!"{base}_{j}" := by
  classical
  exact Finset.mem_filter

theorem ahead_succ_subset {n : Nat} : ahead taken base (n + 1) ⊆ ahead taken base n := by
  intro name h
  obtain ⟨htaken, j, hj, hname⟩ := mem_ahead.1 h
  exact mem_ahead.2 ⟨htaken, j, by omega, hname⟩

/-- A name that is taken and was made is not ahead any more. -/
theorem card_ahead_succ_lt {n : Nat} (h : s!"{base}_{n}" ∈ taken) :
    (ahead taken base (n + 1)).card < (ahead taken base n).card := by
  have hnow : s!"{base}_{n}" ∈ ahead taken base n := mem_ahead.2 ⟨h, n, le_rfl, rfl⟩
  have hlater : s!"{base}_{n}" ∉ ahead taken base (n + 1) := by
    intro hlater
    obtain ⟨_, j, hj, hname⟩ := mem_ahead.1 hlater
    have hsame := numbered_injective hname
    omega
  exact Finset.card_lt_card ((Finset.ssubset_iff_of_subset ahead_succ_subset).2 ⟨_, hnow, hlater⟩)

/-- How many rounds there can still be: the name that is tried now and those ahead, as far as they are
taken. -/
noncomputable def roundsLeft (taken : Finset String) (base : String) (s : String × Nat) : Nat :=
  (ahead taken base s.2).card + if s.1 ∈ taken then 1 else 0

theorem Round.roundsLeft_lt {s s' : String × Nat} (h : Round taken base s s') :
    roundsLeft taken base s' < roundsLeft taken base s := by
  cases h with
  | @next name counter hname =>
      unfold roundsLeft
      dsimp only
      rw [if_pos hname]
      split
      · rename_i htaken
        have hlt := card_ahead_succ_lt htaken
        omega
      · have hle := Finset.card_le_card (@ahead_succ_subset base taken counter)
        omega

/-- **Trying comes to an end**, wherever it begins. -/
theorem round_wf (taken : Finset String) (base : String) :
    WellFounded fun s' s => Round taken base s s' :=
  Subrelation.wf Round.roundsLeft_lt (measure (roundsLeft taken base)).wf

/-- What is tried for a base, round by round, with the counters that stand beside it. -/
theorem reflTransGen_round_iff {s : String × Nat} : ReflTransGen (Round taken base) (base, 1) s
    ↔ ∃ k, s = (tried base k, k + 1) ∧ ∀ j < k, tried base j ∈ taken := by
  constructor
  · intro h
    induction h with
    | refl => exact ⟨0, rfl, by omega⟩
    | tail _ hround ih =>
        obtain ⟨k, rfl, hbefore⟩ := ih
        obtain ⟨htaken⟩ := hround
        refine ⟨k + 1, rfl, fun j hj => ?_⟩
        rcases Nat.lt_succ_iff_lt_or_eq.1 hj with hj | rfl
        · exact hbefore j hj
        · exact htaken
  · rintro ⟨k, rfl, hbefore⟩
    induction k with
    | zero => exact .refl
    | succ k ih =>
        have hrun := ih fun j hj => hbefore j (by omega)
        exact hrun.tail (.next (hbefore k (by omega)))

/-- Trying a base ends with `name`. -/
def Settles (taken : Finset String) (base name : String) : Prop :=
  ∃ counter, ReflTransGen (Round taken base) (base, 1) (name, counter) ∧ name ∉ taken

/-- **What trying ends with** is the first name that is free. -/
theorem settles_iff (h : IsFirstFree taken base k) : Settles taken base name ↔ name = tried base k := by
  constructor
  · rintro ⟨counter, hrun, hfree⟩
    obtain ⟨j, hj, hbefore⟩ := reflTransGen_round_iff.1 hrun
    obtain ⟨rfl, rfl⟩ := Prod.mk.inj hj
    rw [h.unique ⟨hfree, hbefore⟩]
  · rintro rfl
    exact ⟨k + 1, reflTransGen_round_iff.2 ⟨k, rfl, h.before⟩, h.free⟩

/-! ### Registers -/

/-- The names that were given, and the set of those that are taken. -/
structure Register where
  names : Naming
  taken : Finset String

namespace Register

variable {r r' : Register}

/-- A call for the name of `id`, with the name that it returns and the register that it leaves. -/
inductive Call (id lead : String) (r : Register) : String → Register → Prop
  | known {name : String} (h : r.names.get? id = some name) : Call id lead r name r
  | fresh {name : String} (h : r.names.get? id = none) (hname : Settles r.taken (baseName id lead) name) :
      Call id lead r name ⟨r.names.insert id name, insert name r.taken⟩

/-- What some calls, one after the other, make of the empty register. -/
inductive Reached : List (String × String) → Register → Prop
  | start : Reached [] ⟨.empty, ∅⟩
  | call {calls : List (String × String)} {id lead name : String} {r r' : Register} (h : Reached calls r)
      (hcall : r.Call id lead name r') : Reached (calls ++ [(id, lead)]) r'

/-- The register of a naming: its names are taken, and no others. -/
def ofNaming (names : Naming) : Register := ⟨names, names.values.toFinset⟩

@[simp] theorem ofNaming_names (names : Naming) : (ofNaming names).names = names := rfl

@[simp] theorem ofNaming_taken (names : Naming) : (ofNaming names).taken = names.values.toFinset := rfl

theorem ofNaming_insert {names : Naming} (h : names.get? id = none) :
    ofNaming (names.insert id name) = ⟨names.insert id name, insert name names.values.toFinset⟩ := by
  rw [ofNaming, Dictionary.values, Dictionary.entries_insert name (Dictionary.get?_eq_none_iff.1 h),
    List.map_append, List.toFinset_append, Finset.union_comm]
  rfl

theorem mem_taken_ofNaming {names : Naming} :
    name ∈ (ofNaming names).taken ↔ ∃ id, names.get? id = some name := by
  rw [ofNaming_taken, List.mem_toFinset]
  constructor
  · intro h
    obtain ⟨e, he, rfl⟩ := List.mem_map.1 h
    exact ⟨e.1, Dictionary.get?_of_mem_entries he⟩
  · rintro ⟨id, h⟩
    exact Dictionary.mem_values_of_get? h

end Register

namespace Naming

variable {names : Naming}

theorem assign_of_get? (h : names.get? id = some name) : names.assign id lead = names := by
  rw [assign, if_pos (Dictionary.contains_iff.2 (Dictionary.mem_keys_of_get? h))]

theorem assign_of_new (h : names.get? id = none)
    (hk : IsFirstFree names.values.toFinset (baseName id lead) k) :
    names.assign id lead = names.insert id (tried (baseName id lead) k) := by
  have hnew : names.contains id ≠ true := fun hc =>
    Dictionary.get?_eq_none_iff.1 h (Dictionary.contains_iff.1 hc)
  rw [assign, if_neg hnew, freeName_eq hk]

/-- The naming that some calls build, each with the opening of its own name. -/
def ofCalls (calls : List (String × String)) : Naming :=
  calls.foldl (fun names call => names.assign call.1 call.2) .empty

theorem ofCalls_concat (calls : List (String × String)) (id lead : String) :
    ofCalls (calls ++ [(id, lead)]) = (ofCalls calls).assign id lead := by
  rw [ofCalls, List.foldl_concat]
  rfl

theorem values_nodup_ofCalls (calls : List (String × String)) : (ofCalls calls).values.Nodup := by
  induction calls using List.reverseRecOn with
  | nil => exact List.nodup_nil
  | append_singleton calls call ih =>
      rw [ofCalls_concat]
      exact values_nodup_assign ih

end Naming

namespace Register

variable {names : Naming} {r r' : Register}

/-- **One call** to the register of a naming: a known id keeps its name, and a new one gets the first that is
free. -/
theorem call_ofNaming_iff : (ofNaming names).Call id lead name r'
    ↔ (names.assign id lead).get? id = some name ∧ r' = ofNaming (names.assign id lead) := by
  obtain ⟨k, hk⟩ := exists_firstFree names.values.toFinset (baseName id lead)
  constructor
  · intro h
    cases h with
    | known h =>
        rw [ofNaming_names] at h
        rw [Naming.assign_of_get? h]
        exact ⟨h, rfl⟩
    | fresh h hname =>
        rw [ofNaming_names] at h
        obtain rfl := (settles_iff hk).1 hname
        rw [Naming.assign_of_new h hk, Dictionary.get?_insert, if_pos rfl, ofNaming_insert h]
        exact ⟨rfl, rfl⟩
  · rintro ⟨hget, rfl⟩
    cases h : names.get? id with
    | some old =>
        rw [Naming.assign_of_get? h] at hget ⊢
        exact .known hget
    | none =>
        rw [Naming.assign_of_new h hk, Dictionary.get?_insert, if_pos rfl, Option.some_inj] at hget
        rw [Naming.assign_of_new h hk, ← hget, ofNaming_insert h]
        exact .fresh h ((settles_iff hk).2 rfl)

/-- **All calls**: the register that they lead to is that of the naming that they build. -/
theorem reached_iff : Reached calls r ↔ r = ofNaming (Naming.ofCalls calls) := by
  constructor
  · intro h
    induction h with
    | start => rfl
    | call _ hcall ih =>
        rw [ih] at hcall
        rw [Naming.ofCalls_concat]
        exact (call_ofNaming_iff.1 hcall).2
  · rintro rfl
    induction calls using List.reverseRecOn with
    | nil => exact .start
    | append_singleton calls call ih =>
        obtain ⟨id, lead⟩ := call
        rw [Naming.ofCalls_concat]
        obtain ⟨name, hname⟩ := Dictionary.exists_get?_of_mem (Naming.mem_keys_assign.2 (.inl rfl))
        exact ih.call (call_ofNaming_iff.2 ⟨hname, rfl⟩)

/-- **What calls leave behind**, whatever they are.  The loop of each of them comes to an end, and they all
lead to one register, with the names of the naming that they build.  The names of these, and no others, are
taken, and no two ids have one in common.  From there, a call for a known id returns its name and changes
nothing; and a call for a new one puts it behind the others, with the first name that is free. -/
theorem names_after_calls (calls : List (String × String)) :
    ∃ r : Register, (∀ r', Reached calls r' ↔ r' = r) ∧
      r.names = calls.foldl (fun names call => names.assign call.1 call.2) .empty ∧
      (∀ base, WellFounded fun s' s => Round r.taken base s s') ∧
      (∀ name, name ∈ r.taken ↔ ∃ id, r.names.get? id = some name) ∧
      (∀ id id' name, r.names.get? id = some name → r.names.get? id' = some name → id = id') ∧
      ∀ id lead,
        (∀ name, r.names.get? id = some name → r.names.assign id lead = r.names ∧
          ∀ result r', r.Call id lead result r' ↔ result = name ∧ r' = r) ∧
        (r.names.get? id = none → ∃ k, IsFirstFree r.taken (baseName id lead) k ∧
          (r.names.assign id lead).entries = r.names.entries ++ [(id, tried (baseName id lead) k)] ∧
          ∀ result r', r.Call id lead result r' ↔ result = tried (baseName id lead) k ∧
            r' = ⟨r.names.assign id lead, insert result r.taken⟩) := by
  refine ⟨ofNaming (Naming.ofCalls calls), fun r' => reached_iff, rfl, fun base => round_wf _ base,
    fun name => mem_taken_ofNaming, fun id id' name => ?_, fun id lead => ⟨fun name h => ?_, fun h => ?_⟩⟩
  · exact Naming.eq_of_get?_of_nodup (Naming.values_nodup_ofCalls calls)
  · rw [ofNaming_names] at h
    refine ⟨Naming.assign_of_get? h, fun result r' => ?_⟩
    rw [call_ofNaming_iff, Naming.assign_of_get? h, h, Option.some_inj, eq_comm]
  · rw [ofNaming_names] at h
    obtain ⟨k, hk⟩ := exists_firstFree (Naming.ofCalls calls).values.toFinset (baseName id lead)
    refine ⟨k, hk, ?_, fun result r' => ?_⟩
    · rw [ofNaming_names, Naming.assign_of_new h hk,
        Dictionary.entries_insert _ (Dictionary.get?_eq_none_iff.1 h)]
    · rw [call_ofNaming_iff, ofNaming_names, Naming.assign_of_new h hk, ofNaming_insert h,
        Dictionary.get?_insert, if_pos rfl, Option.some_inj, eq_comm, ofNaming_taken]
      exact and_congr_right fun hresult => by rw [hresult]

/-- A counter passes over a name that another id has for its base. -/
example : (Naming.ofCalls [("x_1.js", "__ns_"), ("x.js", "__ns_"), ("dir/x.js", "__ns_")]).values
    = ["__ns_x_1", "__ns_x", "__ns_x_2"] := by
  decide +kernel

end Register

end Pagefold.Link
