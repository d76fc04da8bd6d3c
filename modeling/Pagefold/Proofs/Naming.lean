import Mathlib.Data.List.Perm.Subperm
import Std.Data.String.ToNat
import Pagefold.Link.Naming
import Pagefold.Proofs.Dictionary

/-! # Names are distinct

A free name is looked for among one more candidates than names are taken, and the candidates are
distinct (`candidates_nodup`), so one of them is free (`freeName_not_mem`).  A naming therefore gives
each id a name (`mem_keys_ofList`) and no two ids the same (`eq_of_get?_ofList`). -/

namespace Pagefold.Link

/-! ### Free names -/

/-- The names tried for a base when `n` names are taken. -/
def candidates (base : String) (n : Nat) : List String :=
  base :: (List.range n).map fun k => s!"{base}_{k + 1}"

theorem numbered_injective {base : String} {k j : Nat} (h : s!"{base}_{k}" = s!"{base}_{j}") :
    k = j := by
  have h : base ++ "_" ++ Nat.repr k = base ++ "_" ++ Nat.repr j := h
  exact Nat.repr_injective ((String.append_right_inj _).1 h)

theorem numbered_ne {base : String} {k : Nat} : s!"{base}_{k}" ≠ base := by
  intro h
  have h : base ++ "_" ++ Nat.repr k = base := h
  have hlen := congrArg String.length h
  have h1 : String.length "_" = 1 := rfl
  rw [String.length_append, String.length_append, h1] at hlen
  omega

theorem candidates_nodup (base : String) (n : Nat) : (candidates base n).Nodup := by
  rw [candidates, List.nodup_cons]
  constructor
  · intro h
    obtain ⟨k, _, hk⟩ := List.mem_map.1 h
    exact numbered_ne hk
  · refine List.Nodup.map (fun k j h => ?_) List.nodup_range
    have := numbered_injective h
    omega

theorem length_candidates (base : String) (n : Nat) : (candidates base n).length = n + 1 := by
  simp [candidates]

theorem exists_free (taken : List String) (base : String) :
    ∃ name ∈ candidates base taken.length, name ∉ taken := by
  by_contra h
  have hsub : candidates base taken.length ⊆ taken := by
    intro name hn
    by_contra ht
    exact h ⟨name, hn, ht⟩
  have hle := (List.subperm_of_subset (candidates_nodup base taken.length) hsub).length_le
  rw [length_candidates] at hle
  omega

theorem freeName_not_mem (taken : List String) (base : String) : freeName taken base ∉ taken := by
  obtain ⟨name, hn, ht⟩ := exists_free taken base
  have hsome : ((candidates base taken.length).find? (!taken.contains ·)).isSome = true := by
    rw [List.find?_isSome]
    exact ⟨name, hn, by simpa using ht⟩
  obtain ⟨found, hf⟩ := Option.isSome_iff_exists.1 hsome
  have hfree : freeName taken base = found := by
    show ((candidates base taken.length).find? (!taken.contains ·)).getD base = found
    rw [hf, Option.getD_some]
  rw [hfree]
  simpa using List.find?_some hf

/-! ### Namings -/

namespace Naming

variable {names : Naming} {ids : List String} {id lead : String}

theorem mem_keys_assign {x : String} :
    x ∈ (names.assign id lead).keys ↔ x = id ∨ x ∈ names.keys := by
  unfold assign
  split
  · rename_i h
    constructor
    · exact .inr
    · rintro (rfl | h')
      · exact Dictionary.contains_iff.1 h
      · exact h'
  · exact Dictionary.mem_keys_insert

theorem values_nodup_assign (h : names.values.Nodup) : (names.assign id lead).values.Nodup := by
  unfold assign
  split
  · exact h
  · rename_i hid
    have hnew : id ∉ names.keys := fun hm => hid (Dictionary.contains_iff.2 hm)
    rw [Dictionary.values, Dictionary.entries_insert _ hnew, List.map_append, List.nodup_append]
    refine ⟨h, List.nodup_singleton _, ?_⟩
    intro a ha b hb hab
    subst hab
    rw [List.mem_singleton.1 hb] at ha
    exact freeName_not_mem names.values (baseName id lead) ha

theorem mem_keys_foldl {x : String} :
    x ∈ (ids.foldl (fun names id => names.assign id lead) names).keys ↔ x ∈ ids ∨ x ∈ names.keys := by
  induction ids generalizing names with
  | nil => simp
  | cons a ids ih =>
      rw [List.foldl_cons, ih, mem_keys_assign, List.mem_cons]
      tauto

theorem keys_foldl (h : (names.keys ++ ids).Nodup) :
    (ids.foldl (fun names id => names.assign id lead) names).keys = names.keys ++ ids := by
  induction ids generalizing names with
  | nil => simp
  | cons a ids ih =>
      have hnew : a ∉ names.keys := fun hm => (List.nodup_append.1 h).2.2 a hm a (by simp) rfl
      have hkeys : (names.assign a lead).keys = names.keys ++ [a] := by
        rw [assign, if_neg fun hc => hnew (Dictionary.contains_iff.1 hc)]
        exact Dictionary.keys_insert _ hnew
      rw [List.foldl_cons, ih (by rw [hkeys]; simpa using h), hkeys, List.append_assoc,
        List.singleton_append]

/-- Distinct ids keep their order. -/
theorem keys_ofList (h : ids.Nodup) : (ofList ids lead).keys = ids :=
  @keys_foldl .empty ids lead (by simpa using h)

/-- Each id has a name, and nothing else. -/
theorem mem_keys_ofList {x : String} : x ∈ (ofList ids lead).keys ↔ x ∈ ids := by
  rw [ofList, mem_keys_foldl]
  simp

theorem values_nodup_foldl (h : names.values.Nodup) :
    (ids.foldl (fun names id => names.assign id lead) names).values.Nodup := by
  induction ids generalizing names with
  | nil => exact h
  | cons a ids ih => exact ih (values_nodup_assign h)

theorem values_nodup_ofList : (ofList ids lead).values.Nodup :=
  values_nodup_foldl (by simp [Dictionary.values, Dictionary.empty])

/-- Where names are distinct, ids of the same name are the same. -/
theorem eq_of_get?_of_nodup {a b name : String} (h : names.values.Nodup) (ha : names.get? a = some name)
    (hb : names.get? b = some name) : a = b := by
  have hinj := List.inj_on_of_nodup_map h
  have := hinj (Dictionary.get?_eq_some_iff.1 ha) (Dictionary.get?_eq_some_iff.1 hb) rfl
  exact congrArg Prod.fst this

/-- **Names are distinct**: ids of the same name are the same. -/
theorem eq_of_get?_ofList {a b name : String} (ha : (ofList ids lead).get? a = some name)
    (hb : (ofList ids lead).get? b = some name) : a = b :=
  eq_of_get?_of_nodup values_nodup_ofList ha hb

end Naming

end Pagefold.Link
