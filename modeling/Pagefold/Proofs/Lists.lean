import Mathlib.Data.List.Infix
import Mathlib.Data.List.Nodup

/-! # Lists without repeats

What is left of a list when each element is dropped after its first place has no repeats.  Two
elements that stand in a list in a given order (`[a, b] <+ l`) cut it into three parts; when
nothing is repeated, the first one stands before the place of the second one
(`mem_front_of_pair_sublist`), and the order is strict (`not_pair_sublist_swap`,
`pair_sublist_trans`).  The lemmas at the end are about filtering maps. -/

namespace Pagefold.Lists

variable {α β γ : Type}

theorem nodup_eraseDups [BEq α] [LawfulBEq α] : ∀ l : List α, l.eraseDups.Nodup
  | [] => by simp
  | a :: l => by
      rw [List.eraseDups_cons, List.nodup_cons]
      refine ⟨fun h => ?_, nodup_eraseDups (l.filter fun b => !b == a)⟩
      have := (List.mem_filter.1 (List.mem_eraseDups.1 h)).2
      simp at this
termination_by l => l.length
decreasing_by
  have := List.length_filter_le (fun b => !b == a) l
  simp only [List.length_cons]
  omega

/-- Two elements in their order cut a list into three parts. -/
theorem split_of_pair_sublist {a b : α} {l : List α} (h : [a, b].Sublist l) :
    ∃ front between back, l = front ++ a :: between ++ b :: back := by
  obtain ⟨l₁, l₂, rfl, ha, hb⟩ := List.cons_sublist_iff.1 h
  obtain ⟨front, rest, rfl⟩ := List.append_of_mem ha
  obtain ⟨between, back, rfl⟩ := List.append_of_mem (List.singleton_sublist.1 hb)
  exact ⟨front, rest ++ between, back, by simp⟩

theorem mem_front_of_pair_sublist {a b : α} {front back : List α}
    (hnodup : (front ++ b :: back).Nodup) (h : [a, b].Sublist (front ++ b :: back)) : a ∈ front := by
  obtain ⟨l₁, l₂, hsplit, ha, hb⟩ := List.cons_sublist_iff.1 h
  rcases List.append_eq_append_iff.1 hsplit with ⟨as, rfl, hback⟩ | ⟨bs, rfl, _⟩
  · cases as with
    | nil => simpa using ha
    | cons c as =>
        -- Then `b` would stand behind itself.
        rw [List.cons_append, List.cons.injEq] at hback
        have hmem : b ∈ back := by
          rw [hback.2]
          exact List.mem_append_right _ (List.singleton_sublist.1 hb)
        exact absurd hmem (List.nodup_cons.1 (List.nodup_append.1 hnodup).2.1).1
  · exact List.mem_append_left _ ha

/-- Two elements of a list without repeats have one order. -/
theorem not_pair_sublist_swap {a b : α} {l : List α} (hnodup : l.Nodup) (h : [a, b].Sublist l) :
    ¬ [b, a].Sublist l := by
  intro h'
  obtain ⟨front, between, back, rfl⟩ := split_of_pair_sublist h
  rw [List.append_assoc, List.cons_append] at hnodup h'
  have hb : b ∈ front := mem_front_of_pair_sublist hnodup h'
  have hmem : b ∈ a :: (between ++ b :: back) := by simp
  exact (List.nodup_append.1 hnodup).2.2 b hb b hmem rfl

theorem pair_sublist_trans {a b c : α} {l : List α} (hnodup : l.Nodup) (hab : [a, b].Sublist l)
    (hbc : [b, c].Sublist l) : [a, c].Sublist l := by
  obtain ⟨front, between, back, rfl⟩ := split_of_pair_sublist hbc
  rw [List.append_assoc, List.cons_append] at hnodup hab ⊢
  have ha : a ∈ front := mem_front_of_pair_sublist hnodup hab
  have hc : c ∈ b :: (between ++ c :: back) := by simp
  exact (List.singleton_sublist.2 ha).append (List.singleton_sublist.2 hc)

/-- An end of two lists is an end of the second one, or the second one with an end of the first one. -/
theorem suffix_append_cases {y a b : List α} (h : y <:+ a ++ b) :
    y <:+ b ∨ ∃ z, z <:+ a ∧ z ≠ [] ∧ y = z ++ b := by
  rcases List.suffix_or_suffix_of_suffix h (List.suffix_append a b) with hb | ⟨z, rfl⟩
  · exact .inl hb
  · by_cases hz : z = []
    · exact .inl (by simp [hz])
    · exact .inr ⟨z, List.suffix_append_self_iff.1 h, hz, rfl⟩

/-- What is in front of an end of a list, and the end, make up the list. -/
theorem take_append_of_suffix {rest l : List α} (h : rest <:+ l) :
    l.take (l.length - rest.length) ++ rest = l := by
  have hrest := List.suffix_iff_eq_drop.1 h
  calc l.take (l.length - rest.length) ++ rest
      = l.take (l.length - rest.length) ++ l.drop (l.length - rest.length) := by rw [← hrest]
    _ = l := List.take_append_drop _ _

/-- What is in front of an end of a list. -/
theorem take_length_sub (front rest : List α) :
    (front ++ rest).take ((front ++ rest).length - rest.length) = front :=
  List.append_cancel_right (take_append_of_suffix (List.suffix_append front rest))

/-- Two filtering maps that never keep the same element keep together what they keep in turn. -/
theorem filterMap_append_perm {f g : α → Option β} {l : List α}
    (h : ∀ x ∈ l, (f x).isSome = true → g x = none) :
    (l.filterMap f ++ l.filterMap g).Perm (l.filterMap fun x => (f x).or (g x)) := by
  induction l with
  | nil => exact .nil
  | cons x l ih =>
      have hrest := ih fun y hy => h y (List.mem_cons_of_mem x hy)
      simp only [List.filterMap_cons]
      cases hf : f x with
      | some y =>
          rw [h x List.mem_cons_self (by rw [hf, Option.isSome_some])]
          exact hrest.cons y
      | none =>
          cases hg : g x with
          | none => exact hrest
          | some y => exact List.perm_middle.trans (hrest.cons y)

/-- Keys that a filtering map keeps stay in their order. -/
theorem map_filterMap_sublist {f : α → Option β} {g : α → γ} {key : β → γ}
    (h : ∀ x y, f x = some y → key y = g x) (l : List α) :
    ((l.filterMap f).map key).Sublist (l.map g) := by
  induction l with
  | nil => exact .slnil
  | cons x l ih =>
      rw [List.filterMap_cons, List.map_cons]
      cases hx : f x with
      | none => exact ih.cons _
      | some y =>
          rw [← h x y hx]
          exact ih.cons_cons _

end Pagefold.Lists
