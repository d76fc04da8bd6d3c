/-! # Look-ups in lists of entries

A list of pairs serves as a table in which the first pair of a key counts.  The lemmas say what
`List.lookup` finds when an entry is put in front or the entries of a key are taken out. -/

namespace Pagefold.Lookup

variable {α β : Type} [BEq α] [LawfulBEq α] [DecidableEq α]

theorem lookup_cons_ite (k k' : α) (v : β) (rest : List (α × β)) :
    ((k', v) :: rest).lookup k = if k = k' then some v else rest.lookup k := by
  by_cases h : k = k'
  · simp [h]
  · have hb : (k == k') = false := by simpa using h
    simp [List.lookup_cons, hb, h]

theorem lookup_filter_ne (key k : α) (entries : List (α × β)) :
    (entries.filter (·.1 != key)).lookup k = if k = key then none else entries.lookup k := by
  induction entries with
  | nil => simp
  | cons e rest ih =>
    obtain ⟨k', v⟩ := e
    by_cases h : k' = key
    · subst h
      simp only [List.filter_cons, bne_self_eq_false, Bool.false_eq_true, if_false, ih,
        lookup_cons_ite]
      split <;> rfl
    · have hb : (k' != key) = true := by simpa using h
      simp only [List.filter_cons, hb, if_true, lookup_cons_ite, ih]
      grind

end Pagefold.Lookup
