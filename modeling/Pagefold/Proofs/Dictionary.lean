import Mathlib.Data.List.Nodup
import Pagefold.Dictionary

/-! # Dictionaries and their entries

The keys of a dictionary are distinct, so a look-up and membership among the entries say the same
(`get?_eq_some_iff`).  A new key goes to the end (`entries_insert`); a list with distinct keys is
therefore the list of entries of the dictionary that it builds (`entries_ofList`). -/

namespace Pagefold.Dictionary

variable {α β : Type}

theorem lookup_eq_some_iff_mem {κ : Type} [BEq κ] [LawfulBEq κ] [DecidableEq κ] {entries : List (κ × α)}
    (h : (entries.map (·.1)).Nodup) {key : κ} {value : α} :
    entries.lookup key = some value ↔ (key, value) ∈ entries := by
  induction entries with
  | nil => simp
  | cons e rest ih =>
      obtain ⟨k, v⟩ := e
      rw [List.map_cons, List.nodup_cons] at h
      rw [Lookup.lookup_cons_ite, List.mem_cons, Prod.mk.injEq]
      by_cases hk : key = k
      · subst hk
        have hrest : (key, value) ∉ rest := fun hm => h.1 (List.mem_map.2 ⟨(key, value), hm, rfl⟩)
        simp [hrest, eq_comm]
      · simp [hk, ih h.2]

theorem get?_eq_some_iff {d : Dictionary α} {key : String} {value : α} :
    d.get? key = some value ↔ (key, value) ∈ d.entries :=
  lookup_eq_some_iff_mem d.nodup

theorem mem_keys_of_get? {d : Dictionary α} {key : String} {value : α}
    (h : d.get? key = some value) : key ∈ d.keys :=
  mem_of_get? (by rw [h]; exact Option.some_ne_none value)

theorem exists_get?_of_mem {d : Dictionary α} {key : String} (h : key ∈ d.keys) :
    ∃ value, d.get? key = some value :=
  Option.isSome_iff_exists.1 (isSome_get?_iff.2 h)

theorem get?_eq_none_iff {d : Dictionary α} {key : String} : d.get? key = none ↔ key ∉ d.keys := by
  rw [← isSome_get?_iff, Bool.not_eq_true, Option.isSome_eq_false_iff, Option.isNone_iff_eq_none]

theorem get?_of_mem_entries {d : Dictionary α} {e : String × α} (h : e ∈ d.entries) :
    d.get? e.1 = some e.2 :=
  get?_eq_some_iff.2 h

/-! ### Building -/

@[simp] theorem keys_empty : (empty : Dictionary α).keys = [] := rfl

theorem put_of_not_mem {key : String} {value : α} {entries : List (String × α)}
    (h : key ∉ entries.map (·.1)) : put key value entries = entries ++ [(key, value)] := by
  induction entries with
  | nil => rfl
  | cons e rest ih =>
      obtain ⟨k, v⟩ := e
      rw [List.map_cons, List.mem_cons, not_or] at h
      have hk : (key == k) = false := beq_eq_false_iff_ne.2 h.1
      rw [put, hk, if_neg Bool.false_ne_true, ih h.2, List.cons_append]

/-- A new key goes to the end. -/
theorem entries_insert {d : Dictionary α} {key : String} (value : α) (h : key ∉ d.keys) :
    (d.insert key value).entries = d.entries ++ [(key, value)] :=
  put_of_not_mem h

theorem keys_insert {d : Dictionary α} {key : String} (value : α) (h : key ∉ d.keys) :
    (d.insert key value).keys = d.keys ++ [key] := by
  rw [keys, entries_insert value h, List.map_append]
  rfl

theorem entries_foldl_insert {l : List (String × α)} {d : Dictionary α}
    (h : (d.keys ++ l.map (·.1)).Nodup) :
    (l.foldl (fun d e => d.insert e.1 e.2) d).entries = d.entries ++ l := by
  induction l generalizing d with
  | nil => simp
  | cons e l ih =>
      have hnew : e.1 ∉ d.keys := fun hm =>
        (List.nodup_append.1 h).2.2 e.1 hm e.1 (by simp) rfl
      have hrest : ((d.insert e.1 e.2).keys ++ l.map (·.1)).Nodup := by
        rw [keys_insert e.2 hnew]
        simpa using h
      rw [List.foldl_cons, ih hrest, entries_insert e.2 hnew]
      simp

/-- A list with distinct keys lists the entries of the dictionary that it builds. -/
theorem entries_ofList {l : List (String × α)} (h : (l.map (·.1)).Nodup) :
    (ofList l).entries = l := by
  have := entries_foldl_insert (d := (empty : Dictionary α)) (l := l) (by simpa using h)
  simpa [ofList, empty] using this

theorem get?_ofList {l : List (String × α)} (h : (l.map (·.1)).Nodup) {key : String} {value : α} :
    (ofList l).get? key = some value ↔ (key, value) ∈ l := by
  rw [get?_eq_some_iff, entries_ofList h]

/-- What a list builds comes from the list. -/
theorem mem_of_get?_ofList {l : List (String × α)} {key : String} {value : α}
    (h : (ofList l).get? key = some value) : (key, value) ∈ l := by
  have hfold : ∀ d : Dictionary α, (l.foldl (fun d e => d.insert e.1 e.2) d).get? key = some value →
      (key, value) ∈ l ∨ d.get? key = some value := by
    clear h
    induction l with
    | nil => exact fun d h => .inr h
    | cons e l ih =>
        intro d h
        rcases ih _ h with hm | hd
        · exact .inl (List.mem_cons_of_mem _ hm)
        · rw [get?_insert] at hd
          split at hd
          · rename_i hkey
            cases hd
            exact .inl (hkey ▸ List.mem_cons_self)
          · exact .inr hd
  exact (hfold empty h).resolve_right (by simp)

/-! ### Changing every value -/

theorem get?_mapValues (f : String → α → β) (d : Dictionary α) (key : String) :
    (d.mapValues f).get? key = (d.get? key).map (f key) := by
  obtain ⟨entries, hn⟩ := d
  simp only [get?, mapValues]
  clear hn
  induction entries with
  | nil => rfl
  | cons e rest ih =>
      obtain ⟨k, v⟩ := e
      rw [List.map_cons, Lookup.lookup_cons_ite, Lookup.lookup_cons_ite, ih]
      by_cases hk : key = k
      · subst hk
        simp
      · simp [hk]

theorem mem_values_of_get? {d : Dictionary α} {key : String} {value : α}
    (h : d.get? key = some value) : value ∈ d.values :=
  List.mem_map.2 ⟨(key, value), get?_eq_some_iff.1 h, rfl⟩

end Pagefold.Dictionary
