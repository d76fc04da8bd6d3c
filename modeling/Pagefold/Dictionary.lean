import Pagefold.Lookup

/-! # Dictionaries

Tables from texts to values whose keys are distinct and keep the order in which they were first
put in.  A later value for a key takes the place of the earlier one.  `get?_insert` says what each
insertion does to every look-up. -/

namespace Pagefold

structure Dictionary (α : Type) where
  entries : List (String × α)
  nodup : (entries.map (·.1)).Nodup

namespace Dictionary

open Lookup

variable {α β : Type}

def empty : Dictionary α := ⟨[], List.nodup_nil⟩

instance : Inhabited (Dictionary α) := ⟨empty⟩

/-- The keys, in the order of insertion. -/
def keys (d : Dictionary α) : List String := d.entries.map (·.1)

def values (d : Dictionary α) : List α := d.entries.map (·.2)

def size (d : Dictionary α) : Nat := d.entries.length

def isEmpty (d : Dictionary α) : Bool := d.entries.isEmpty

def get? (d : Dictionary α) (key : String) : Option α := d.entries.lookup key

def contains (d : Dictionary α) (key : String) : Bool := d.keys.contains key

/-- `entries` with `value` in the place of the value of `key`, or at the end. -/
def put (key : String) (value : α) : List (String × α) → List (String × α)
  | [] => [(key, value)]
  | (k, v) :: rest => if key == k then (key, value) :: rest else (k, v) :: put key value rest

theorem mem_keys_put {key k : String} {value : α} {entries : List (String × α)} :
    k ∈ (put key value entries).map (·.1) ↔ k = key ∨ k ∈ entries.map (·.1) := by
  induction entries with
  | nil => simp [put]
  | cons e rest ih =>
    obtain ⟨k', v⟩ := e
    by_cases h : key = k'
    · subst h
      simp [put]
    · simp only [put, beq_iff_eq, h, if_false, List.map_cons, List.mem_cons, ih]
      grind

theorem nodup_put {key : String} {value : α} {entries : List (String × α)}
    (h : (entries.map (·.1)).Nodup) : ((put key value entries).map (·.1)).Nodup := by
  induction entries with
  | nil => simp [put]
  | cons e rest ih =>
    obtain ⟨k, v⟩ := e
    simp only [List.map_cons, List.nodup_cons] at h
    by_cases hk : key = k
    · subst hk
      simpa [put] using h
    · simp only [put, beq_iff_eq, hk, if_false, List.map_cons, List.nodup_cons]
      refine ⟨?_, ih h.2⟩
      rw [mem_keys_put]
      rintro (rfl | hm)
      · exact hk rfl
      · exact h.1 hm

/-- Puts a value in, in the place of the key's earlier value or at the end. -/
def insert (d : Dictionary α) (key : String) (value : α) : Dictionary α :=
  ⟨put key value d.entries, nodup_put d.nodup⟩

/-- Takes a key out. -/
def erase (d : Dictionary α) (key : String) : Dictionary α :=
  ⟨d.entries.filter (·.1 != key), d.nodup.sublist (List.filter_sublist.map _)⟩

/-- The dictionary that a list of entries builds when they are put in one after the other. -/
def ofList (entries : List (String × α)) : Dictionary α :=
  entries.foldl (fun d e => d.insert e.1 e.2) empty

/-- Changes every value, knowing its key. -/
def mapValues (f : String → α → β) (d : Dictionary α) : Dictionary β :=
  ⟨d.entries.map fun e => (e.1, f e.1 e.2), by simpa [Function.comp_def] using d.nodup⟩

/-! ### Look-ups -/

@[simp] theorem get?_empty (key : String) : (empty : Dictionary α).get? key = none := rfl

theorem lookup_put (key k : String) (value : α) (entries : List (String × α)) :
    (put key value entries).lookup k = if k = key then some value else entries.lookup k := by
  induction entries with
  | nil => simp [put, lookup_cons_ite]
  | cons e rest ih =>
    obtain ⟨k', v⟩ := e
    by_cases hk : key = k'
    · subst hk
      simp only [put, beq_self_eq_true, if_true, lookup_cons_ite]
      split <;> rfl
    · simp only [put, beq_iff_eq, hk, if_false, lookup_cons_ite, ih]
      by_cases h' : k = k'
      · subst h'
        simp [Ne.symm hk]
      · simp [h']

/-- An insertion changes the look-up of its own key only. -/
theorem get?_insert (d : Dictionary α) (key k : String) (value : α) :
    (d.insert key value).get? k = if k = key then some value else d.get? k :=
  lookup_put key k value d.entries

theorem mem_keys_insert {d : Dictionary α} {key k : String} {value : α} :
    k ∈ (d.insert key value).keys ↔ k = key ∨ k ∈ d.keys :=
  mem_keys_put

@[simp] theorem contains_iff {d : Dictionary α} {key : String} :
    d.contains key = true ↔ key ∈ d.keys := by
  simp [contains]

theorem lookup_isSome_iff {key : String} {entries : List (String × α)} :
    (entries.lookup key).isSome = true ↔ key ∈ entries.map (·.1) := by
  induction entries with
  | nil => simp
  | cons e rest ih =>
    obtain ⟨k, v⟩ := e
    rw [lookup_cons_ite, List.map_cons, List.mem_cons]
    by_cases h : key = k
    · simp [h]
    · simp [h, ih]

/-- A look-up succeeds exactly on the keys. -/
theorem isSome_get?_iff {d : Dictionary α} {key : String} :
    (d.get? key).isSome = true ↔ key ∈ d.keys :=
  lookup_isSome_iff

theorem mem_of_get? {d : Dictionary α} {key : String} (h : d.get? key ≠ none) : key ∈ d.keys :=
  isSome_get?_iff.1 (Option.isSome_iff_ne_none.2 h)

theorem keys_nodup (d : Dictionary α) : d.keys.Nodup := d.nodup

end Dictionary

end Pagefold
