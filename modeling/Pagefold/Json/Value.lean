import Pagefold.Lookup

/-! # JSON values

Objects are lists of fields.  `Fields.put` keeps the keys of an object apart and, in a list that is
in key order, in order; a look-up takes the first field of a key.

`Json.merge` lays one value over another: objects field by field, all else by replacement, and
`lookup_mergeFields` says what each field becomes.  `at?` looks a value up along a path of keys. -/

namespace Pagefold

/-- A whole number, or any other one. -/
inductive Json.Number where
  | int (value : Int)
  | float (value : Float)

inductive Json where
  | null
  | bool (value : Bool)
  | number (value : Json.Number)
  | string (value : String)
  | array (items : List Json)
  | object (fields : List (String × Json))

namespace Json

open Lookup

instance : Inhabited Json := ⟨null⟩

/-- The least number that does not fit into 64 bits. -/
def wordLimit : Nat := Nat.pow 2 64

/-- The least number that does not fit into 64 bits beside a sign.  With a minus it does. -/
def signedLimit : Nat := Nat.pow 2 63

/-- A whole number. -/
def int (n : Int) : Json := number (.int n)

/-- A count. -/
def nat (n : Nat) : Json := int n

/-- A text or nothing. -/
def ofString? : Option String → Json
  | some s => string s
  | none => null

def strings (items : List String) : Json := array (items.map string)

/-! ### Fields -/

namespace Fields

/-- Puts a new key before the first greater one. -/
def place (key : String) (value : Json) : List (String × Json) → List (String × Json)
  | [] => [(key, value)]
  | (k, v) :: rest => if key < k then (key, value) :: (k, v) :: rest else (k, v) :: place key value rest

/-- Gives a key that is there a new value. -/
def replace (key : String) (value : Json) : List (String × Json) → List (String × Json)
  | [] => []
  | (k, v) :: rest => if key == k then (key, value) :: rest else (k, v) :: replace key value rest

/-- Gives a key its value. -/
def put (key : String) (value : Json) (fields : List (String × Json)) : List (String × Json) :=
  if (fields.lookup key).isSome then replace key value fields else place key value fields

end Fields

/-- The object of a list of fields; of two fields with one key the later counts. -/
def ofFields (fields : List (String × Json)) : Json :=
  object (fields.foldl (fun acc field => Fields.put field.1 field.2 acc) [])

/-- The value of a field of an object. -/
def field? (json : Json) (key : String) : Option Json :=
  match json with
  | object fields => fields.lookup key
  | _ => none

/-- The value at the end of a path of keys. -/
def at? (json : Json) : List String → Option Json
  | [] => some json
  | key :: path => (json.field? key).bind (at? · path)

/-- The value at the end of a path, where a list is entered by position. -/
def follow? : Json → List String → Option Json
  | json, [] => some json
  | object fields, key :: path => (fields.lookup key).bind (follow? · path)
  | array items, key :: path => key.toNat?.bind fun i => (items[i]?).bind (follow? · path)
  | _, _ :: _ => none

/-! ### Merging -/

mutual

/-- Lays `update` over `target`. -/
def merge (target update : Json) : Json :=
  match update with
  | object updates =>
    match target with
    | object fields => object (mergeFields fields updates)
    | _ => object updates
  | _ => update
termination_by sizeOf update

/-- Lays fields over fields.  Of two updates for a key the first counts, as in a look-up. -/
def mergeFields (fields updates : List (String × Json)) : List (String × Json) :=
  match updates with
  | [] => fields
  | (key, update) :: rest =>
    Fields.put key (merge ((fields.lookup key).getD null) update) (mergeFields fields rest)
termination_by sizeOf updates

end

/-! ### Look-ups after changes -/

theorem Fields.lookup_place {key : String} (k : String) (value : Json)
    {fields : List (String × Json)} (h : fields.lookup key = none) :
    (place key value fields).lookup k = if k = key then some value else fields.lookup k := by
  induction fields with
  | nil => simp [place, lookup_cons_ite]
  | cons field rest ih =>
    obtain ⟨k', v⟩ := field
    rw [lookup_cons_ite] at h
    unfold place
    split
    · rw [lookup_cons_ite]
    · have hk : key ≠ k' := by
        rintro rfl
        simp at h
      simp only [lookup_cons_ite, ih (by simpa [hk] using h)]
      grind

theorem Fields.lookup_replace (key k : String) (value : Json) (fields : List (String × Json)) :
    (replace key value fields).lookup k
      = if k = key then (fields.lookup key).map fun _ => value else fields.lookup k := by
  induction fields with
  | nil => simp [replace]
  | cons field rest ih =>
    obtain ⟨k', v⟩ := field
    by_cases h : key = k'
    · subst h
      simp only [replace, beq_self_eq_true, if_true, lookup_cons_ite]
      split <;> simp
    · simp only [replace, beq_iff_eq, h, if_false, lookup_cons_ite, ih]
      grind

theorem Fields.lookup_put (key k : String) (value : Json) (fields : List (String × Json)) :
    (put key value fields).lookup k = if k = key then some value else fields.lookup k := by
  unfold put
  split
  · rename_i h
    obtain ⟨v, hv⟩ := Option.isSome_iff_exists.1 h
    simp [lookup_replace, hv]
  · rename_i h
    exact lookup_place k value (Option.not_isSome_iff_eq_none.1 h)

/-- A merged field is the update's, laid over the one that was there. -/
theorem lookup_mergeFields (fields updates : List (String × Json)) (k : String) :
    (mergeFields fields updates).lookup k
      = match updates.lookup k with
        | some update => some (merge ((fields.lookup k).getD null) update)
        | none => fields.lookup k := by
  induction updates with
  | nil => simp [mergeFields]
  | cons field rest ih =>
    obtain ⟨key, update⟩ := field
    rw [mergeFields, Fields.lookup_put, lookup_cons_ite]
    by_cases h : k = key
    · subst h
      simp
    · simp [h, ih]

end Json

end Pagefold
