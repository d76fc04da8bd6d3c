import Pagefold.Json.Printer
import Pagefold.Json.Reader

/-! # Values that are read twice

A value that is written out and read again stays what it is but for its fractional numbers: reading
one is not exact, so its text need not read back as the same number (`Json.reread`). -/

namespace Pagefold.Json

/-- A number as it reads from its own text. -/
def Number.reread : Number → Number
  | .int n => .int n
  | .float x =>
    match number? (dataText x).toList with
    | some (n, []) => n
    | _ => .float x

mutual

/-- A value as it reads from its own text. -/
def reread : Json → Json
  | null => null
  | bool b => bool b
  | number n => number n.reread
  | string s => string s
  | array items => array (rereadItems items)
  | object fields => object (rereadFields fields)

def rereadItems : List Json → List Json
  | [] => []
  | item :: rest => item.reread :: rereadItems rest

def rereadFields : List (String × Json) → List (String × Json)
  | [] => []
  | (key, value) :: rest => (key, value.reread) :: rereadFields rest

end

/-- Reading a value twice does not touch the keys of an object. -/
theorem lookup_rereadFields (key : String) (fields : List (String × Json)) :
    (rereadFields fields).lookup key = (fields.lookup key).map reread := by
  induction fields with
  | nil => rfl
  | cons field rest ih =>
    obtain ⟨k, v⟩ := field
    simp only [rereadFields, List.lookup_cons, ih]
    split <;> rfl

end Pagefold.Json
