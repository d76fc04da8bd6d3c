import Pagefold.Decimal.Shortest
import Pagefold.Json.Value
import Pagefold.Text.Quoted

/-! # Reading values of a known type

A decoder takes a JSON value to a value of some type, or says where the JSON value does not fit and
why (`DecodeError`).  A record is read by its fields (`decodeRecord`): each field that is given
changes a record that begins with its defaults. -/

namespace Pagefold.Json

/-- Why a value does not fit. -/
inductive Misfit where
  | wrongKind (found : Json) (expected : String)
  | wrongValue (found : Json) (expected : String)
  | unknownName (name : String) (known : List String)
  | missing (field : String)
  | wrongLength (length : Nat) (expected : String)

/-- A misfit, and the keys and positions that lead to it. -/
structure DecodeError where
  path : List String
  misfit : Misfit

abbrev Decoder (α : Type) := Json → Except DecodeError α

/-! ### Wording -/

/-- What a value is, said to a reader. -/
def account : Json → String
  | null => "null"
  | bool b => s!"boolean `{b}`"
  | number (.int n) => s!"integer `{n}`"
  | number (.float x) => "floating point `" ++ dataText x ++ "`"
  | string s => "string " ++ Text.quoted s
  | array _ => "sequence"
  | object _ => "map"

/-- The names among which one is expected. -/
def choice : List String → String
  | [a, b] => s!"`{a}` or `{b}`"
  | [a] => s!"`{a}`"
  | names => "one of " ++ ", ".intercalate (names.map fun name => s!"`{name}`")

def Misfit.message : Misfit → String
  | wrongKind found expected => s!"invalid type: {found.account}, expected {expected}"
  | wrongValue found expected => s!"invalid value: {found.account}, expected {expected}"
  | unknownName name known => s!"unknown variant `{name}`, expected {choice known}"
  | missing field => s!"missing field `{field}`"
  | wrongLength length expected => s!"invalid length {length}, expected {expected}"

def DecodeError.message (e : DecodeError) : String := e.misfit.message

/-! ### Decoders -/

def fail {α : Type} (misfit : Misfit) : Except DecodeError α := .error ⟨[], misfit⟩

/-- Places what goes wrong below a key. -/
def under {α : Type} (key : String) : Except DecodeError α → Except DecodeError α
  | .ok a => .ok a
  | .error e => .error { e with path := key :: e.path }

def decodeBool : Decoder Bool
  | bool b => .ok b
  | json => fail (.wrongKind json "a boolean")

def decodeString : Decoder String
  | string s => .ok s
  | json => fail (.wrongKind json "a string")

/-- A count below `2 ^ 64`. -/
def decodeCount : Decoder Nat
  | number (.int n) =>
    if 0 ≤ n && n < wordLimit then .ok n.toNat else fail (.wrongValue (int n) "usize")
  | json => fail (.wrongKind json "usize")

mutual

/-- A value in which null stands for every number that is not finite. -/
def finite : Json → Json
  | number (.float x) => if x.isNaN || x.isInf then null else number (.float x)
  | array items => array (finiteItems items)
  | object fields => object (finiteFields fields)
  | json => json

def finiteItems : List Json → List Json
  | [] => []
  | item :: rest => item.finite :: finiteItems rest

def finiteFields : List (String × Json) → List (String × Json)
  | [] => []
  | (key, value) :: rest => (key, value.finite) :: finiteFields rest

end

/-- Any value. -/
def decodeAny : Decoder Json := fun json => .ok json.finite

/-- Null stands for nothing. -/
def decodeOption {α : Type} (item : Decoder α) : Decoder (Option α)
  | null => .ok none
  | json => (item json).map some

/-- Reads the items of a list of which the first one has a position. -/
def decodeItems {α : Type} (item : Decoder α) (position : Nat) :
    List Json → Except DecodeError (List α)
  | [] => .ok []
  | json :: rest => do
    let first ← under (toString position) (item json)
    let others ← decodeItems item (position + 1) rest
    return first :: others

def decodeList {α : Type} (item : Decoder α) : Decoder (List α)
  | array items => decodeItems item 0 items
  | json => fail (.wrongKind json "a sequence")

/-- Reads the value of every field. -/
def decodeEntries {α : Type} (value : Decoder α) :
    List (String × Json) → Except DecodeError (List (String × α))
  | [] => .ok []
  | (key, json) :: rest => do
    let first ← under key (value json)
    let others ← decodeEntries value rest
    return (key, first) :: others

/-- An object with any keys. -/
def decodeTable {α : Type} (value : Decoder α) : Decoder (List (String × α))
  | object fields => decodeEntries value fields
  | json => fail (.wrongKind json "a map")

/-- One of several things by its name.  The name may also be the only key of an object that holds
nothing. -/
def decodeName {α : Type} (name : α → String) (all : List α) : Decoder α
  | string s => named s null
  | object [(key, value)] => named key value
  | object fields => fail (.wrongValue (object fields) "map with a single key")
  | json => fail (.wrongKind json "string or map")
where
  /-- The thing of a name, and nothing else with it. -/
  named (s : String) : Json → Except DecodeError α
    | null =>
      match all.find? (name · == s) with
      | some a => .ok a
      | none => fail (.unknownName s (all.map name))
    | json =>
      match all.find? (name · == s) with
      | some _ => fail (.wrongKind json "unit")
      | none => fail (.unknownName s (all.map name))

/-! ### Records -/

/-- A field of a record, and how its value changes the record. -/
structure RecordField (ρ : Type) where
  name : String
  update : Json → ρ → Except DecodeError ρ

/-- The field whose value `item` reads and `set` puts in. -/
def RecordField.of {α ρ : Type} (name : String) (item : Decoder α) (set : α → ρ → ρ) :
    RecordField ρ :=
  ⟨name, fun json r => (item json).map (set · r)⟩

/-- Takes in a field by its name.  A name that the record does not have says nothing. -/
def decodeField {ρ : Type} (fields : List (RecordField ρ)) (key : String) (json : Json) (r : ρ) :
    Except DecodeError ρ :=
  match fields.find? (·.name == key) with
  | some field => under key (field.update json r)
  | none => .ok r

/-- Takes in given fields one after the other. -/
def decodeFields {ρ : Type} (fields : List (RecordField ρ)) :
    List (String × Json) → ρ → Except DecodeError ρ
  | [], r => .ok r
  | (key, json) :: rest, r => (decodeField fields key json r).bind (decodeFields fields rest)

/-- Takes in fields by their positions. -/
def decodeColumns {ρ : Type} (position : Nat) : List (RecordField ρ) → List Json → ρ →
    Except DecodeError ρ
  | field :: fields, json :: rest, r =>
    (under (toString position) (field.update json r)).bind (decodeColumns (position + 1) fields rest)
  | _, _, r => .ok r

/-- A record out of an object, or out of a list of its first fields in order.  An `exact` reader
refuses a list that is longer than the record. -/
def decodeRecord {ρ : Type} (exact : Bool) (expected : String) (fields : List (RecordField ρ))
    (default : ρ) : Decoder ρ
  | object given => decodeFields fields given default
  | array items => do
    let r ← decodeColumns 0 fields items default
    if exact && fields.length < items.length then
      fail (.wrongLength items.length "fewer elements in array")
    return r
  | json => fail (.wrongKind json expected)

end Pagefold.Json
