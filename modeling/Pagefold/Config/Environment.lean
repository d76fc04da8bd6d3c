import Pagefold.Config.Source
import Pagefold.Table
import Pagefold.Text.Blank
import Pagefold.Text.Cut
import Pagefold.Toml.Scalar

/-! # Configuration by the environment

Variables whose names begin with the lead of the program set values: two underscores in a name part
the keys of a path.  The text of a variable is read as a truth value, a number, a list, a table, or
a string in quotes; what is none of these is a plain string. -/

namespace Pagefold.Environment

/-- A value, with the paths in it at which a zero was written with a minus. -/
structure Reading where
  value : Json
  minusZeros : List (List String)

namespace Reading

/-- A value without a zero with a minus. -/
def plain (value : Json) : Reading := ⟨value, []⟩

/-- The zeros with a minus of a reading, as they are found from the start of a path to it. -/
def minusZerosUnder (path : List String) (r : Reading) : List (List String) :=
  r.minusZeros.map (path ++ ·)

/-- A reading at the end of a path. -/
def under (path : List String) (r : Reading) : Reading :=
  ⟨path.foldr (fun key json => .object [(key, json)]) r.value, r.minusZerosUnder path⟩

/-- A list of readings as one. -/
def ofItems (items : List Reading) : Reading :=
  ⟨.array (items.map (·.value)),
    items.zipIdx.flatMap fun (r, i) => r.minusZerosUnder [toString i]⟩

/-- A table of readings as one; of several for one key the last one counts. -/
def ofFields (fields : List (String × Reading)) : Reading :=
  let fields := (Table.ofList fields).entries
  ⟨.object (fields.map fun (key, r) => (key, r.value)),
    fields.flatMap fun (key, r) => r.minusZerosUnder [key]⟩

/-- Whether what stands at a path stays when a value is laid over it: the value is made of objects
along the path and ends before its last key. -/
def spares : Json → List String → Bool
  | .object fields, key :: path =>
    match fields.lookup key with
    | some value => spares value path
    | none => true
  | _, _ => false

/-- Lays a reading over another one. -/
def overlay (old new : Reading) : Reading :=
  ⟨old.value.merge new.value, old.minusZeros.filter (spares new.value) ++ new.minusZeros⟩

end Reading

/-! ### Plain values -/

def isSpace (c : Char) : Bool :=
  c == ' ' || c == '\t' || c == '\n' || c == '\x0c' || c == '\r'

def isSeparator (c : Char) : Bool :=
  c == ',' || c == '{' || c == '}' || c == '[' || c == ']'

/-- Digits around a point, of which there is at least one, perhaps with an exponent. -/
def decimal? (s : List Char) : Option Float := do
  let (negative, s) := Toml.sign s
  let whole := s.takeWhile Char.isDigit
  let s ← match s.drop whole.length with
    | '.' :: rest => some rest
    | _ => none
  let fraction := s.takeWhile Char.isDigit
  let by10 ← match s.drop fraction.length with
    | [] => some 0
    | c :: rest =>
      let (minus, rest) := Toml.sign rest
      if Toml.isExponentMark c && !rest.isEmpty && rest.all Char.isDigit then
        let n : Int := Toml.valueOf 10 rest
        some (if minus then -n else n)
      else none
  if whole.isEmpty && fraction.isEmpty then none
  else
    let x := Toml.nearest (Toml.valueOf 10 (whole ++ fraction)) (by10 - fraction.length)
    return if negative then -x else x

/-- A whole number between `-2 ^ 63` and `2 ^ 64 - 1`. -/
def whole? (s : List Char) : Option Int :=
  let (negative, digits) := Toml.sign s
  let n := Toml.valueOf 10 digits
  if digits.isEmpty || !digits.all Char.isDigit then none
  else if negative then if n ≤ Json.signedLimit then some (-(n : Int)) else none
  else if n < Json.wordLimit then some n else none

/-- A number, or else a plain string. -/
def bare (s : List Char) : Reading :=
  match (if s.contains '.' then decimal? s else none) with
  | some x => .plain (.number (.float x))
  | none =>
    match whole? s with
    | some n => ⟨.int n, if n == 0 && s.head? == some '-' then [[]] else []⟩
    | none => .plain (.string (String.ofList s))

/-- A string in double quotes, from behind the first one. -/
def quoted? : Json.Reader String := fun s => Toml.lineString? '"' true (s.length + 1) [] s

/-! ### Values -/

def isKeyChar (c : Char) : Bool := c.isAlphanum || c == '_' || c == '-'

/-- A key, with the spaces around it, and the sign behind it. -/
def key? (s : List Char) : Option (String × List Char) := do
  let s := s.dropWhile isSpace
  let (key, s) ← match s with
    | '"' :: rest => quoted? rest
    | _ =>
      let name := s.takeWhile isKeyChar
      if name.isEmpty then none else some (String.ofList name, s.drop name.length)
  match s.dropWhile isSpace with
  | '=' :: rest => return (key, rest)
  | _ => none

/-- Items up to a closing bracket, with commas between them. -/
def items? {α : Type} (item : Json.Reader α) (closing : Char) : (bound : Nat) → Json.Reader (List α)
  | 0, _ => none
  | bound + 1, s =>
    if s.head? == some closing then some ([], s.tail)
    else do
      let (first, s) ← item s
      match s with
      | c :: rest =>
        if c == closing then return ([first], rest)
        else if c == ',' then
          let (others, rest) ← items? item closing bound rest
          return (first :: others, rest)
        else none
      | [] => none

/-- A value, with the spaces around it, in which containers are nested at most `depth` deep. -/
def value? : (depth : Nat) → Json.Reader Reading
  | 0, _ => none
  | depth + 1, s => do
    let s := s.dropWhile isSpace
    let (r, rest) : Reading × List Char ← match s with
      | 't' :: 'r' :: 'u' :: 'e' :: rest => some (.plain (.bool true), rest)
      | 'f' :: 'a' :: 'l' :: 's' :: 'e' :: rest => some (.plain (.bool false), rest)
      | '{' :: rest =>
        let item : Json.Reader (String × Reading) := fun s => do
          let (key, s) ← key? s
          let (r, s) ← value? depth s
          return ((key, r), s)
        (items? item '}' (rest.length + 1) rest).map fun (fields, rest) => (.ofFields fields, rest)
      | '[' :: rest =>
        (items? (value? depth) ']' (rest.length + 1) rest).map fun (items, rest) =>
          (.ofItems items, rest)
      | '"' :: rest => (quoted? rest).map fun (text, rest) => (.plain (.string text), rest)
      | '\'' :: c :: '\'' :: rest => some (.plain (.string (String.singleton c)), rest)
      | '\'' :: _ => none
      | _ =>
        let text := s.takeWhile (!isSeparator ·)
        some (bare (Text.trim text), s.drop text.length)
    return (r, rest.dropWhile isSpace)

/-- What the text of a variable says. -/
def reading (text : String) : Reading :=
  match value? (text.length + 1) text.toList with
  | some (r, []) => r
  | _ => .plain (.string text)

/-! ### Variables -/

/-- The variables of a block in which each ends with a null character. -/
def variablesOf (block : String) : List (String × String) :=
  (block.toList.splitOn '\x00').filterMap fun s =>
    (Text.until? (· == '=') s).map fun (name, value) => (String.ofList name, String.ofList value)

/-- Whether a name begins with the lead of the program, in any case. -/
def dropLead? (name : List Char) : Option (List Char) :=
  let lead := Source.variableLead.toList
  if (name.take lead.length).map Char.toUpper == lead then some (name.drop lead.length) else none

/-- A dot in the place of each pair of underscores. -/
def dotted : List Char → List Char
  | '_' :: '_' :: rest => '.' :: dotted rest
  | c :: rest => c :: dotted rest
  | [] => []

/-- The path of keys that a variable names. -/
def path? (name : String) : Option (List String) := do
  let rest ← dropLead? (Text.trim name.toList)
  let keys := (Text.trim ((dotted rest).map Char.toLower)).splitOn '.'
  if keys.any (·.isEmpty) then none else some (keys.map String.ofList)

/-- Lays what a variable says over what the variables before it said. -/
def addVariable (r : Reading) (v : String × String) : Reading :=
  match path? v.1 with
  | none => r
  | some path => r.overlay ((reading v.2).under path)

/-- What the variables say together. -/
def ofVariables (env : List (String × String)) : Reading :=
  env.foldl addVariable ⟨.object [], []⟩

end Pagefold.Environment
