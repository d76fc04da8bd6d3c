import Pagefold.Json.Value

/-! # Reading JSON

`Json.parse?` reads one value and nothing behind it.  Containers may be nested 127 deep.  Whole
numbers between `-2 ^ 63` and `2 ^ 64 - 1` are kept as such; every other number is read as a
floating point number, as the nearest one to its leading digits times or over a power of ten. -/

namespace Pagefold.Json

/-- Reads something off the front of a text. -/
abbrev Reader (α : Type) := List Char → Option (α × List Char)

def isSpace (c : Char) : Bool := c == ' ' || c == '\n' || c == '\r' || c == '\t'

def skipSpaces (s : List Char) : List Char := s.dropWhile isSpace

/-! ### Strings -/

def hexValue? (c : Char) : Option Nat :=
  if c.isDigit then some (c.toNat - 48)
  else if 'a' ≤ c && c ≤ 'f' then some (c.toNat - 87)
  else if 'A' ≤ c && c ≤ 'F' then some (c.toNat - 55)
  else none

/-- Four hexadecimal digits. -/
def hexUnit? : Reader Nat
  | a :: b :: c :: d :: rest => do
    return (((← hexValue? a) * 16 + (← hexValue? b)) * 256 + (← hexValue? c) * 16 + (← hexValue? d),
      rest)
  | _ => none

/-- A character by its number; surrogates come in pairs, the high one first. -/
def unicodeEscape? : Reader Char := fun s => do
  let (high, rest) ← hexUnit? s
  if 0xD800 ≤ high && high < 0xDC00 then
    match rest with
    | '\\' :: 'u' :: rest =>
      let (low, rest) ← hexUnit? rest
      if 0xDC00 ≤ low && low < 0xE000 then
        return (Char.ofNat (0x10000 + (high - 0xD800) * 0x400 + (low - 0xDC00)), rest)
      else none
    | _ => none
  else if 0xDC00 ≤ high && high < 0xE000 then none
  else return (Char.ofNat high, rest)

/-- What a backslash stands for together with what follows it. -/
def escaped? : Reader Char
  | 'u' :: rest => unicodeEscape? rest
  | c :: rest =>
    match c with
    | '"' | '\\' | '/' => some (c, rest)
    | 'n' => some ('\n', rest)
    | 'r' => some ('\r', rest)
    | 't' => some ('\t', rest)
    | 'b' => some ('\x08', rest)
    | 'f' => some ('\x0c', rest)
    | _ => none
  | [] => none

/-- The rest of a string from behind its opening quote, with the characters read so far last one
first. -/
def stringBody? : (bound : Nat) → List Char → Reader String
  | 0, _, _ => none
  | _ + 1, _, [] => none
  | bound + 1, acc, c :: rest =>
    if c == '"' then some (String.ofList acc.reverse, rest)
    else if c == '\\' then (escaped? rest).bind fun (e, rest) => stringBody? bound (e :: acc) rest
    else if c.toNat < 32 then none
    else stringBody? bound (c :: acc) rest

def string? : Reader String
  | '"' :: rest => stringBody? (rest.length + 1) [] rest
  | _ => none

/-! ### Numbers -/

/-- Takes digits into a number for as long as it stays below the limit, counting them. -/
def takeDigits (n count : Nat) : List Char → (Nat × Nat) × List Char
  | c :: rest =>
    if c.isDigit && n * 10 + (c.toNat - 48) < wordLimit then
      takeDigits (n * 10 + (c.toNat - 48)) (count + 1) rest
    else ((n, count), c :: rest)
  | [] => ((n, count), [])

/-- A significand times a power of ten.  The power is applied in steps of at most `10 ^ 308`;
nothing is read for a number beyond the largest one. -/
def scaled? : (steps : Nat) → Float → Int → Option Float
  | 0, _, _ => none
  | steps + 1, x, e =>
    if e.natAbs ≤ 308 then
      let power := Float.ofScientific 1 false e.natAbs
      if 0 ≤ e then
        let y := x * power
        if y.isInf then none else some y
      else some (x / power)
    else if x == 0 then some x
    else if 0 ≤ e then none
    else scaled? steps (x / 1e308) (e + 308)

def float? (negative : Bool) (significand : Nat) (e : Int) : Option Number :=
  (scaled? (e.natAbs / 308 + 2) (Float.ofNat significand) e).map fun x =>
    .float (if negative then -x else x)

/-- The exponent behind its letter. -/
def exponent? : Reader Int := fun s =>
  let (negative, s) : Bool × List Char :=
    match s with
    | '-' :: rest => (true, rest)
    | '+' :: rest => (false, rest)
    | _ => (false, s)
  let digits := s.takeWhile Char.isDigit
  if digits.isEmpty then none
  else
    let n : Int := digits.foldl (fun n c => n * 10 + (c.toNat - 48)) (0 : Nat)
    some (if negative then -n else n, s.dropWhile Char.isDigit)

/-- The end of a number with a fraction or of a long one. -/
def finish? (negative : Bool) (significand : Nat) (e : Int) : Reader Number := fun s =>
  match s with
  | c :: rest =>
    if c == 'e' || c == 'E' then do
      let (by10, rest) ← exponent? rest
      if Nat.pow 2 31 ≤ by10.natAbs then
        if significand != 0 && 0 ≤ by10 then none
        else return (.float (if negative then -0.0 else 0.0), rest)
      else return (← float? negative significand (e + by10), rest)
    else do return (← float? negative significand e, s)
  | [] => do return (← float? negative significand e, s)

/-- A number from behind its sign. -/
def unsigned? (negative : Bool) : Reader Number := fun s =>
  match s with
  | [] => none
  | c :: rest =>
    if !c.isDigit then none
    else
      let ((n, _), s) :=
        if c == '0' then ((0, 1), rest) else takeDigits (c.toNat - 48) 1 rest
      let long := if c == '0' then [] else s.takeWhile Char.isDigit
      let s := s.drop long.length
      match s with
      | '.' :: s =>
        let ((m, count), after) := takeDigits n 0 s
        let more := after.takeWhile Char.isDigit
        if count + more.length == 0 then none
        else finish? negative m ((long.length : Int) - count) (after.drop more.length)
      | _ =>
        if c == '0' && (s.head?.any Char.isDigit) then none
        else if !long.isEmpty || s.head? == some 'e' || s.head? == some 'E' then
          finish? negative n long.length s
        else if !negative then some (.int n, s)
        else if n == 0 || signedLimit < n then some (.float (-(Float.ofNat n)), s)
        else some (.int (-(n : Int)), s)

def number? : Reader Number
  | '-' :: rest => unsigned? true rest
  | s => unsigned? false s

/-! ### Values -/

/-- The rest of a container from the first item on: items with commas between them, up to the
closing bracket. -/
def items? {α : Type} (item : Reader α) (closing : Char) : (bound : Nat) → Reader (List α)
  | 0, _ => none
  | bound + 1, s => do
    let (first, s) ← item (skipSpaces s)
    match skipSpaces s with
    | c :: rest =>
      if c == closing then return ([first], rest)
      else if c == ',' then do
        let (others, rest) ← items? item closing bound rest
        return (first :: others, rest)
      else none
    | [] => none

/-- A container from behind its opening bracket. -/
def container? {α : Type} (item : Reader α) (closing : Char) : Reader (List α) := fun s =>
  match skipSpaces s with
  | c :: rest => if c == closing then some ([], rest) else items? item closing (rest.length + 1) s
  | [] => none

/-- A key, a colon and a value. -/
def member? (value : Reader Json) : Reader (String × Json) := fun s => do
  let (key, s) ← string? s
  match skipSpaces s with
  | ':' :: rest =>
    let (json, rest) ← value (skipSpaces rest)
    return ((key, json), rest)
  | _ => none

/-- A literal word. -/
def word? (word : List Char) (json : Json) : Reader Json := fun s =>
  (word.isPrefixOf? s).map (json, ·)

/-- A value in which containers are nested at most `depth` deep. -/
def value? : (depth : Nat) → Reader Json
  | depth, s =>
    match s with
    | 'n' :: _ => word? ['n', 'u', 'l', 'l'] null s
    | 't' :: _ => word? ['t', 'r', 'u', 'e'] (bool true) s
    | 'f' :: _ => word? ['f', 'a', 'l', 's', 'e'] (bool false) s
    | '"' :: _ => (string? s).map fun (text, rest) => (string text, rest)
    | '[' :: rest =>
      match depth with
      | 0 => none
      | depth + 1 => (container? (value? depth) ']' rest).map fun (items, rest) => (array items, rest)
    | '{' :: rest =>
      match depth with
      | 0 => none
      | depth + 1 =>
        (container? (member? (value? depth)) '}' rest).map fun (fields, rest) =>
          (ofFields fields, rest)
    | _ => (number? s).map fun (n, rest) => (number n, rest)

/-- How deep containers may be nested. -/
def depthLimit : Nat := 127

/-- The value that a text is, spaces around it aside. -/
def parse? (s : String) : Option Json :=
  match value? depthLimit (skipSpaces s.toList) with
  | some (json, rest) => if (skipSpaces rest).isEmpty then some json else none
  | none => none

end Pagefold.Json
