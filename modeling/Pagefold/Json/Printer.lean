import Pagefold.Decimal.Shortest
import Pagefold.Json.Value

/-! # Writing JSON

On one line without blanks (`Json.compact`), or over several lines with an indentation of two
(`Json.pretty`). -/

namespace Pagefold.Json

/-- The last four hexadecimal digits of a number. -/
def hexDigits (n : Nat) : List Char :=
  [n / 4096 % 16, n / 256 % 16, n / 16 % 16, n % 16].map Nat.digitChar

/-- A character inside quotes.  Quotes, backslashes and control characters are escaped. -/
def escape (c : Char) : List Char :=
  if c == '"' then ['\\', '"']
  else if c == '\\' then ['\\', '\\']
  else if c == '\n' then ['\\', 'n']
  else if c == '\r' then ['\\', 'r']
  else if c == '\t' then ['\\', 't']
  else if c == '\x08' then ['\\', 'b']
  else if c == '\x0c' then ['\\', 'f']
  else if c.toNat < 32 then '\\' :: 'u' :: hexDigits c.toNat
  else [c]

def quote (s : String) : String :=
  "\"" ++ String.ofList (s.toList.flatMap escape) ++ "\""

def Number.text : Number → String
  | .int n => toString n
  | .float x => dataText x

mutual

/-- A value on one line. -/
def compact : Json → String
  | null => "null"
  | bool b => if b then "true" else "false"
  | number n => n.text
  | string s => quote s
  | array items => "[" ++ ",".intercalate (compactItems items) ++ "]"
  | object fields => "\x7b" ++ ",".intercalate (compactFields fields) ++ "\x7d"

def compactItems : List Json → List String
  | [] => []
  | item :: rest => item.compact :: compactItems rest

def compactFields : List (String × Json) → List String
  | [] => []
  | (key, value) :: rest => (quote key ++ ":" ++ value.compact) :: compactFields rest

end

/-- Lines between two brackets, one level further in; nothing between the brackets of an empty
list. -/
def bracket (indent : Nat) (opening closing : String) (lines : List String) : String :=
  let margin (n : Nat) := String.ofList (List.replicate (2 * n) ' ')
  if lines.isEmpty then opening ++ closing
  else
    opening ++ "\n" ++ ",\n".intercalate (lines.map (margin (indent + 1) ++ ·)) ++ "\n"
      ++ margin indent ++ closing

mutual

/-- A value over several lines, the first of which stands at some indentation already. -/
def prettyAt (indent : Nat) : Json → String
  | array items => bracket indent "[" "]" (prettyItems (indent + 1) items)
  | object fields => bracket indent "\x7b" "\x7d" (prettyFields (indent + 1) fields)
  | null => compact null
  | bool b => compact (bool b)
  | number n => compact (number n)
  | string s => compact (string s)

def prettyItems (indent : Nat) : List Json → List String
  | [] => []
  | item :: rest => item.prettyAt indent :: prettyItems indent rest

def prettyFields (indent : Nat) : List (String × Json) → List String
  | [] => []
  | (key, value) :: rest =>
    (quote key ++ ": " ++ value.prettyAt indent) :: prettyFields indent rest

end

def pretty (json : Json) : String := json.prettyAt 0

end Pagefold.Json
