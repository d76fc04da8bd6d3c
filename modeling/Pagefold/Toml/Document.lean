import Pagefold.Toml.Scalar
import Pagefold.Toml.Table

/-! # Reading TOML

`Toml.parse?` reads a document: lines with a key and a value, headers of tables, blank lines and
comments.  Values may be nested 79 deep, and a dotted key may have 79 parts. -/

namespace Pagefold.Toml

/-- How deep values may be nested, and how many parts a key may have. -/
def depthLimit : Nat := 79

/-! ### Blanks and comments -/

/-- What follows a comment, which ends with its line or with the text. -/
def comment? : List Char → Option (List Char)
  | '#' :: rest =>
    let after := rest.dropWhile isLineChar
    if after.isEmpty then some [] else lineEnd? after
  | _ => none

/-- The rest of a line behind a value or a header. -/
def lineRest? (s : List Char) : Option (List Char) :=
  let s := skipBlanks s
  if s.isEmpty then some [] else comment? s <|> lineEnd? s

/-- Passes blanks, line ends and comments between the items of a list.  A comment there ends with a
line. -/
def skipLines : (bound : Nat) → List Char → List Char
  | 0, s => s
  | bound + 1, s =>
    let s := skipBlanks s
    match s with
    | '#' :: rest =>
      match lineEnd? (rest.dropWhile isLineChar) with
      | some rest => skipLines bound rest
      | none => s
    | _ =>
      match lineEnd? s with
      | some rest => skipLines bound rest
      | none => s

/-! ### Keys -/

def isBareKeyChar (c : Char) : Bool := c.isAlphanum || c == '-' || c == '_'

/-- One part of a key. -/
def simpleKey? (s : List Char) : Option (String × List Char) :=
  match s with
  | '"' :: _ | '\'' :: _ => quotedOnLine? s
  | _ =>
    let name := s.takeWhile isBareKeyChar
    if name.isEmpty then none else some (String.ofList name, s.drop name.length)

/-- The parts of a key, with dots between them. -/
def keyParts? : (bound : Nat) → List Char → Option (List String × List Char)
  | 0, _ => none
  | bound + 1, s => do
    let (part, s) ← simpleKey? (skipBlanks s)
    match skipBlanks s with
    | '.' :: rest =>
      let (parts, rest) ← keyParts? bound rest
      return (part :: parts, rest)
    | rest => return ([part], rest)

/-- A key, and what follows it and the blanks behind it. -/
def key? (s : List Char) : Option (List String × List Char) :=
  (keyParts? (s.length + 1) s).filter fun (parts, _) => parts.length ≤ depthLimit

/-! ### Values -/

/-- The items of a list up to its closing bracket.  A comma may follow the last item. -/
def items? (value : Reader Json) : (bound : Nat) → Reader (List Json)
  | 0, _ => none
  | bound + 1, s =>
    let s := skipLines (s.length + 1) s
    match s with
    | ']' :: rest => some ([], rest)
    | _ => do
      let (item, s) ← value s
      match skipLines (s.length + 1) s with
      | ']' :: rest => return ([item], rest)
      | ',' :: rest =>
        let (items, rest) ← items? value bound rest
        return (item :: items, rest)
      | _ => none

/-- The entries of a table on one line up to its closing brace. -/
def inlineEntries? (value : Reader Json) : (bound : Nat) → Node → Reader Node
  | 0, _, _ => none
  | bound + 1, node, s => do
    let (path, s) ← key? s
    match s with
    | '=' :: rest =>
      let (json, s) ← value (skipBlanks rest)
      let node ← node.insert path json
      match skipBlanks s with
      | '}' :: rest => return (node, rest)
      | ',' :: rest => inlineEntries? value bound node rest
      | _ => none
    | _ => none

/-- A table on one line from behind its opening brace. -/
def inlineTable? (value : Reader Json) : Reader Json := fun s =>
  match skipBlanks s with
  | '}' :: rest => some (.object [], rest)
  | _ =>
    (inlineEntries? value (s.length + 1) (.fresh false false) s).map fun (node, rest) =>
      (node.toJson, rest)

/-- A value in which lists and tables are nested at most `depth` deep. -/
def value? : (depth : Nat) → Reader Json
  | depth, s =>
    match s with
    | '"' :: _ | '\'' :: _ => (string? s).map fun (text, rest) => (.string text, rest)
    | '[' :: rest =>
      match depth with
      | 0 => none
      | depth + 1 =>
        (items? (value? depth) (rest.length + 1) rest).map fun (items, rest) => (.array items, rest)
    | '{' :: rest =>
      match depth with
      | 0 => none
      | depth + 1 => inlineTable? (value? depth) rest
    | 't' :: 'r' :: 'u' :: 'e' :: rest => some (.bool true, rest)
    | 'f' :: 'a' :: 'l' :: 's' :: 'e' :: rest => some (.bool false, rest)
    | _ => number? s

/-! ### Documents -/

/-- A document as far as it was read, and the table to which keys belong. -/
structure Progress where
  root : Node := .fresh false false
  header : List String := []

namespace Progress

/-- Takes in the header of a table, from behind its bracket. -/
def header? (p : Progress) (s : List Char) : Option (Progress × List Char) :=
  match s with
  | '[' :: rest => do
    let (path, s) ← key? rest
    match s with
    | ']' :: ']' :: rest => return (⟨← p.root.extend? path, path⟩, ← lineRest? rest)
    | _ => none
  | _ => do
    let (path, s) ← key? s
    match s with
    | ']' :: rest => return (⟨← p.root.open? path, path⟩, ← lineRest? rest)
    | _ => none

/-- Takes in a line with a key and its value. -/
def entry (p : Progress) (s : List Char) : Option (Progress × List Char) := do
  let (path, s) ← key? s
  match s with
  | '=' :: rest =>
    let (json, rest) ← value? depthLimit (skipBlanks rest)
    let rest ← lineRest? rest
    let root ← p.root.update false (·.insert path json) p.header
    return ({ p with root }, rest)
  | _ => none

/-- Takes in what stands on the next line. -/
def line (p : Progress) (s : List Char) : Option (Progress × List Char) :=
  match s with
  | '#' :: _ => (comment? s).map (p, ·)
  | '[' :: rest => p.header? rest
  | '\n' :: _ | '\r' :: _ => (lineEnd? s).map (p, ·)
  | _ => p.entry s

/-- Takes in the rest of a document. -/
def lines : (bound : Nat) → Progress → List Char → Option Progress
  | 0, _, _ => none
  | bound + 1, p, s =>
    match skipBlanks s with
    | [] => some p
    | s => (p.line s).bind fun (p, rest) => lines bound p rest

end Progress

/-- The value that a document stands for.  A mark of the byte order may open the document. -/
def parse? (text : String) : Option Json :=
  let s := match text.toList with
    | '\ufeff' :: rest => rest
    | s => s
  (Progress.lines (s.length + 1) {} s).map fun p => p.root.toJson

end Pagefold.Toml
