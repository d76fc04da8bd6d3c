/-! # Patterns for file names

A pattern is read into tokens (`Glob.parse`).  `?` stands for one byte and `*` for any bytes, a slash
among them; `**` between slashes stands for any directories; brackets list characters, braces list
alternatives, and a backslash takes the next character for itself. -/

namespace Pagefold.Glob

/-- A piece of a pattern. -/
inductive Token where
  | literal (c : Char)
  /-- One byte. -/
  | any
  /-- Any bytes. -/
  | anyRun
  /-- `**/` at the start of an alternative. -/
  | directoriesBefore
  /-- `/**` at the end of an alternative. -/
  | directoriesAfter
  /-- `/**/` in the middle. -/
  | directoriesBetween
  | oneOf (negated : Bool) (ranges : List (Char × Char))
  | alternatives (branches : List (List Token))

/-- Why a text is no pattern. -/
inductive Fault where
  | unclosedClass
  | emptyRange (low high : Char)
  | unopenedGroup
  | unclosedGroup
  | danglingEscape
deriving DecidableEq, Repr

def Fault.message : Fault → String
  | unclosedClass => "unclosed character class; missing ']'"
  | emptyRange low high => s!"invalid range; '{low}' > '{high}'"
  | unopenedGroup =>
    "unopened alternate group; missing '\x7b' (maybe escape '\x7d' with '[\x7d]'?)"
  | unclosedGroup =>
    "unclosed alternate group; missing '\x7d' (maybe escape '\x7b' with '[\x7b]'?)"
  | danglingEscape => "dangling '\\'"

/-! ### Character classes -/

/-- Ends the newest range, the first of the list, at another character. -/
def stretch (high : Char) : List (Char × Char) → Except Fault (List (Char × Char))
  | (low, _) :: ranges =>
    if high < low then .error (.emptyRange low high) else .ok ((low, high) :: ranges)
  | [] => .ok [(high, high)]

/-- The rest of a class.  `first` says that nothing of it has been read, and `dashed` that a dash
was read that may begin the end of a range; the newest range comes first. -/
def classRest (first dashed : Bool) (ranges : List (Char × Char)) :
    List Char → Except Fault (List (Char × Char) × List Char)
  | [] => .error .unclosedClass
  | c :: rest =>
    if c == ']' && !first then .ok ((if dashed then ('-', '-') :: ranges else ranges).reverse, rest)
    else if c == '-' && !first && !dashed then classRest false true ranges rest
    else if dashed && c != ']' then
      match stretch c ranges with
      | .ok ranges => classRest false false ranges rest
      | .error fault => .error fault
    else classRest false dashed ((c, c) :: ranges) rest

/-- A class from behind its opening bracket. -/
def classBody (s : List Char) : Except Fault (Token × List Char) :=
  let negated := s.head? == some '!' || s.head? == some '^'
  (classRest true false [] (if negated then s.tail else s)).map fun (ranges, rest) =>
    (.oneOf negated ranges, rest)

/-! ### Patterns -/

/-- How far a pattern has been read.  Lists of tokens have the newest one first. -/
structure Progress where
  /-- For each open brace, the innermost first: the tokens before it, and the alternatives that are
  complete, the newest first. -/
  groups : List (List Token × List (List Token)) := []
  /-- The tokens of the alternative that is being read. -/
  tokens : List Token := []
  /-- The character read last. -/
  last? : Option Char := none

namespace Progress

def add (p : Progress) (token : Token) : Progress := { p with tokens := token :: p.tokens }

/-- Takes in two stars, of which `before?` is the character before and `rest` what follows. -/
def twoStars (p : Progress) (before? : Option Char) (rest : List Char) : Progress × List Char :=
  let runs : Progress × List Char := ((p.add .anyRun).add .anyRun, rest)
  let next? := rest.head?
  let behindSlash : Progress := { p with last? := next? }
  if p.tokens.isEmpty then
    match next? with
    | none => (p.add .directoriesBefore, rest)
    | some '/' => (behindSlash.add .directoriesBefore, rest.tail)
    | some _ => runs
  else if !(before? == some '/' || (!p.groups.isEmpty && (before? == some ',' || before? == some '\x7b')))
  then runs
  else
    let instead (p : Progress) (token : Token) : Progress :=
      match p.tokens with
      | .directoriesBefore :: _ => p
      | .directoriesAfter :: _ => p
      | _ => { p with tokens := token :: p.tokens.tail }
    match next? with
    | none => (instead p .directoriesAfter, rest)
    | some '/' => (instead behindSlash .directoriesBetween, rest.tail)
    | some c =>
      if (c == ',' || c == '\x7d') && !p.groups.isEmpty then (instead p .directoriesAfter, rest)
      else runs

/-- Takes in the next character, and what belongs to it. -/
def step (p : Progress) (c : Char) (rest : List Char) : Except Fault (Progress × List Char) :=
  let read : Progress := { p with last? := some c }
  match c with
  | '?' => .ok (read.add .any, rest)
  | '*' =>
    match rest with
    | '*' :: after => .ok (read.twoStars p.last? after)
    | _ => .ok (read.add .anyRun, rest)
  | '[' => (classBody rest).map fun (token, rest) => ({ p with last? := some ']' }.add token, rest)
  | '\x7b' => .ok ({ read with groups := (p.tokens, []) :: p.groups, tokens := [] }, rest)
  | '\x7d' =>
    match p.groups with
    | (before, branches) :: groups =>
      let branches := (p.tokens :: branches).reverse.map List.reverse
      .ok ({ read with groups, tokens := .alternatives branches :: before }, rest)
    | [] => .error .unopenedGroup
  | ',' =>
    match p.groups with
    | (before, branches) :: groups =>
      .ok ({ read with groups := (before, p.tokens :: branches) :: groups, tokens := [] }, rest)
    | [] => .ok (read.add (.literal ','), rest)
  | '\\' =>
    match rest with
    | escaped :: rest => .ok ({ p with last? := some escaped }.add (.literal escaped), rest)
    | [] => .error .danglingEscape
  | c => .ok (read.add (.literal c), rest)

/-- Reads on to the end of the text. -/
def run : (bound : Nat) → Progress → List Char → Except Fault Progress
  | bound + 1, p, c :: rest =>
    match p.step c rest with
    | .ok (p, rest) => run bound p rest
    | .error fault => .error fault
  | _, p, _ => .ok p

end Progress

/-- The tokens of a pattern. -/
def parse (s : List Char) : Except Fault (List Token) :=
  match Progress.run s.length {} s with
  | .ok p => if p.groups.isEmpty then .ok p.tokens.reverse else .error .unclosedGroup
  | .error fault => .error fault

end Pagefold.Glob
