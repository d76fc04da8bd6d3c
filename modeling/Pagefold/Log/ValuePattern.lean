import Pagefold.Text.Letter
import Pagefold.Toml.Scalar

/-! # Patterns for logged values

A directive of a log filter may ask for events with a value that fits a regular expression.  Only
stretches of work could carry such values, and the program does not divide its work into any, so
nothing is ever held against the expressions: they have to be well formed, and that is all
(`isValuePattern`).  An expression stands between braces in a list with commas, behind an equals
sign, so no closing brace, comma or equals sign occurs in it; an opening brace is never closed. -/

namespace Pagefold.Log

open Toml (Reader)

/-! ### Numbers -/

/-- Whether a text is a decimal number: digits around a point, which may be missing, and perhaps an
exponent.  The words for what is no finite number count as well. -/
def isNumber (s : List Char) : Bool :=
  let s := (Toml.sign s).2
  let word := String.ofList (s.map Char.toLower)
  let whole := s.takeWhile Char.isDigit
  let rest := s.drop whole.length
  let rest := if rest.head? == some '.' then rest.tail else rest
  let fraction := rest.takeWhile Char.isDigit
  let by10 :=
    match rest.drop fraction.length with
    | [] => ['0']
    | c :: rest => if Toml.isExponentMark c then (Toml.sign rest).2 else []
  ["inf", "infinity", "nan"].contains word
    || (!(whole.isEmpty && fraction.isEmpty) && !by10.isEmpty && by10.all Char.isDigit)

/-! ### Escapes -/

/-- What an escape stands for. -/
inductive Atom where
  | char (c : Char)
  /-- A set of characters. -/
  | set
  /-- A place between characters. -/
  | place

/-- The letters that name the largest categories of characters. -/
def categories : List Char := ['c', 'l', 'm', 'n', 'p', 's', 'z']

/-- What a backslash stands for together with what follows it.  The ends of words are no places that
can be looked for. -/
def escape? : Reader Atom
  | 'x' :: rest => (Toml.namedChar? 2 rest).map fun (c, rest) => (.char c, rest)
  | 'u' :: rest => (Toml.namedChar? 4 rest).map fun (c, rest) => (.char c, rest)
  | 'U' :: rest => (Toml.namedChar? 8 rest).map fun (c, rest) => (.char c, rest)
  | c :: rest =>
    match c with
    | 'd' | 'D' | 's' | 'S' | 'w' | 'W' => some (.set, rest)
    | 'p' | 'P' =>
      match rest with
      | category :: rest =>
        if categories.contains category.toLower then some (.set, rest) else none
      | [] => none
    | 'A' | 'z' => some (.place, rest)
    | 'a' => some (.char '\x07', rest)
    | 'f' => some (.char '\x0c', rest)
    | 'n' => some (.char '\n', rest)
    | 'r' => some (.char '\r', rest)
    | 't' => some (.char '\t', rest)
    | 'v' => some (.char '\x0b', rest)
    | '<' | '>' => none
    | _ => if c.toNat < 128 && !c.isAlphanum then some (.char c, rest) else none
  | [] => none

/-! ### Classes of characters -/

/-- The classes that have a name between colons. -/
def classNames : List String :=
  ["alnum", "alpha", "ascii", "blank", "cntrl", "digit", "graph", "lower", "print", "punct",
    "space", "upper", "word", "xdigit"]

/-- What follows a class with a name, from behind its opening bracket. -/
def afterNamedClass? : List Char → Option (List Char)
  | ':' :: rest =>
    let rest := if rest.head? == some '^' then rest.tail else rest
    let name := rest.takeWhile (· != ':')
    match rest.drop name.length with
    | ':' :: ']' :: rest => if classNames.contains (String.ofList name) then some rest else none
    | _ => none
  | _ => none

/-- What follows the marks at the start of a class: a negation, dashes that stand for themselves, and
without these a closing bracket that stands for itself. -/
def afterClassStart (s : List Char) : List Char :=
  let s := if s.head? == some '^' then s.tail else s
  match s with
  | ']' :: rest => rest
  | _ => s.dropWhile (· == '-')

/-- A member of a class, or an end of a range in it. -/
def classItem? : Reader Atom
  | '\\' :: rest => escape? rest
  | c :: rest => some (.char c, rest)
  | [] => none

/-- What follows a class, from a place inside `depth` open brackets. -/
def afterClass? : (bound depth : Nat) → List Char → Option (List Char)
  | 0, _, _ => none
  | bound + 1, depth, s =>
    match s with
    | ']' :: rest => if depth ≤ 1 then some rest else afterClass? bound (depth - 1) rest
    | '[' :: rest =>
      match afterNamedClass? rest with
      | some rest => afterClass? bound depth rest
      | none => afterClass? bound (depth + 1) (afterClassStart rest)
    | '&' :: '&' :: rest | '-' :: '-' :: rest | '~' :: '~' :: rest => afterClass? bound depth rest
    | _ => do
      let (low, rest) ← classItem? s
      let range? : Option (List Char) :=
        match rest with
        | '-' :: after => if after.head? == some ']' || after.head? == some '-' then none else some after
        | _ => none
      match low, range? with
      | .place, _ => none
      | _, none => afterClass? bound depth rest
      | low, some after =>
        let (high, rest) ← classItem? after
        match low, high with
        | .char a, .char b => if a ≤ b then afterClass? bound depth rest else none
        | _, _ => none

/-! ### Groups -/

/-- What an opening parenthesis begins. -/
inductive GroupStart where
  /-- A group, which may have a name. -/
  | group (name? : Option (List Char))
  /-- A setting for what follows. -/
  | setting

/-- Whether a text can name a group. -/
def isGroupName : List Char → Bool
  | [] => false
  | c :: rest =>
    (c == '_' || Text.isLetter c)
      && rest.all fun c => ['_', '.', '[', ']'].contains c || Text.isLetterOrNumber c

/-- Whether a text sets flags, each once.  A minus clears those that follow, if there are any. -/
def areFlags (s : List Char) : Bool :=
  s.all (['i', 'm', 's', 'u', 'U', 'R', 'x', '-'].contains ·) && s.Nodup
    && s.getLast? != some '-'

/-- The start of a group from behind its parenthesis, where some names are taken. -/
def groupStart? (taken : List (List Char)) : Reader GroupStart
  | '?' :: 'P' :: '<' :: rest | '?' :: '<' :: rest =>
    let name := rest.takeWhile (· != '>')
    match rest.drop name.length with
    | _ :: rest => if isGroupName name && !taken.contains name then some (.group name, rest) else none
    | [] => none
  | '?' :: rest =>
    let flags := rest.takeWhile fun c => c != ':' && c != ')'
    match rest.drop flags.length with
    | c :: rest =>
      if !areFlags flags then none
      else if c == ':' then some (.group none, rest)
      else if flags.isEmpty then none
      else some (.setting, rest)
    | [] => none
  | s => some (.group none, s)

/-! ### Expressions -/

/-- Whether an expression goes on well inside some open groups.  `repeatable` says that something
stands before which can be repeated. -/
def isWellFormed : (bound groups : Nat) → (names : List (List Char)) → (repeatable : Bool) →
    List Char → Bool
  | 0, _, _, _, _ => false
  | _ + 1, groups, _, _, [] => groups == 0
  | bound + 1, groups, names, repeatable, c :: rest =>
    match c with
    | '(' =>
      match groupStart? names rest with
      | some (.group name?, rest) =>
        isWellFormed bound (groups + 1) (name?.toList ++ names) false rest
      | some (.setting, rest) => isWellFormed bound groups names false rest
      | none => false
    | ')' => groups != 0 && isWellFormed bound (groups - 1) names true rest
    | '|' => isWellFormed bound groups names false rest
    | '*' | '+' | '?' => repeatable && isWellFormed bound groups names true rest
    | '\x7b' => false
    | '[' =>
      match afterClass? (rest.length + 1) 1 (afterClassStart rest) with
      | some rest => isWellFormed bound groups names true rest
      | none => false
    | '\\' =>
      match escape? rest with
      | some (_, rest) => isWellFormed bound groups names true rest
      | none => false
    | _ => isWellFormed bound groups names true rest

/-- Whether a text can be asked for as a value: it is a number or a well-formed expression. -/
def isValuePattern (s : List Char) : Bool :=
  isNumber s || isWellFormed (s.length + 1) 0 [] false s

end Pagefold.Log
