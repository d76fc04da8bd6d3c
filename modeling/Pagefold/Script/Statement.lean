import Pagefold.Text.Blank
import Pagefold.Text.Cut
import Pagefold.Text.Letter

/-! # Module statements

The four statements by which a chunk of module code names other chunks and what it offers them,
and the reader for one statement.  A statement is read off the front of a text; what the reader
leaves is a proper end of the text (`Statement.length_of_read?`).  Reading knows no strings and no
comments: chunks are written by a bundler, and a statement is recognised by its shape alone. -/

namespace Pagefold.Script

open Text

/-- One entry `name as newName` of a braced list; a plain `name` keeps its name.  In an import
`name` is what the other module calls it, in an export what this module calls it. -/
structure Binding where
  name : String
  newName : String
deriving DecidableEq, Repr

/-- Whether an entry gives its name a new one. -/
def Binding.renames (b : Binding) : Bool := b.name != b.newName

inductive Statement where
  | namedImport (bindings : List Binding) (source : String)
  | bareImport (source : String)
  | reexport (bindings : List Binding) (source : String)
  | exportClause (bindings : List Binding)
deriving DecidableEq, Repr

namespace Statement

/-- The module that an import or a re-export refers to. -/
def source? : Statement → Option String
  | namedImport _ source | bareImport source | reexport _ source => some source
  | exportClause _ => none

/-- The entries of a braced list; a bare import has none to show. -/
def bindings? : Statement → Option (List Binding)
  | namedImport bindings _ | reexport bindings _ | exportClause bindings => some bindings
  | bareImport _ => none

def isImport : Statement → Bool
  | namedImport _ _ | bareImport _ => true
  | reexport _ _ | exportClause _ => false

end Statement

/-! ### Names and lists of names -/

/-- The characters that may open a name. -/
def opensName (c : Char) : Bool := c == '_' || c == '$' || isLetter c

/-- The characters that may follow in a name. -/
def continuesName (c : Char) : Bool := c == '_' || c == '$' || isLetterOrNumber c

/-- A name is an opening character followed by continuing ones. -/
def isIdentifier : List Char → Bool
  | [] => false
  | c :: s => opensName c && s.all continuesName

/-- One entry of a list: a name, or two names joined by the word `as`. -/
def Binding.ofWords? : List (List Char) → Option Binding
  | [name] =>
    if isIdentifier name then some ⟨String.ofList name, String.ofList name⟩ else none
  | [name, ['a', 's'], newName] =>
    if isIdentifier name && isIdentifier newName then
      some ⟨String.ofList name, String.ofList newName⟩
    else none
  | _ => none

/-- The entries between two braces.  What is not an entry is passed over. -/
def Binding.listOf (s : List Char) : List Binding :=
  (s.splitOn ',').filterMap fun entry => ofWords? (words entry)

/-! ### Reading one statement -/

/-- The text between an opening brace and the first closing one, and the rest. -/
def braced? : List Char → Option (List Char × List Char)
  | '{' :: s => until? (· == '}') s
  | _ => none

/-- The text between two equal quotes of either kind, and the rest. -/
def quoted? : List Char → Option (List Char × List Char)
  | '"' :: s => until? (· == '"') s
  | '\'' :: s => until? (· == '\'') s
  | _ => none

/-- What follows a semicolon, if one is next after blanks; otherwise the text itself. -/
def skipSemicolon (s : List Char) : List Char :=
  match skipBlanks s with
  | ';' :: rest => rest
  | _ => s

/-- `from` and a quoted source, with the semicolon if there is one. -/
def fromClause? (s : List Char) : Option (String × List Char) := do
  let s ← ['f', 'r', 'o', 'm'].isPrefixOf? (skipBlanks s)
  let (source, s) ← quoted? (skipBlanks s)
  return (String.ofList source, skipSemicolon s)

namespace Statement

/-- `import { … } from "…"`, from behind the keyword. -/
def readNamedImport? (s : List Char) : Option (Statement × List Char) := do
  let (list, s) ← braced? s
  let (source, s) ← fromClause? s
  return (namedImport (Binding.listOf list) source, s)

/-- `import "…"`, from behind the keyword. -/
def readBareImport? (s : List Char) : Option (Statement × List Char) := do
  let (source, s) ← quoted? s
  return (bareImport (String.ofList source), skipSemicolon s)

/-- `export { … }`, with a source or without, from behind the keyword. -/
def readExport? (s : List Char) : Option (Statement × List Char) := do
  let (list, s) ← braced? s
  match fromClause? s with
  | some (source, s) => return (reexport (Binding.listOf list) source, s)
  | none => return (exportClause (Binding.listOf list), skipSemicolon s)

/-- The statement at the front of a text, and what follows it. -/
def read? (s : List Char) : Option (Statement × List Char) :=
  match ['i', 'm', 'p', 'o', 'r', 't'].isPrefixOf? s with
  | some s => readNamedImport? (skipBlanks s) <|> readBareImport? (skipBlanks s)
  | none =>
    match ['e', 'x', 'p', 'o', 'r', 't'].isPrefixOf? s with
    | some s => readExport? (skipBlanks s)
    | none => none

/-- The statement that a text is, blanks around it aside. -/
def ofText? (s : String) : Option Statement :=
  match read? (trim s.toList) with
  | some (statement, []) => some statement
  | _ => none

end Statement

/-! ### What a reader leaves is shorter -/

theorem length_of_isPrefixOf? {w s r : List Char} (h : w.isPrefixOf? s = some r) :
    r.length + w.length = s.length := by
  induction w generalizing s with
  | nil =>
    obtain rfl : s = r := Option.some.inj h
    rfl
  | cons c w ih =>
    cases s with
    | nil => exact absurd h.symm (Option.some_ne_none r)
    | cons d s =>
      change (if c == d then w.isPrefixOf? s else none) = some r at h
      split at h
      · have := ih h
        simp only [List.length_cons]
        omega
      · exact absurd h.symm (Option.some_ne_none r)

theorem length_of_braced? {s a r : List Char} (h : braced? s = some (a, r)) :
    r.length < s.length := by
  unfold braced? at h
  split at h
  · have := length_of_until? h
    simp
    omega
  · simp at h

theorem length_of_quoted? {s a r : List Char} (h : quoted? s = some (a, r)) :
    r.length < s.length := by
  unfold quoted? at h
  split at h
  · have := length_of_until? h
    simp
    omega
  · have := length_of_until? h
    simp
    omega
  · simp at h

theorem length_skipSemicolon_le (s : List Char) : (skipSemicolon s).length ≤ s.length := by
  unfold skipSemicolon
  split
  · rename_i rest h
    have := length_skipBlanks_le s
    simp [h] at this
    omega
  · exact Nat.le_refl _

theorem length_of_fromClause? {s : List Char} {source : String} {r : List Char}
    (h : fromClause? s = some (source, r)) : r.length < s.length := by
  simp only [fromClause?, Option.bind_eq_bind, Option.bind_eq_some_iff, Prod.exists, Option.pure_def,
    Option.some.injEq, Prod.mk.injEq] at h
  obtain ⟨a, ha, q, b, hq, _, rfl⟩ := h
  have h1 := length_of_isPrefixOf? ha
  have h2 := length_of_quoted? hq
  have h3 := length_skipBlanks_le s
  have h4 := length_skipBlanks_le a
  have h5 := length_skipSemicolon_le b
  simp only [List.length_cons, List.length_nil] at h1
  omega

namespace Statement

theorem length_of_readNamedImport? {s r : List Char} {st : Statement}
    (h : readNamedImport? s = some (st, r)) : r.length < s.length := by
  simp only [readNamedImport?, Option.bind_eq_bind, Option.bind_eq_some_iff, Prod.exists,
    Option.pure_def, Option.some.injEq, Prod.mk.injEq] at h
  obtain ⟨_, a, ha, _, b, hb, _, rfl⟩ := h
  have h1 := length_of_braced? ha
  have h2 := length_of_fromClause? hb
  omega

theorem length_of_readBareImport? {s r : List Char} {st : Statement}
    (h : readBareImport? s = some (st, r)) : r.length < s.length := by
  simp only [readBareImport?, Option.bind_eq_bind, Option.bind_eq_some_iff, Prod.exists,
    Option.pure_def, Option.some.injEq, Prod.mk.injEq] at h
  obtain ⟨_, a, ha, _, rfl⟩ := h
  have h1 := length_of_quoted? ha
  have h2 := length_skipSemicolon_le a
  omega

theorem length_of_readExport? {s r : List Char} {st : Statement}
    (h : readExport? s = some (st, r)) : r.length < s.length := by
  simp only [readExport?, Option.bind_eq_bind, Option.bind_eq_some_iff, Prod.exists,
    Option.pure_def] at h
  obtain ⟨_, a, ha, h⟩ := h
  have h1 := length_of_braced? ha
  split at h
  · rename_i b hb
    have h2 := length_of_fromClause? hb
    obtain ⟨_, rfl⟩ := by simpa using h
    omega
  · have h2 := length_skipSemicolon_le a
    obtain ⟨_, rfl⟩ := by simpa using h
    omega

/-- A statement takes something off the text it is read from. -/
theorem length_of_read? {s r : List Char} {st : Statement} (h : read? s = some (st, r)) :
    r.length < s.length := by
  unfold read? at h
  split at h
  · rename_i a ha
    have h1 := length_of_isPrefixOf? ha
    have h2 := length_skipBlanks_le a
    rcases Option.or_eq_some_iff.1 (by simpa [HOrElse.hOrElse, OrElse.orElse] using h) with h | ⟨_, h⟩
    · have := length_of_readNamedImport? h
      omega
    · have := length_of_readBareImport? h
      omega
  · split at h
    · rename_i a ha
      have h1 := length_of_isPrefixOf? ha
      have h2 := length_skipBlanks_le a
      have := length_of_readExport? h
      omega
    · simp at h

end Statement

end Pagefold.Script
