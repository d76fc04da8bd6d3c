import Pagefold.Dictionary
import Pagefold.Path
import Pagefold.Text.Cut

/-! # Names for wrapped chunks

Every wrapped chunk is bound to a name of its own.  The name comes from the file: from the content
hash in it if there is one, else from its stem (`baseName`).  A base that is taken gets the first
free counter behind it (`freeName`), so equal ids in equal order get equal names. -/

namespace Pagefold.Link

open Text

/-- The longest part of a file name that goes into a name. -/
def stemLimit : Nat := 32

/-- The shortest text that counts as a content hash. -/
def hashLength : Nat := 6

/-- The characters that a name keeps; all others become `_`. -/
def isNameChar (c : Char) : Bool := c.isAlphanum || c == '_' || c == '$'

/-- A file name without its extension; a name that starts with its only dot is all stem. -/
def stem (file : List Char) : List Char :=
  match lastOf? (· == '.') file with
  | some (c :: front, _) => c :: front
  | _ => file

/-- Whether a text looks like a content hash: long enough, of letters, digits and `_`, and with a
digit in it or with letters of both cases, the upper one not only in front. -/
def looksHashed (s : List Char) : Bool :=
  hashLength ≤ s.length && s.all (fun c => c.isAlphanum || c == '_') &&
    (s.any Char.isDigit || (s.any Char.isLower && (s.drop 1).any Char.isUpper))

/-- The content hash behind the last hyphen or dot of a stem. -/
def contentHash? (stem : List Char) : Option (List Char) :=
  match lastOf? (fun c => c == '-' || c == '.') stem with
  | some (_, token) => if looksHashed token then some token else none
  | none => none

/-- The part of a name that comes from the file. -/
def nameBody (id : String) : List Char :=
  let stem := stem (Path.fileName id.toList)
  let body := (((contentHash? stem).getD stem).take stemLimit).map fun c =>
    if isNameChar c then c else '_'
  if body.isEmpty then ['c', 'h', 'u', 'n', 'k'] else body

/-- The name of a chunk before others are looked at.  No name starts with a digit. -/
def baseName (id lead : String) : String :=
  match lead.toList ++ nameBody id with
  | c :: rest => String.ofList (if c.isDigit then '_' :: c :: rest else c :: rest)
  | [] => ""

/-- `base`, or `base` with the first counter that makes a name not taken.  Among one more names than
are taken, one is free. -/
def freeName (taken : List String) (base : String) : String :=
  let numbered := (List.range taken.length).map fun k => s!"{base}_{k + 1}"
  ((base :: numbered).find? (!taken.contains ·)).getD base

/-- Chunk ids with their names, in the order in which the names were given. -/
abbrev Naming := Dictionary String

namespace Naming

/-- Gives an id a name, unless it has one. -/
def assign (names : Naming) (id lead : String) : Naming :=
  if names.contains id then names
  else names.insert id (freeName names.values (baseName id lead))

/-- Names ids one after the other. -/
def ofList (ids : List String) (lead : String) : Naming :=
  ids.foldl (fun names id => names.assign id lead) .empty

end Naming

end Pagefold.Link
