import Pagefold.Path
import Pagefold.Text.Blank

/-! # Module references

A reference as a page or a chunk writes it: a path, perhaps with a query or a fragment behind it, or
a URL.  URLs never name a chunk (`isNonLocal`).  Against the file that holds it, a reference reads as
one path from the root of the build (`target`). -/

namespace Pagefold.Link.Reference

open Text

/-- The path in a reference, without query and fragment. -/
def path (reference : String) : List Char :=
  trim (reference.toList.takeWhile fun c => c != '?' && c != '#')

/-- The characters of a URL scheme. -/
def isSchemeChar (c : Char) : Bool := c.isAlphanum || c == '+' || c == '-' || c == '.'

/-- Whether a text opens with a scheme of two characters or more, or with two slashes.  A single
letter before a colon is no scheme. -/
def isNonLocal (s : List Char) : Bool :=
  ['/', '/'].isPrefixOf s ||
    (s.contains ':' &&
      let scheme := s.takeWhile (· != ':')
      scheme.length > 1 && scheme.all isSchemeChar)

/-- The path of a reference from the root of the build: a rooted one without its slash, any other
from the directory of the file that holds it. -/
def target (path : List Char) (importer? : Option String) : List Char :=
  match path with
  | '/' :: rooted => rooted
  | _ =>
    match importer?.bind (Path.directory? ·.toList) with
    | some directory => directory ++ '/' :: path
    | none => path

/-- The reduced target of a path; a backslash counts as a slash in the result. -/
def normalized (path : List Char) (importer? : Option String) : String :=
  String.ofList ((Path.clean (target path importer?)).map fun c => if c == '\\' then '/' else c)

end Pagefold.Link.Reference
