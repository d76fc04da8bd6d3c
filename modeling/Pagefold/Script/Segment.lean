import Pagefold.Script.Statement
import Pagefold.Text.Word

/-! # Segments of a chunk

A chunk's code is cut into the statements it holds and the stretches of other code between them.
A statement may start wherever no word character stands before it; the leftmost one is taken first,
and the search goes on behind it. -/

namespace Pagefold.Script

open Text

/-- A stretch of code, or a statement with the text it was read from. -/
inductive Segment where
  | code (text : List Char)
  | statement (text : List Char) (parsed : Statement)
deriving DecidableEq, Repr

namespace Segment

/-- The characters of the chunk that a segment covers. -/
def text : Segment → List Char
  | code text | statement text _ => text

def statement? : Segment → Option Statement
  | code _ => none
  | statement _ parsed => some parsed

/-- The stretch of code whose characters, last one first, are `code`; none if there are none. -/
def ofReversed (code : List Char) : List Segment :=
  if code.isEmpty then [] else [.code code.reverse]

/-- The segments of `code.reverse ++ s`, where no statement starts in `code`, and `glued` says
whether a word character stands before `s`.  A statement ends in a quote, a brace or a semicolon, so
what follows one is never glued. -/
def scanFrom (glued : Bool) (code s : List Char) : List Segment :=
  match s with
  | [] => ofReversed code
  | c :: r =>
    match _h : if glued then none else Statement.read? (c :: r) with
    | some (parsed, rest) =>
      ofReversed code ++
        statement ((c :: r).take ((c :: r).length - rest.length)) parsed :: scanFrom false [] rest
    | none => scanFrom (isWordChar c) (c :: code) r
termination_by s.length
decreasing_by
  · split at _h
    · simp at _h
    · exact Statement.length_of_read? _h
  · simp

/-- The segments of a chunk's code. -/
def scan (code : String) : List Segment := scanFrom false [] code.toList

end Segment

end Pagefold.Script
