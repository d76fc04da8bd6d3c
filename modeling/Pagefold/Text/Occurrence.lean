import Pagefold.Text.Bytes

/-! # Occurrences of a pattern

A pattern is given by a reader, which reads one instance off the front of a text and returns what it
found and the rest.  `occurrences` finds the instances in a text from left to right, the next one
always behind the one before. -/

namespace Pagefold.Text

/-- An instance of a pattern, with the positions of its first byte and of the byte behind it. -/
structure Occurrence (α : Type) where
  start : Nat
  stop : Nat
  value : α
deriving Repr

/-- The instances in `s`, a text that starts at `position`.  An instance counts only if something is
read for it. -/
def occurrencesFrom {α : Type} (read : List Char → Option (α × List Char)) (position : Nat)
    (s : List Char) : List (Occurrence α) :=
  match s with
  | [] => []
  | c :: tail =>
    match read (c :: tail) with
    | none => occurrencesFrom read (position + c.utf8Size) tail
    | some (value, rest) =>
      if _h : rest.length < (c :: tail).length then
        let stop := position + byteSize ((c :: tail).take ((c :: tail).length - rest.length))
        ⟨position, stop, value⟩ :: occurrencesFrom read stop rest
      else occurrencesFrom read (position + c.utf8Size) tail
termination_by s.length
decreasing_by
  · exact Nat.lt_succ_self _
  · exact _h
  · exact Nat.lt_succ_self _

/-- The instances in a text. -/
def occurrences {α : Type} (read : List Char → Option (α × List Char)) (s : List Char) :
    List (Occurrence α) :=
  occurrencesFrom read 0 s

end Pagefold.Text
