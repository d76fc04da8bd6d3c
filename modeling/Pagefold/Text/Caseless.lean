/-! # Letters without regard to case

Keywords of markup are recognised in any case.  Two characters count as the same when their simple
case foldings agree; of the lower-case ASCII letters, `s` is also folded to from U+017F and `k` from
U+212A. -/

namespace Pagefold.Text

/-- Whether a character folds to the lower-case ASCII letter `letter`. -/
def foldsTo (letter c : Char) : Bool :=
  c == letter || c == letter.toUpper || (letter == 's' && c == '\u017f')
    || (letter == 'k' && c == '\u212a')

/-- What follows a word of lower-case ASCII letters that a text opens with, in any case. -/
def dropCaseless? : (word : List Char) → List Char → Option (List Char)
  | [], s => some s
  | letter :: word, c :: s => if foldsTo letter c then dropCaseless? word s else none
  | _ :: _, [] => none

/-- Puts a backslash behind each `<` that a slash and `word` follow. -/
def guardClosingFrom (word front : List Char) : List Char → List Char
  | [] => front.reverse
  | c :: rest =>
    if c == '<' && rest.head? == some '/' && (dropCaseless? word rest.tail).isSome then
      guardClosingFrom word ('\\' :: c :: front) rest
    else guardClosingFrom word (c :: front) rest

/-- A text in which no closing tag of the element `word` is left: each `</word` gets a backslash
behind its `<`. -/
def guardClosing (word s : List Char) : List Char := guardClosingFrom word [] s

end Pagefold.Text
