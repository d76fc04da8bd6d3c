import Pagefold.Text.Blank
import Pagefold.Text.Caseless

/-! # Stylesheets

A stylesheet goes into a page as a `style` element, without its comments if that is asked for.
Comments are found by the lexical rules of stylesheets: inside a string nothing opens a comment, and
a comment ends at the first `*/` behind its opening. -/

namespace Pagefold.Page

open Text

/-- Passes the rest of a string literal up to its quote.  A backslash takes the next character with
it.  The characters passed come last one first. -/
def passString (quote : Char) (front : List Char) : List Char → List Char × List Char
  | [] => (front, [])
  | '\\' :: c :: rest => passString quote (c :: '\\' :: front) rest
  | c :: rest => if c == quote then (c :: front, rest) else passString quote (c :: front) rest

/-- What follows the end of a comment; nothing if it has none. -/
def afterComment : List Char → List Char
  | '*' :: '/' :: rest => rest
  | _ :: rest => afterComment rest
  | [] => []

theorem length_passString_le (quote : Char) (front s : List Char) :
    (passString quote front s).2.length ≤ s.length := by
  fun_induction passString quote front s with
  | case1 => simp
  | case2 _ _ _ ih => simp; omega
  | case3 => simp
  | case4 _ _ _ _ _ ih => simp; omega

theorem length_afterComment_le (s : List Char) : (afterComment s).length ≤ s.length := by
  fun_induction afterComment s with
  | case1 => simp; omega
  | case2 _ _ _ ih => simp; omega
  | case3 => simp

/-- Goes on dropping comments, with the characters kept so far last one first. -/
def stripCommentsFrom (kept s : List Char) : List Char :=
  match s with
  | [] => kept.reverse
  | '/' :: '*' :: rest => stripCommentsFrom kept (afterComment rest)
  | c :: rest =>
    if c == '"' || c == '\'' then
      stripCommentsFrom (passString c (c :: kept) rest).1 (passString c (c :: kept) rest).2
    else stripCommentsFrom (c :: kept) rest
termination_by s.length
decreasing_by
  · have := length_afterComment_le rest
    simp
    omega
  · have := length_passString_le c (c :: kept) rest
    simp
    omega
  · simp

/-- A stylesheet without its comments. -/
def stripComments (css : String) : String := String.ofList (stripCommentsFrom [] css.toList)

/-- A `style` element that holds a stylesheet. -/
def styleElement (css : String) : String :=
  "<style>" ++ String.ofList (guardClosing ['s', 't', 'y', 'l', 'e'] css.toList) ++ "</style>"

end Pagefold.Page
