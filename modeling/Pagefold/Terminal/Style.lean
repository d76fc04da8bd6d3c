/-! # Terminal styles

Texts with the codes that make a terminal show them in a style.  A style opens with its code and is
closed by another one; styles can be nested. -/

namespace Pagefold.Terminal

/-- The sequence that sends a code to a terminal. -/
def sequence (code : Nat) : String := s!"\x1b[{code}m"

/-- A text between an opening and a closing code. -/
def between (opening closing : Nat) (text : String) : String :=
  sequence opening ++ text ++ sequence closing

inductive Colour where
  | red
  | green
  | yellow
  | blue
  | purple
deriving DecidableEq, Repr

def Colour.code : Colour → Nat
  | red => 31
  | green => 32
  | yellow => 33
  | blue => 34
  | purple => 35

/-- The code that ends all styles. -/
def plain : Nat := 0

/-- The code that ends a colour alone. -/
def plainColour : Nat := 39

def bold (text : String) : String := between 1 plain text

def dim (text : String) : String := between 2 plain text

def italic (text : String) : String := between 3 plain text

/-- A text in a colour, inside whatever other style it stands in. -/
def coloured (colour : Colour) (text : String) : String := between colour.code plainColour text

/-- A text that is steered by nothing else than its colour. -/
def painted (colour : Colour) (text : String) : String := between colour.code plain text

end Pagefold.Terminal
