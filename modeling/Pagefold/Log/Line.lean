import Pagefold.Log.Filter
import Pagefold.Terminal.Style
import Pagefold.Text.Quoted

/-! # Lines of a log

How the events of a log are told to a reader: one line each, with the level, the message and the named
values (`Event.line`).  `View.text` is all that a reader sees of a log. -/

namespace Pagefold.Log

open Terminal

/-- The colour of a level. -/
def Level.colour : Level → Colour
  | error => .red
  | warn => .yellow
  | info => .green
  | debug => .blue
  | trace => .purple

/-- How a reader sees a log. -/
structure View where
  filter : Filter
  isColoured : Bool

/-- The name of a level in capitals, in a column of five. -/
def Level.column (level : Level) : String :=
  "".pushn ' ' (5 - level.name.length) ++ level.name.map Char.toUpper

/-- A character of a message.  One that could steer a terminal is written by its number. -/
def messageChar (c : Char) : List Char :=
  if c == '\x1b' then ['\\', 'x', '1', 'b']
  else if c == '\x07' then ['\\', 'x', '0', '7']
  else if c == '\x08' then ['\\', 'x', '0', '8']
  else if c == '\x0c' then ['\\', 'x', '0', 'c']
  else if c == '\x7f' then ['\\', 'x', '7', 'f']
  else if 0x80 ≤ c.toNat && c.toNat ≤ 0x9f then
    ['\\', 'u', '\x7b'] ++ Nat.toDigits 16 c.toNat ++ ['\x7d']
  else [c]

def FieldValue.text : FieldValue → String
  | quoted text => Text.quoted text
  | bare text => text

namespace View

def level (v : View) (level : Level) : String :=
  if v.isColoured then painted level.colour level.column else level.column

def field (v : View) (name : String) (value : FieldValue) : String :=
  (if v.isColoured then italic name ++ dim "=" else name ++ "=") ++ value.text

/-- The line of an event. -/
def line (v : View) (e : Event) : String :=
  let message := String.ofList (e.message.toList.flatMap messageChar)
  let fields := e.fields.map fun (name, value) => v.field name value
  " ".intercalate (v.level e.level :: message :: fields) ++ "\n"

/-- The lines of the events that are told. -/
def text (v : View) (log : List Event) : String :=
  String.join ((log.filter v.filter.admits).map v.line)

end View

end Pagefold.Log
