import Pagefold.Log.Event
import Pagefold.Text.Lowercase

/-! # Verbosity

How much of a log is told: nothing, or the events down to a level.  A verbosity is given by name
(`Verbosity.read`), in letters of any case. -/

namespace Pagefold.Log

inductive Verbosity where
  | silent
  | upTo (level : Level)
deriving DecidableEq, Repr

namespace Verbosity

/-- How far down events are told. -/
def depth : Verbosity → Nat
  | silent => 0
  | upTo level => level.depth

/-- Whether events of a level are told. -/
def admits (v : Verbosity) (level : Level) : Bool := level.depth ≤ v.depth

def name : Verbosity → String
  | silent => "off"
  | upTo level => level.name

/-- All verbosities, from nothing to everything. -/
def all : List Verbosity := silent :: Level.all.map upTo

/-- The verbosity of a name; two have a second one. -/
def ofName? : (name : String) → Option Verbosity
  | "silent" => some silent
  | "warning" => some (upTo .warn)
  | name => all.find? (·.name == name)

theorem ofName?_name (v : Verbosity) : ofName? v.name = some v := by
  cases v with
  | silent => decide
  | upTo level => cases level <;> decide

end Verbosity

/-- A name that no verbosity has, in small letters. -/
structure UnknownVerbosity where
  name : String
deriving DecidableEq, Repr

def UnknownVerbosity.message (e : UnknownVerbosity) : String := s!"Invalid log level: {e.name}"

/-- The verbosity that a text names. -/
def Verbosity.read (text : String) : Except UnknownVerbosity Verbosity :=
  let name := Text.lowercase text
  match ofName? name with
  | some v => .ok v
  | none => .error ⟨name⟩

end Pagefold.Log
