/-! # Log events

What the parts of a run note while they work: a level, the part that speaks, a message, and named
values.  Nothing else depends on the log. -/

namespace Pagefold.Log

/-- From the fewest events to the most. -/
inductive Level where
  | error
  | warn
  | info
  | debug
  | trace
deriving DecidableEq, Repr

namespace Level

/-- How far down a level lies. -/
def depth : Level → Nat
  | error => 1
  | warn => 2
  | info => 3
  | debug => 4
  | trace => 5

/-- All levels, from the fewest events to the most. -/
def all : List Level := [error, warn, info, debug, trace]

def name : Level → String
  | error => "error"
  | warn => "warn"
  | info => "info"
  | debug => "debug"
  | trace => "trace"

end Level

/-- The parts of a run that speak. -/
inductive Speaker where
  | collector
  | surveyor
  | sequencer
  | flattener
  | linker
  | preloadRemover
  | build
  | folder
  | command
deriving DecidableEq, Repr

/-- The address by which a filter names a part. -/
def Speaker.address : Speaker → String
  | collector => "inlay_link::diagnostics"
  | surveyor => "inlay_link::graph"
  | sequencer => "inlay_link::sequence"
  | flattener => "inlay_link::rewrite"
  | linker => "inlay_link::assemble"
  | preloadRemover => "inlay::loader"
  | build => "inlay::bundle"
  | folder => "inlay::inline"
  | command => "inlay_cli::commands::inline"

/-- A named value, written in quotes or as it is. -/
inductive FieldValue where
  | quoted (text : String)
  | bare (text : String)
deriving DecidableEq, Repr

structure Event where
  level : Level
  speaker : Speaker
  message : String
  fields : List (String × FieldValue)
deriving DecidableEq, Repr

end Pagefold.Log
