import Pagefold.Json.Decode

/-! # Sources of a configuration

Where the values of a configuration come from, and how a source speaks of a value that does not
fit: by the kind under which it holds the value, by the key that leads to it there, and by its own
name. -/

namespace Pagefold

open Json

inductive Source where
  | defaults
  /-- A file in TOML, by its path from the current directory. -/
  | tomlFile (path : String)
  /-- A file in JSON. -/
  | jsonFile (path : String)
  /-- The field of a package description. -/
  | packageField
  | environment
deriving DecidableEq, Repr

namespace Source

/-- How the names of the variables of the environment begin. -/
def variableLead : String := "INLAY_"

def name : Source → String
  | defaults => "default values"
  | tomlFile path => s!"{path} TOML file"
  | jsonFile path => s!"{path} JSON file"
  | packageField => "JSON source string"
  | environment => s!"`{variableLead}` environment variable(s)"

/-- The key of a value, as one would look for it in the source. -/
def key (source : Source) (path : List String) : String :=
  match source with
  | environment => ".".intercalate (path.map fun step => step.map Char.toUpper)
  | _ => ".".intercalate ("default" :: path)

/-- Whether a source holds a whole number as one that has a sign. -/
def holdsSigned (source : Source) (n : Int) : Bool :=
  match source with
  | tomlFile _ => true
  | _ => n < 0

end Source

/-- A value in a source. -/
structure SourceValue where
  source : Source
  value : Json
  /-- Whether the value is a zero with a minus, which is held as a number that has a sign. -/
  minusZero : Bool

namespace SourceValue

def account (v : SourceValue) : String :=
  match v.value with
  | null => "unit"
  | .bool b => s!"bool {b}"
  | number (.int n) =>
    (if v.source.holdsSigned n || v.minusZero then "signed" else "unsigned") ++ s!" int `{n}`"
  | number (.float x) => "float `" ++ plainText x ++ "`"
  | string s => "string " ++ Text.quoted s
  | array _ => "sequence"
  | object _ => "map"

/-- What is said of a value that does not fit. -/
def complaint (v : SourceValue) : Misfit → String
  | .wrongKind _ expected => s!"invalid type: found {v.account}, expected {expected}"
  | .wrongValue _ expected => s!"invalid value {v.account}, expected {expected}"
  | misfit => misfit.message

/-- The complaint about the value at a path, with its key and its source. -/
def report (v : SourceValue) (e : DecodeError) : String :=
  v.complaint e.misfit ++ " for key " ++ Text.quoted (v.source.key e.path) ++ " in " ++ v.source.name

end SourceValue

end Pagefold
