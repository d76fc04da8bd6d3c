import Pagefold.Config.Source
import Pagefold.Files.Tree
import Pagefold.Glob.Pattern

/-! # Configuration errors

Why there is no configuration to work with, as causes.  Each cause has a message, and where there is
something to mend also a hint. -/

namespace Pagefold

/-- Why a configuration that can be read cannot be used. -/
inductive ConfigFlaw where
  | blankPattern
  | badPattern (pattern : String) (fault : Glob.Fault)
  /-- The opening of names cannot begin a name. -/
  | badLead (lead : String)
  /-- No document may be planned at all. -/
  | noJobs
deriving DecidableEq, Repr

inductive ConfigError where
  /-- There is no configuration file. -/
  | notFound
  | unreadable (error : FileError)
  /-- A file is not in the format that its name promises. -/
  | malformed (source : Source)
  /-- A file is no text. -/
  | undecoded (source : Source)
  /-- A package description is not in its format. -/
  | malformedPackage
  /-- A package description has no field for the configuration. -/
  | noPackageField
  /-- A value does not fit. -/
  | unfit (error : Json.DecodeError)
  /-- A value of a source does not fit. -/
  | unfitIn (value : SourceValue) (error : Json.DecodeError)
  | unknownProfile (name : String)
  /-- A configuration does not fit after a profile's overrides. -/
  | unfitProfile (error : Json.DecodeError)
  | flawed (flaw : ConfigFlaw)

namespace ConfigFlaw

def message : ConfigFlaw → String
  | blankPattern => "inline patterns cannot be empty"
  | badPattern pattern fault =>
    "invalid inline pattern '" ++ pattern ++ "': error parsing glob '" ++ pattern ++ "': "
      ++ fault.message
  | badLead lead => s!"namespace prefix '{lead}' is not a valid identifier start"
  | noJobs => "parallel_jobs must be at least 1"

def hint : ConfigFlaw → String
  | blankPattern => "Remove empty strings from 'inline_pattern'"
  | badPattern .. => "Use glob syntax such as 'assets/*.js' or '**/*.css'"
  | badLead _ => "Use letters, digits, '_' or '$', not starting with a digit"
  | noJobs => "Leave parallel_jobs unset to use every core"

end ConfigFlaw

namespace ConfigError

/-- The field that an error of a value concerns. -/
def field? : ConfigError → Option String
  | malformed _ | undecoded _ | unfit _ => some "config"
  | malformedPackage => some "package.json"
  | noPackageField => some "inlay"
  | unfitIn _ error => some (".".intercalate error.path)
  | _ => none

def hint? : ConfigError → Option String
  | malformed source => some s!"not well-formed in {source.name}"
  | undecoded source =>
    let lineEnd := match source with
      | .tomlFile _ => "\n"
      | _ => ""
    some (FileError.notText.message ++ lineEnd ++ " in " ++ source.name)
  | malformedPackage => some "Invalid JSON"
  | noPackageField => some "Add an 'inlay' object to your package.json"
  | unfit error => some error.message
  | unfitIn value error => some (value.report error)
  | flawed flaw => some flaw.hint
  | _ => none

/-- Whether the hint is about the format of a text, and not about a value. -/
def isMalformed : ConfigError → Bool
  | malformed _ | malformedPackage => true
  | _ => false

def message : ConfigError → String
  | notFound => "config not found"
  | unreadable error => s!"I/O error: {error.message}"
  | unknownProfile name => s!"unknown profile: {name}"
  | unfitProfile error => s!"invalid profile override: {error.message}"
  | flawed flaw => s!"schema validation failed: {flaw.message}"
  | error => "invalid config value for '" ++ error.field?.getD "" ++ "'"

end ConfigError

end Pagefold
