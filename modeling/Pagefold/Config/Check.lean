import Pagefold.Config.Error
import Pagefold.Config.Options
import Pagefold.Glob.Selection
import Pagefold.Text.Blank

/-! # Using a configuration

`Config.withProfile` lays the overrides of a profile over a configuration, and `Config.check` says
whether a configuration can be used. -/

namespace Pagefold

open Json

/-- Whether a character may stand in a name. -/
def isNameChar (c : Char) : Bool := c.isAlphanum || c == '_' || c == '$'

/-- Whether a text can begin a name in scripts. -/
def opensName (s : List Char) : Bool :=
  match s with
  | [] => false
  | c :: rest => (c.isAlpha || c == '_' || c == '$') && rest.all isNameChar

/-! ### Profiles -/

/-- A value with overrides laid over what it is written as. -/
def overridden {α : Type} (write : α → Json) (decode : Decoder α) (base : α) (override : Json) :
    Except ConfigError α :=
  match override with
  | null => .ok base
  | _ => (decode (merge (write base) override)).mapError .unfitProfile

namespace Config

/-- The configuration that an object describes. -/
def ofJson (json : Json) : Except ConfigError Config := (decode true json).mapError .unfit

/-- The configuration under a profile, if one is asked for. -/
def withProfile (c : Config) : (profile? : Option String) → Except ConfigError Config
  | none => .ok c
  | some name =>
    match c.profiles.get? name with
    | none => .error (.unknownProfile name)
    | some profile => do
      let options ← overridden Options.toJson (Options.decode true) c.options profile.options
      let settings ← overridden Settings.toJson (Settings.decode true) c.settings profile.settings
      return { c with options, settings }

end Config

/-! ### Checks -/

/-- The files that options select. -/
def Options.selection (o : Options) : Except ConfigFlaw Glob.Selection :=
  (Glob.Selection.ofPatterns o.patterns).mapError fun (pattern, fault) => .badPattern pattern fault

/-- Nothing, unless something keeps the configuration from being used. -/
def Config.check (c : Config) : Except ConfigFlaw Unit := do
  if c.options.patterns.any Text.allBlank then .error .blankPattern
  let _ ← c.options.selection
  if !opensName c.options.lead.toList then .error (.badLead c.options.lead)
  if c.settings.jobs? == some 0 then .error .noJobs

end Pagefold
