import Pagefold.Command.Arguments
import Pagefold.Log.Verbosity

/-! # The command line

What the program can be asked to do (`Invocation`) and how it is asked (`Invocation.read`): by the
name of a command, with flags for the whole program in front of it and with the arguments of the
command, flags for the whole program among them, behind it. -/

namespace Pagefold.Command

/-- Flags for the whole program. -/
structure Flags where
  verbose : Bool := false
  quiet : Bool := false
  noColour : Bool := false
deriving DecidableEq, Repr

/-- How much is told when nothing but the flags is asked. -/
def Flags.verbosity (f : Flags) : Log.Verbosity :=
  if f.verbose then .upTo .debug else if f.quiet then .upTo .error else .upTo .warn

/-- What is to be folded, and how. -/
structure FoldRequest where
  directory : String
  output? : Option String := none
  config? : Option String := none
  profile? : Option String := none
  patterns : List String := []
  keepFolded : Bool := false
  removePreload : Bool := false
  cdata : Bool := false
  keepComments : Bool := false
  /-- Whether the report is wanted in place of a summary. -/
  json : Bool := false
deriving DecidableEq, Repr

/-- What is to be linked, and how. -/
structure LinkRequest where
  directory : String
  entry : String
  output? : Option String := none
  lead? : Option String := none
deriving DecidableEq, Repr

inductive Request where
  | fold (request : FoldRequest)
  | link (request : LinkRequest)
deriving DecidableEq, Repr

structure Invocation where
  flags : Flags
  request : Request
deriving DecidableEq, Repr

/-! ### What each command takes -/

/-- The options that both commands and the program itself take. -/
def commonOptions : List OptionSpec :=
  [{ name := "verbose", short? := some 'v' }, { name := "quiet", short? := some 'q' },
    { name := "no-color" }, { name := "help", short? := some 'h', kind := .stop .helpAsked }]

def exclusiveOptions : List (String × String) := [("quiet", "verbose")]

def programLevel : Level where
  options := commonOptions
    ++ [{ name := "version", short? := some 'V', kind := .stop .versionAsked }]
  exclusive := exclusiveOptions

inductive CommandName where
  | inline
  | link
deriving DecidableEq, Repr

namespace CommandName

def all : List CommandName := [inline, link]

def text : CommandName → String
  | inline => "inline"
  | link => "link"

def ofText? (text : String) : Option CommandName := all.find? (·.text == text)

theorem ofText?_text (name : CommandName) : ofText? name.text = some name := by
  cases name <;> decide

def level : CommandName → Level
  | inline =>
    { options := commonOptions
        ++ [{ name := "out-dir", short? := some 'o', kind := .value .path },
          { name := "config", short? := some 'c', kind := .value .path },
          { name := "profile", short? := some 'p', kind := .value .text },
          { name := "pattern", kind := .value .text, repeats := true },
          { name := "keep-inlined" }, { name := "remove-module-loader" }, { name := "cdata" },
          { name := "no-strip-css-comments" }, { name := "json" }]
      exclusive := exclusiveOptions
      operands := [("DIR", .path)] }
  | link =>
    { options := commonOptions
        ++ [{ name := "output", short? := some 'o', kind := .value .path },
          { name := "namespace-prefix", kind := .value .lead }]
      exclusive := exclusiveOptions
      operands := [("DIR", .path), ("ENTRY", .text)] }

end CommandName

/-- The name under which help is asked for. -/
def helpName : String := "help"

/-! ### What was given -/

namespace Progress

def value? (p : Progress) (name : String) : Option String := p.given.lookup name

/-- All values of an option that may be given more than once, in order. -/
def values (p : Progress) (name : String) : List String :=
  p.given.filterMap fun (given, value) => if given == name then some value else none

end Progress

/-- The flags, which may stand on either side of the command. -/
def Flags.ofGiven (before behind : Progress) : Flags where
  verbose := before.has "verbose" || behind.has "verbose"
  quiet := before.has "quiet" || behind.has "quiet"
  noColour := before.has "no-color" || behind.has "no-color"

def FoldRequest.ofGiven (p : Progress) : FoldRequest where
  directory := (p.value? "DIR").getD ""
  output? := p.value? "out-dir"
  config? := p.value? "config"
  profile? := p.value? "profile"
  patterns := p.values "pattern"
  keepFolded := p.has "keep-inlined"
  removePreload := p.has "remove-module-loader"
  cdata := p.has "cdata"
  keepComments := p.has "no-strip-css-comments"
  json := p.has "json"

def LinkRequest.ofGiven (p : Progress) : LinkRequest where
  directory := (p.value? "DIR").getD ""
  entry := (p.value? "ENTRY").getD ""
  output? := p.value? "output"
  lead? := p.value? "namespace-prefix"

def Request.ofGiven (p : Progress) : CommandName → Request
  | .inline => .fold (.ofGiven p)
  | .link => .link (.ofGiven p)

/-! ### Reading -/

/-- What is answered to a call for help about some commands. -/
def helpAbout : List String → UsageError
  | [] => .helpAsked
  | [name] =>
    if name == helpName || (CommandName.ofText? name).isSome then .helpAsked else .unknownCommand
  | _ => .unknownCommand

/-- What is wrong with an argument in the place of a command. -/
def misplaced (p : Progress) (arg : String) : UsageError :=
  if p.onlyOperands && (arg == helpName || (CommandName.ofText? arg).isSome) then .unknownArgument
  else .unknownCommand

/-- Reads the arguments of a command; `before` is what stood in front of it. -/
def readCommand (before : Progress) (name : CommandName) (args : List String) :
    Except UsageError Invocation := do
  let p ← name.level.takeAll {} args
  name.level.checkAll p
  programLevel.checkAll before
  return ⟨.ofGiven before p, .ofGiven p name⟩

/-- Reads arguments up to a command, and on. -/
def readFrom (before : Progress) : (args : List String) → Except UsageError Invocation
  | [] => .error (if before.given.isEmpty then .nothingGiven else .missingCommand)
  | arg :: rest =>
    if !before.onlyOperands && arg == helpName then .error (helpAbout rest)
    else
      match if before.onlyOperands then none else CommandName.ofText? arg with
      | some name => readCommand before name rest
      | none => do readFrom (← programLevel.take before (misplaced before arg) arg) rest

/-- Reads a command line, without the name of the program. -/
def Invocation.read (args : List String) : Except UsageError Invocation := readFrom {} args

end Pagefold.Command
