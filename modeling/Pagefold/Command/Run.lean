import Pagefold.Command.Failure
import Pagefold.Command.Line
import Pagefold.Command.Status
import Pagefold.Config.Discovery
import Pagefold.Fold.Directory
import Pagefold.Json.Printer
import Pagefold.Log.Line

/-! # Carrying out a request

A request is carried out on a tree of files under the variables of an environment (`run`).  What it
leaves are the files, the texts for the two streams of the program, and whether it succeeded.  The log
stands in front of the status lines, also when the run fails. -/

namespace Pagefold.Command

open Log

/-- What carrying out a request leaves. -/
structure Outcome where
  files : FileTree
  /-- The text for standard output. -/
  output : String := ""
  /-- The text for standard error. -/
  notes : String := ""
  result : Except Failure Unit

/-- The outcome of a request that failed. -/
def Outcome.failed (files : FileTree) (notes : String) (failure : Failure) : Outcome where
  files := files
  notes := notes
  result := .error failure

/-! ### The view of the log -/

/-- The filter that was asked for: by the flags, else by `RUST_LOG`, else by the configuration.
Without all of these the log tells of warnings. -/
def chosenFilter (env : List (String × String)) (flags : Flags)
    (configured? : Option Verbosity) : Filter :=
  if flags.verbose || flags.quiet then .uniform flags.verbosity
  else
    ((env.lookup "RUST_LOG").bind Filter.parse?).getD
      (.uniform (configured?.getD flags.verbosity))

/-- Whether the log is coloured.  `NO_COLOR` outdoes `FORCE_COLOR`. -/
def wantsColour (env : List (String × String)) (flags : Flags) : Bool :=
  let has (name : String) : Bool := env.any (·.1 == name)
  !flags.noColour && !has "NO_COLOR" && has "FORCE_COLOR"

def viewOf (env : List (String × String)) (flags : Flags)
    (configured? : Option Verbosity) : View :=
  ⟨chosenFilter env flags configured?, wantsColour env flags⟩

/-! ### Folding -/

namespace FoldRequest

/-- Options with the flags of a request laid over them. -/
def overOptions (r : FoldRequest) (o : Options) : Options :=
  { o with
    patterns := if r.patterns.isEmpty then o.patterns else r.patterns
    deleteFolded := o.deleteFolded && !r.keepFolded
    removePreload := o.removePreload || r.removePreload
    cdata := o.cdata || r.cdata
    stripComments := o.stripComments && !r.keepComments }

/-- The configuration for a request: of the file that it names or the one in the current directory,
under its profile, and with its flags. -/
def config (r : FoldRequest) (t : FileTree) (env : List (String × String)) :
    Except ConfigError Config := do
  let base ← match r.config? with
    | some path => Config.loadFile t env path
    | none => Config.loadOrDefault t env ""
  let c ← base.withProfile r.profile?
  let c := { c with options := r.overOptions c.options }
  c.check.mapError .flawed
  return c

end FoldRequest

/-- The verbosity that a configuration asks for. -/
def configuredVerbosity (c : Config) : Except UnknownVerbosity (Option Verbosity) :=
  match c.settings.logLevel? with
  | none => .ok none
  | some level => (Verbosity.read level).map some

/-- Nothing, unless a path leads to no directory. -/
def checkDirectory (t : FileTree) (path : String) : Except Failure Unit :=
  match t.find path with
  | .ok .directory => .ok ()
  | .ok (.file _) => .error (.notDirectory path)
  | .error .notFound => .error (.noDirectory path)
  | .error error => .error (.file error)

/-- How many bytes some files below a directory have together. -/
def sizeOfAll (t : FileTree) (directory : String) : (names : List String) → Except FileError Nat
  | [] => .ok 0
  | name :: rest => do
    let bytes ← t.read (String.ofList (Path.join directory.toList name.toList))
    return bytes.size + (← sizeOfAll t directory rest)

/-- The note that a directory is about to be folded. -/
def startedEvent (directory : String) : Event :=
  ⟨.debug, .command, "inlining build", [("dir", .bare directory)]⟩

/-- What is told of a report: on standard output, and on standard error behind the log. -/
def told (flags : Flags) (r : FoldRequest) (t : FileTree) (report : Fold.Report) :
    Except Failure (String × String) :=
  if r.json then .ok (report.toJson.pretty ++ "\n", "")
  else if flags.quiet then .ok ("", "")
  else
    match sizeOfAll t (r.output?.getD r.directory) (report.documents.map (·.name)) with
    | .ok bytes => .ok ("", summary report bytes)
    | .error error => .error (.file error)

/-- Folds a directory under a configuration, seen through a view of the log. -/
def foldWith (flags : Flags) (r : FoldRequest) (t : FileTree) (options : Options)
    (selection : Glob.Selection) (view : View) : Outcome :=
  match checkDirectory t r.directory with
  | .error failure => .failed t "" failure
  | .ok () =>
    let disk := Fold.runDirectory options selection t r.directory r.output?
    let log := view.text (startedEvent r.directory :: disk.log)
    match disk.result with
    | .error error => .failed disk.files log (.build error)
    | .ok report =>
      match told flags r disk.files report with
      | .error failure => .failed disk.files log failure
      | .ok (output, status) => { files := disk.files, output, notes := log ++ status, result := .ok () }

/-- What a request to fold needs of its configuration. -/
def prepare (flags : Flags) (r : FoldRequest) (t : FileTree) (env : List (String × String)) :
    Except Failure (Options × Glob.Selection × View) := do
  let c ← (r.config t env).mapError .config
  let configured? ← (configuredVerbosity c).mapError .verbosity
  let selection ← c.options.selection.mapError fun flaw => .config (.flawed flaw)
  return (c.options, selection, viewOf env flags configured?)

def fold (flags : Flags) (r : FoldRequest) (t : FileTree) (env : List (String × String)) :
    Outcome :=
  match prepare flags r t env with
  | .error failure => .failed t "" failure
  | .ok (options, selection, view) => foldWith flags r t options selection view

/-! ### Linking -/

/-- Writes a linked script to a file, whose directory is made as needed. -/
def writeScript (t : FileTree) (path script : String) : FileTree × Except Failure Unit :=
  let write (t : FileTree) : FileTree × Except Failure Unit :=
    match t.write path (script ++ "\n").toUTF8 with
    | .ok t => (t, .ok ())
    | .error error => (t, .error (.notWritten path error))
  match (Path.parent? path.toList).filter (!·.isEmpty) with
  | none => write t
  | some parent =>
    match t.makePath (String.ofList parent) with
    | (t, .ok ()) => write t
    | (t, .error error) => (t, .error (.file error))

/-- Puts a linked script where it is wanted; `notes` is what was told before. -/
def deliver (flags : Flags) (r : LinkRequest) (t : FileTree) (flat : Link.Flat) (notes : String) :
    Outcome :=
  match r.output? with
  | none => { files := t, output := flat.script ++ "\n", notes, result := .ok () }
  | some path =>
    match writeScript t path flat.script with
    | (t, .error failure) => .failed t notes failure
    | (t, .ok ()) =>
      let status :=
        if flags.quiet then ""
        else Status.line .done s!"Linked {flat.consumed.length} chunk(s) into {path}"
      { files := t, notes := notes ++ status, result := .ok () }

def link (flags : Flags) (r : LinkRequest) (t : FileTree) (env : List (String × String)) :
    Outcome :=
  let view := viewOf env flags none
  match checkDirectory t r.directory with
  | .error failure => .failed t "" failure
  | .ok () =>
    match Build.read t r.directory with
    | .error error => .failed t "" (.build error)
    | .ok build =>
      let reading := Fold.readEvent r.directory build
      let linker := Link.Linker.ofChunks build.chunks (r.lead?.getD ({} : Options).lead)
      match linker.link r.entry none with
      | .error error => .failed t (view.text [reading]) (.link error)
      | .ok flat =>
        deliver flags r t flat (view.text (reading :: flat.log) ++ diagnosticLines flat.diagnostics)

/-! ### Requests -/

/-- The directories that a request looks into or writes below. -/
def Request.directories : Request → List String
  | .fold r => r.directory :: r.output?.toList
  | .link r => [r.directory]

/-- The single files that a request looks at or writes. -/
def Request.files : Request → List String
  | .fold r => r.config?.elim [Config.tomlName, Config.packageName] fun path => [path]
  | .link r => r.output?.toList

/-- Carries out what was asked for. -/
def run (t : FileTree) (env : List (String × String)) (i : Invocation) : Outcome :=
  match i.request with
  | .fold r => fold i.flags r t env
  | .link r => link i.flags r t env

end Pagefold.Command
