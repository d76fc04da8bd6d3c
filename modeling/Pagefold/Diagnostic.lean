/-! # Diagnostics

The record of one problem that a run met and went on after: its kind, how serious it is, what it
says, and where it was met.  `Diagnostic.text` is how a record is written for a reader. -/

namespace Pagefold

inductive DiagnosticKind where
  | unresolvedImport
  | ambiguousImport
  | entryImported
  | missingExport
  | duplicateExportClause
  | circularDependency
  | unresolvedEntry
  | unsupportedAsset
deriving DecidableEq, Repr

namespace DiagnosticKind

/-- All kinds, in the order in which they are listed to a reader. -/
def all : List DiagnosticKind :=
  [unresolvedImport, ambiguousImport, entryImported, missingExport, duplicateExportClause,
    circularDependency, unresolvedEntry, unsupportedAsset]

def name : DiagnosticKind → String
  | unresolvedImport => "unresolved_import"
  | ambiguousImport => "ambiguous_import"
  | entryImported => "entry_imported"
  | missingExport => "missing_export"
  | duplicateExportClause => "duplicate_export_clause"
  | circularDependency => "circular_dependency"
  | unresolvedEntry => "unresolved_entry"
  | unsupportedAsset => "unsupported_asset"

def ofName? (name : String) : Option DiagnosticKind := all.find? (·.name == name)

theorem ofName?_name (kind : DiagnosticKind) : ofName? kind.name = some kind := by
  cases kind <;> decide

end DiagnosticKind

inductive Severity where
  | warning
  | info
deriving DecidableEq, Repr

namespace Severity

def all : List Severity := [warning, info]

def name : Severity → String
  | warning => "warning"
  | info => "info"

def ofName? (name : String) : Option Severity := all.find? (·.name == name)

theorem ofName?_name (severity : Severity) : ofName? severity.name = some severity := by
  cases severity <;> decide

end Severity

structure Diagnostic where
  kind : DiagnosticKind
  severity : Severity
  message : String
  /-- The chunk or document in which the problem was met. -/
  chunk? : Option String
  /-- The module reference that it concerns. -/
  reference? : Option String
  help? : Option String
deriving DecidableEq, Repr

namespace Diagnostic

def isWarning (d : Diagnostic) : Bool := d.severity == .warning

/-- One line, and a second one for the help. -/
def text (d : Diagnostic) : String :=
  "[" ++ d.kind.name ++ "] " ++ d.message
    ++ (d.chunk?.elim "" fun chunk => " (in " ++ chunk ++ ")")
    ++ (d.help?.elim "" fun help => "\n  help: " ++ help)

/-- The diagnostics of one kind, in order. -/
def ofKind (kind : DiagnosticKind) (ds : List Diagnostic) : List Diagnostic :=
  ds.filter (·.kind == kind)

def anyWarning (ds : List Diagnostic) : Bool := ds.any isWarning

end Diagnostic

end Pagefold
