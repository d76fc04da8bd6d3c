import Pagefold.Diagnostic
import Pagefold.Link.Catalog
import Pagefold.Script.Statement

/-! # Findings

What linking and folding can find wrong without stopping, as causes with the things they concern.
Each finding has one diagnostic (`Finding.diagnostic`). -/

namespace Pagefold

open Link Script

inductive Finding where
  /-- A source of `chunk` is a URL. -/
  | externalImport (chunk source : String)
  /-- A source of `chunk` leads to no chunk. -/
  | unresolvedImport (chunk source : String) (error : LinkError)
  /-- A source of `chunk` fits several chunks by file name. -/
  | ambiguousImport (chunk source : String) (located : Located)
  /-- A source of `chunk` means the entry. -/
  | entryImported (chunk source : String)
  /-- The chunks of a closed path import each other. -/
  | circularImports (cycle : List String)
  /-- `chunk` takes a name from `target` that `target` does not export. -/
  | missingExport (chunk source target : String) (binding : Binding)
  /-- An export clause of `chunk` that is not its first one. -/
  | duplicateExportClause (chunk clause : String)
  /-- The reference to the entry fits several chunks by file name. -/
  | ambiguousEntry (reference : String) (located : Located)
  /-- A document that cannot be read as text. -/
  | undecodedDocument (document : String)
  /-- A script of `document` leads to no chunk. -/
  | unresolvedScript (document source : String)
  /-- A script of `document` fits several chunks by file name. -/
  | ambiguousScript (document source : String) (located : Located)
  /-- A stylesheet of `document` is not in the build. -/
  | unresolvedStylesheet (document reference : String)
  /-- A stylesheet of `document` that cannot be read as text. -/
  | undecodedStylesheet (document reference stylesheet : String)
deriving DecidableEq, Repr

namespace Finding

def kind : Finding → DiagnosticKind
  | externalImport .. | unresolvedImport .. => .unresolvedImport
  | ambiguousImport .. | ambiguousEntry .. | ambiguousScript .. => .ambiguousImport
  | entryImported .. => .entryImported
  | circularImports .. => .circularDependency
  | missingExport .. => .missingExport
  | duplicateExportClause .. => .duplicateExportClause
  | unresolvedScript .. | unresolvedStylesheet .. => .unresolvedEntry
  | undecodedDocument .. | undecodedStylesheet .. => .unsupportedAsset

/-- Only a URL among the sources is no reason to warn. -/
def severity : Finding → Severity
  | externalImport .. => .info
  | _ => .warning

/-- How a choice among chunks of one file name is told. -/
def choice (subject : String) (located : Located) : String :=
  s!"{subject} matches {located.candidates} chunks by file name, using {located.id}"

def message : Finding → String
  | externalImport _ source => s!"'{source}' is not a local chunk and stays an import"
  | unresolvedImport _ _ error => error.message
  | ambiguousImport _ source located => choice s!"'{source}'" located
  | entryImported _ source => s!"'{source}' refers to the entry chunk, which is never wrapped"
  | circularImports cycle => "circular chunk imports: " ++ " -> ".intercalate cycle
  | missingExport _ _ target binding => s!"'{binding.name}' is not exported by {target}"
  | duplicateExportClause .. => "only the first export clause of a chunk is honored"
  | ambiguousEntry reference located => choice s!"entry '{reference}'" located
  | undecodedDocument document => s!"document '{document}' is not valid UTF-8, skipped"
  | unresolvedScript _ source => (LinkError.noEntry source).message
  | ambiguousScript _ source located => choice s!"script '{source}'" located
  | unresolvedStylesheet _ reference => s!"stylesheet '{reference}' is not part of the build"
  | undecodedStylesheet _ _ stylesheet => s!"stylesheet '{stylesheet}' is not valid UTF-8"

/-- The chunk or document in which the finding was made.  A cycle belongs to its first chunk. -/
def chunk? : Finding → Option String
  | externalImport chunk _ | unresolvedImport chunk .. | ambiguousImport chunk ..
  | entryImported chunk _ | missingExport chunk .. | duplicateExportClause chunk _ => some chunk
  | circularImports cycle => some (cycle.headD "")
  | ambiguousEntry .. => none
  | undecodedDocument document | unresolvedScript document _ | ambiguousScript document ..
  | unresolvedStylesheet document _ | undecodedStylesheet document .. => some document

def reference? : Finding → Option String
  | externalImport _ source | unresolvedImport _ source _ | ambiguousImport _ source _
  | entryImported _ source | missingExport _ source .. | unresolvedScript _ source
  | ambiguousScript _ source _ => some source
  | ambiguousEntry reference _ | unresolvedStylesheet _ reference
  | undecodedStylesheet _ reference _ => some reference
  | circularImports _ | duplicateExportClause .. | undecodedDocument _ => none

def help? : Finding → Option String
  | unresolvedImport .. => some "the statement is left untouched and its bindings stay unset"
  | circularImports _ =>
    some "chunks on a cycle may observe each other's bindings before initialization"
  | missingExport _ _ _ binding => some s!"'{binding.newName}' will be undefined"
  | duplicateExportClause _ clause => some clause
  | unresolvedScript .. => some "the script tag is left unchanged"
  | _ => none

def diagnostic (f : Finding) : Diagnostic :=
  ⟨f.kind, f.severity, f.message, f.chunk?, f.reference?, f.help?⟩

end Finding

end Pagefold
