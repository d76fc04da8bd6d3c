import Pagefold.Dictionary
import Pagefold.Script.Segment

/-! # Chunks

A chunk is one unit of module code, known by the name of its file.  What it imports and exports is
read off its segments; only the first export clause of a chunk counts.  `resolved` records which
chunk each of its sources was found to mean. -/

namespace Pagefold.Script

structure Chunk where
  id : String
  code : String
  segments : List Segment
  /-- Source to the id of the chunk that it means. -/
  resolved : Dictionary String

/-- One import: a source, and the binding it fills, unless it is imported for its effects. -/
structure Import where
  source : String
  binding? : Option Binding
deriving DecidableEq, Repr

/-- One exported name, `binding.newName`: a local one, or one of another module. -/
structure Export where
  binding : Binding
  source? : Option String
deriving DecidableEq, Repr

namespace Chunk

/-- Cuts code into segments; no source is resolved yet. -/
def parse (id code : String) : Chunk := ⟨id, code, Segment.scan code, .empty⟩

def statements (c : Chunk) : List Statement := c.segments.filterMap Segment.statement?

/-- What a statement imports.  An import without bindings counts once. -/
def importsOf : Statement → List Import
  | .namedImport [] source | .bareImport source => [⟨source, none⟩]
  | .namedImport bindings source => bindings.map fun b => ⟨source, some b⟩
  | .reexport _ _ | .exportClause _ => []

def imports (c : Chunk) : List Import := c.statements.flatMap importsOf

/-- The entries of the export clauses, clause by clause. -/
def exportClauses (c : Chunk) : List (List Binding) :=
  c.statements.filterMap fun
    | .exportClause bindings => some bindings
    | _ => none

/-- The exports that a statement takes over from another module. -/
def reexportsOf : Statement → List Export
  | .reexport bindings source => bindings.map fun b => ⟨b, some source⟩
  | _ => []

/-- The names of the first export clause, then the re-exported ones. -/
def exports (c : Chunk) : List Export :=
  (c.exportClauses.head?.getD []).map (fun b => ⟨b, none⟩) ++ c.statements.flatMap reexportsOf

/-- The names by which other chunks import from this one. -/
def exportedNames (c : Chunk) : List String := c.exports.map (·.binding.newName)

/-- The distinct sources of imports and re-exports, in order of appearance. -/
def sources (c : Chunk) : List String := (c.statements.filterMap Statement.source?).eraseDups

def hasModuleSyntax (c : Chunk) : Bool := !c.statements.isEmpty

end Chunk

end Pagefold.Script
