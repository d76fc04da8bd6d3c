import Pagefold.Finding
import Pagefold.Link.Naming
import Pagefold.Script.Chunk

/-! # Pieces of a flat script

A chunk without its module statements.  Where a source was resolved to a named chunk, an import reads
its bindings from the object that bears the name, and a re-export becomes an entry of the object that
the chunk itself returns; a statement with any other source stays as it is.  Export clauses go, and
what the first one exports is returned:

* `import { a as b } from "./x.js";` becomes `const { a: b } = x;`
* `import "./x.js";` becomes `;`
* `export { a as b };` becomes `b: a` in the object
* `export { a as b } from "./x.js";` becomes `b: x.a` in the object

A wrapped piece is a closure that is called at once and bound to its chunk's name. -/

namespace Pagefold.Link

open Script

/-- The chunks of one script, and the names of those that are wrapped. -/
structure Scope where
  chunks : Dictionary Chunk
  names : Naming

/-- A chunk that a source means, with the name that its object bears. -/
structure Target where
  chunk : Chunk
  id : String
  name : String

namespace Scope

/-- The named chunk that a source of `c` was resolved to. -/
def target? (scope : Scope) (c : Chunk) (source : String) : Option Target := do
  let id ← c.resolved.get? source
  let chunk ← scope.chunks.get? id
  let name ← scope.names.get? id
  return ⟨chunk, id, name⟩

end Scope

/-! ### Texts -/

/-- A pair of an object pattern or an object. -/
def pair (key value : String) : String := key ++ ": " ++ value

/-- Pairs between braces. -/
def braces (pairs : List String) : String := "\x7b " ++ ", ".intercalate pairs ++ " \x7d"

/-- Reads bindings from the object called `name`. -/
def destructure (bindings : List Binding) (name : String) : String :=
  "const " ++ braces (bindings.map fun b => pair b.name b.newName) ++ " = " ++ name ++ ";"

/-- A closure with a body and a result, called at once and bound to a name. -/
def wrap (name body result : String) : String :=
  "const " ++ name ++ " = (() => \x7b\n" ++ body ++ "\nreturn " ++ result ++ ";\n\x7d)();"

/-- The entry of the returned object for one export.  A name of a module that is not in the script
has none. -/
def exportPair? (scope : Scope) (c : Chunk) (e : Export) : Option String :=
  match e.source? with
  | none => some (pair e.binding.newName e.binding.name)
  | some source =>
    (scope.target? c source).map fun t => pair e.binding.newName (t.name ++ "." ++ e.binding.name)

/-- The object that a wrapped chunk returns. -/
def exportObject (scope : Scope) (c : Chunk) : String :=
  match c.exports.filterMap (exportPair? scope c) with
  | [] => "\x7b\x7d"
  | pairs => braces pairs

/-! ### Rewriting -/

/-- What stands for a statement of `c` that reads `text`. -/
def statementText (scope : Scope) (c : Chunk) (text : List Char) : Statement → List Char
  | .exportClause _ => []
  | .bareImport source | .namedImport [] source =>
    if (scope.target? c source).isSome then [';'] else text
  | .namedImport bindings source =>
    match scope.target? c source with
    | some t => (destructure bindings t.name).toList
    | none => text
  | .reexport _ source => if (scope.target? c source).isSome then [] else text

def segmentText (scope : Scope) (c : Chunk) : Segment → List Char
  | .code text => text
  | .statement text parsed => statementText scope c text parsed

/-- The code of a chunk without its module statements. -/
def body (scope : Scope) (c : Chunk) : String :=
  String.ofList (c.segments.flatMap (segmentText scope c))

/-- A text without the line ends at its end. -/
def withoutFinalNewlines (s : String) : String :=
  String.ofList (s.toList.reverse.dropWhile (· == '\n')).reverse

/-- A chunk as a closure bound to `name`. -/
def wrapped (scope : Scope) (c : Chunk) (name : String) : String :=
  wrap name (withoutFinalNewlines (body scope c)) (exportObject scope c)

/-! ### Findings -/

/-- The bindings that the target does not export. -/
def missingExports (c : Chunk) (source : String) (bindings : List Binding) (t : Target) :
    List Finding :=
  (bindings.filter fun b => !t.chunk.exportedNames.contains b.name).map
    (.missingExport c.id source t.id)

/-- What there is to say about a statement; `clauseSeen` tells whether an export clause came before
it. -/
def statementFindings (scope : Scope) (c : Chunk) (clauseSeen : Bool) (text : List Char) :
    Statement → List Finding
  | .namedImport bindings source | .reexport bindings source =>
    (scope.target? c source).elim [] (missingExports c source bindings)
  | .bareImport _ => []
  | .exportClause _ =>
    if clauseSeen then [.duplicateExportClause c.id (String.ofList (Text.trim text))] else []

/-- The findings of a chunk's segments. -/
def segmentFindings (scope : Scope) (c : Chunk) : (clauseSeen : Bool) → List Segment → List Finding
  | _, [] => []
  | clauseSeen, .code _ :: rest => segmentFindings scope c clauseSeen rest
  | clauseSeen, .statement text parsed :: rest =>
    statementFindings scope c clauseSeen text parsed
      ++ segmentFindings scope c (clauseSeen || parsed matches .exportClause _) rest

def bodyFindings (scope : Scope) (c : Chunk) : List Finding :=
  segmentFindings scope c false c.segments

end Pagefold.Link
