import Pagefold.Finding
import Pagefold.Script.Chunk

/-! # The chunks below an entry

An entry chunk and what its imports lead to.  A source that leads to another chunk than the entry
and the importer itself makes an edge; every other source is left as it is.  The chunks are met
depth first, in the order of the sources (`Survey.of`), and each is parsed once, when it is met. -/

namespace Pagefold.Link

open Script

/-! ### The graph -/

/-- Who imports whom.  The entry is no node; `seeds` are the chunks that it imports, and `edges`
lists for every node the chunks that the node imports, all in the order in which they are met. -/
structure ImportGraph where
  entry : String
  seeds : List String
  edges : Dictionary (List String)

namespace ImportGraph

/-- The graph of some seeds and edges, where an id that is repeated in a list counts once. -/
def ofLists (entry : String) (seeds : List String) (edges : List (String × List String)) :
    ImportGraph :=
  ⟨entry, seeds.eraseDups, .ofList (edges.map fun (id, targets) => (id, targets.eraseDups))⟩

/-- The chunks that a node imports. -/
def dependencies (g : ImportGraph) (id : String) : List String := (g.edges.get? id).getD []

def nodes (g : ImportGraph) : List String := g.edges.keys

def edgeCount (g : ImportGraph) : Nat := g.edges.values.flatten.length

end ImportGraph

/-! ### What the sources of one chunk mean -/

/-- The sources of a chunk, each with what it leads to. -/
def lookUps (catalog : Catalog) (c : Chunk) : List (String × Except LinkError Located) :=
  c.sources.map fun source => (source, catalog.locate source c.id)

/-- The chunk that a source is linked to: neither the entry nor the importer itself. -/
def linkedTo? (entry importer : String) : Except LinkError Located → Option String
  | .ok located =>
    if located.id == entry || located.id == importer then none else some located.id
  | .error _ => none

/-- Records on a chunk what its sources are linked to. -/
def resolve (catalog : Catalog) (entry : String) (c : Chunk) : Chunk :=
  { c with
    resolved := .ofList <| (lookUps catalog c).filterMap fun (source, result) =>
      (linkedTo? entry c.id result).map (source, ·) }

/-- The distinct chunks that the sources of a chunk are linked to, in order. -/
def targets (c : Chunk) : List String := c.resolved.values.eraseDups

/-- What there is to say about one source of a chunk. -/
def sourceFindings (entry importer source : String) : Except LinkError Located → List Finding
  | .error (.nonLocal _) => [.externalImport importer source]
  | .error error => [.unresolvedImport importer source error]
  | .ok located =>
    (if located.isAmbiguous then [.ambiguousImport importer source located] else [])
      ++ (if located.id == entry then [.entryImported importer source] else [])

def importFindings (catalog : Catalog) (entry : String) (c : Chunk) : List Finding :=
  (lookUps catalog c).flatMap fun (source, result) => sourceFindings entry c.id source result

/-! ### Meeting the chunks -/

/-- The first id of a stack whose chunk exists and is not met yet, with its code and what lies below
it on the stack. -/
def nextUnmet (code : Dictionary String) (met : Dictionary Chunk) :
    List String → Option (String × String × List String)
  | [] => none
  | id :: rest =>
    if met.contains id then nextUnmet code met rest
    else
      match code.get? id with
      | none => nextUnmet code met rest
      | some text => some (id, text, rest)

/-- Meets the chunks of a stack one after the other, and before the next one those that the chunk
just met leads to.  Every round meets one more chunk, so as many rounds as there are chunks do. -/
def meet (code : Dictionary String) (catalog : Catalog) (entry : String) :
    (rounds : Nat) → List String → Dictionary Chunk → Dictionary Chunk
  | 0, _, met => met
  | rounds + 1, stack, met =>
    match nextUnmet code met stack with
    | none => met
    | some (id, text, rest) =>
      let c := resolve catalog entry (.parse id text)
      meet code catalog entry rounds ((targets c).filter (!met.contains ·) ++ rest)
        (met.insert id c)

/-- An entry with all chunks that its imports lead to. -/
structure Survey where
  entry : Chunk
  /-- The chunks below the entry, in the order in which they were met. -/
  nodes : Dictionary Chunk

namespace Survey

/-- Surveys the chunks below `entry`.  An entry that does not exist is taken to be empty. -/
def of (code : Dictionary String) (catalog : Catalog) (entry : String) : Survey :=
  let root := resolve catalog entry (.parse entry ((code.get? entry).getD ""))
  ⟨root, meet code catalog entry code.size (targets root) .empty⟩

def graph (s : Survey) : ImportGraph :=
  ⟨s.entry.id, targets s.entry, s.nodes.mapValues fun _ c => targets c⟩

/-- The entry and the chunks below it, in order. -/
def chunks (s : Survey) : List Chunk := s.entry :: s.nodes.values

/-- What the survey met, chunk by chunk. -/
def findings (catalog : Catalog) (s : Survey) : List Finding :=
  s.chunks.flatMap (importFindings catalog s.entry.id)

end Survey

end Pagefold.Link
