import Pagefold.Link.LoadOrder
import Pagefold.Link.Piece
import Pagefold.Log.Event

/-! # Flat scripts

Linking an entry chunk makes one script without module syntax: the chunks below the entry, wrapped
and in load order, and behind them the entry's own code.  Linking cannot fail once the entry is
found; what it cannot do it reports as findings. -/

namespace Pagefold.Link

open Script Log

/-- The script of one entry. -/
structure Flat where
  /-- The wrapped chunks, each followed by a line end. -/
  wrappers : String
  /-- The code of the entry. -/
  entryBody : String
  /-- The entry and the wrapped chunks, in the order of the script. -/
  consumed : List String
  names : Naming
  findings : List Finding
  log : List Event

namespace Flat

/-- The whole script. -/
def script (f : Flat) : String := f.wrappers ++ f.entryBody

/-- The byte at which the entry's code starts. -/
def entryStart (f : Flat) : Nat := f.wrappers.utf8ByteSize

def entry (f : Flat) : String := f.consumed.headD ""

def diagnostics (f : Flat) : List Diagnostic := f.findings.map Finding.diagnostic

end Flat

/-! ### The log of linking -/

/-- How a new finding is noted. -/
def collected (f : Finding) : Event :=
  ⟨.debug, .collector, f.message, [("kind", .quoted f.kind.name)]⟩

/-- The notes of rewriting a chunk: its findings, and the imports that nothing is left of. -/
def segmentEvents (scope : Scope) (c : Chunk) : (clauseSeen : Bool) → List Segment → List Event
  | _, [] => []
  | clauseSeen, .code _ :: rest => segmentEvents scope c clauseSeen rest
  | clauseSeen, .statement text parsed :: rest =>
    (match parsed with
      | .namedImport [] source =>
        (scope.target? c source).elim [] fun t =>
          [⟨.trace, .flattener, "dropping empty import", [("chunk", .bare c.id), ("to", .quoted t.id)]⟩]
      | _ => [])
      ++ (statementFindings scope c clauseSeen text parsed).map collected
      ++ segmentEvents scope c (clauseSeen || parsed matches .exportClause _) rest

def bodyEvents (scope : Scope) (c : Chunk) : List Event := segmentEvents scope c false c.segments

/-! ### Linking -/

/-- The chunks of a survey by id. -/
def Survey.dictionary (s : Survey) : Dictionary Chunk :=
  .ofList ((s.entry.id, s.entry) :: s.nodes.entries)

/-- The script of the chunk `entry`; `lead` opens the names of the wrapped chunks. -/
def flatten (code : Dictionary String) (catalog : Catalog) (lead entry : String) : Flat :=
  let survey := Survey.of code catalog entry
  let loadOrder := survey.graph.loadOrder
  let names := Naming.ofList loadOrder.order lead
  let scope : Scope := ⟨survey.dictionary, names⟩
  let parts := loadOrder.order.filterMap fun id => do
    return (← scope.chunks.get? id, ← names.get? id)
  let chunks := parts.map (·.1) ++ [survey.entry]
  let cycles := loadOrder.cycles.map Finding.circularImports
  let findings := survey.findings catalog ++ cycles ++ chunks.flatMap (bodyFindings scope)
  let note (speaker : Speaker) (message : String) (fields : List (String × FieldValue)) : Event :=
    ⟨.debug, speaker, message, fields⟩
  { wrappers := String.join (parts.map fun (c, name) => wrapped scope c name ++ "\n")
    entryBody := body scope survey.entry
    consumed := entry :: parts.map (·.1.id)
    names
    findings
    log :=
      (survey.findings catalog).map collected
        ++ [note .surveyor "built chunk dependency graph"
              [("entry", .quoted entry), ("nodes", .bare (toString survey.nodes.size))]]
        ++ loadOrder.cycles.map (fun cycle =>
              note .sequencer "skipping back-edge"
                [("cycle", .quoted (" -> ".intercalate cycle))])
        ++ cycles.map collected
        ++ chunks.flatMap (bodyEvents scope)
        ++ [note .linker "linked entry chunk"
              [("entry", .quoted entry), ("wrapped", .bare (toString parts.length)),
                ("diagnostics", .bare (toString findings.length))]] }

/-- A set of chunks that can be linked, with the opening of the names to give. -/
structure Linker where
  code : Dictionary String
  catalog : Catalog
  lead : String

namespace Linker

def ofChunks (code : Dictionary String) (lead : String) : Linker :=
  ⟨code, .ofList code.keys, lead⟩

/-- The entry chunk that a page means by a reference. -/
def entry (linker : Linker) (reference : String) (importer? : Option String) :
    Except LinkError Located :=
  (linker.catalog.locate reference importer?).mapError fun _ => .noEntry reference

/-- The script of a chunk of the set. -/
def flatten (linker : Linker) (entry : String) : Flat :=
  Link.flatten linker.code linker.catalog linker.lead entry

/-- The script of the chunk that a reference means. -/
def link (linker : Linker) (reference : String) (importer? : Option String) :
    Except LinkError Flat := do
  let located ← linker.entry reference importer?
  let flat := linker.flatten located.id
  if located.isAmbiguous then
    let finding := Finding.ambiguousEntry reference located
    return { flat with findings := flat.findings ++ [finding], log := flat.log ++ [collected finding] }
  return flat

end Linker

end Pagefold.Link
