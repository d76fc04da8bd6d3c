import Pagefold.Diagnostic.Json
import Pagefold.Fold.Plan

/-! # Runs

A run folds scripts and stylesheets into all documents of a build (`run`).  Afterwards the files
that were folded in go, but for those that something in the build still needs: a tag that stays, or
a chunk that stays and imports them, directly or through others (`deletable`). -/

namespace Pagefold.Fold

open Link Log

/-- The outcome of a run. -/
structure Report where
  documents : List DocumentReport
  /-- The files that went, in order. -/
  deleted : List String
  findings : List Finding

namespace Report

def scriptCount (r : Report) : Nat := (r.documents.flatMap (·.scripts)).length

def styleCount (r : Report) : Nat := (r.documents.flatMap (·.styles)).length

def diagnostics (r : Report) : List Diagnostic := r.findings.map Finding.diagnostic

def warningCount (r : Report) : Nat := (r.diagnostics.filter Diagnostic.isWarning).length

end Report

def DocumentReport.toJson (d : DocumentReport) : Json :=
  .object [("name", .string d.name), ("scripts", .strings d.scripts), ("styles", .strings d.styles)]

def Report.toJson (r : Report) : Json :=
  .object [("documents", .array (r.documents.map DocumentReport.toJson)),
    ("deleted", .strings r.deleted),
    ("diagnostics", .array (r.diagnostics.map Diagnostic.toJson))]

/-! ### What can go -/

/-- The chunks that a chunk imports. -/
def importsOf (code : Dictionary String) (catalog : Catalog) (id : String) : List String :=
  match code.get? id with
  | none => []
  | some text =>
    (Script.Chunk.parse id text).sources.filterMap fun source =>
      match catalog.locate source (some id) with
      | .ok chunk => some chunk.id
      | .error _ => none

/-- The first of the pending chunks that was not reached before, and those behind it. -/
def nextPending (reached : List String) : List String → Option (String × List String)
  | [] => none
  | id :: rest => if reached.contains id then nextPending reached rest else some (id, rest)

/-- The chunks that the pending ones lead to, with themselves.  Each round reaches one more. -/
def reach (next : String → List String) : (rounds : Nat) → (pending reached : List String) →
    List String
  | 0, _, reached => reached
  | rounds + 1, pending, reached =>
    match nextPending reached pending with
    | none => reached
    | some (id, rest) => reach next rounds (next id ++ rest) (id :: reached)

/-- The files that are needed although they were folded in, when tags refer to `referenced`. -/
def needed (code : Dictionary String) (catalog : Catalog) (consumed referenced : List String) :
    List String :=
  let staying := code.keys.filter fun id => !consumed.contains id || referenced.contains id
  let reached := reach (importsOf code catalog) code.size staying []
  referenced ++ reached.flatMap (importsOf code catalog)

/-- The files that were folded in and that nothing needs, in order. -/
def deletable (code : Dictionary String) (catalog : Catalog) (consumed referenced : List String) :
    List String :=
  let needed := needed code catalog consumed referenced
  (Table.ofList (consumed.map (·, ()))).keys.filter (!needed.contains ·)

/-! ### Running -/

/-- How a finding of a document is told in the log. -/
def forwarded (document : String) (f : Finding) : Event :=
  ⟨if f.severity == .warning then .warn else .debug, .folder, f.message,
    [("document", .quoted document), ("kind", .quoted f.kind.name)]⟩

def Plan.closingEvents (plan : Plan) : List Event :=
  plan.findings.map (forwarded plan.name)
    ++ [⟨.debug, .folder, "inlined document",
      [("document", .bare plan.name), ("scripts", .bare (toString plan.report.scripts.length)),
        ("styles", .bare (toString plan.report.styles.length))]⟩]

/-- Carries a plan out. -/
def Plan.apply (build : Build) (plan : Plan) : Build :=
  match plan.page? with
  | none => build
  | some page =>
    if plan.replacements.isEmpty then build else build.setText plan.name (plan.rewritten page)

/-- What a run leaves. -/
structure Outcome where
  build : Build
  report : Report
  log : List Event

/-- Folds scripts and stylesheets into the documents of a build. -/
def run (options : Options) (selection : Glob.Selection) (build : Build) : Outcome :=
  let ctx := Context.of build options selection
  let plans := build.documents.map (Plan.of ctx)
  let consumed := plans.flatMap (·.consumed)
  let referenced := plans.flatMap (·.referenced)
  let deleted :=
    if options.deleteFolded then deletable ctx.linker.code ctx.linker.catalog consumed referenced
    else []
  { build := (plans.foldl Plan.apply build).eraseAll deleted
    report := ⟨plans.map (·.report), deleted, plans.flatMap (·.findings)⟩
    log := plans.flatMap (·.log) ++ plans.flatMap Plan.closingEvents }

end Pagefold.Fold
