import Pagefold.Build.Contents
import Pagefold.Config.Options
import Pagefold.Glob.Selection
import Pagefold.Link.Flat
import Pagefold.Page.Preload
import Pagefold.Page.Script
import Pagefold.Page.Stylesheet

/-! # Plans for documents

What is to be done with a document: which stretches of its text are to be replaced by what, which
files its text will then hold, and which files the tags that stay refer to (`Plan.of`).  A plan is
made against the build as it is and changes nothing, so the documents can be planned in any order. -/

namespace Pagefold.Fold

open Page Link Log

/-- What the plans of one run have in common. -/
structure Context where
  build : Build
  options : Options
  selection : Glob.Selection
  linker : Linker
  stylesheets : Catalog

def Context.of (build : Build) (options : Options) (selection : Glob.Selection) : Context :=
  ⟨build, options, selection, .ofChunks build.chunks options.lead, .ofList build.stylesheets⟩

/-- A text for what lies between two positions. -/
structure Replacement where
  start : Nat
  stop : Nat
  text : String
deriving DecidableEq, Repr

/-- What is to be done with one tag. -/
structure TagPlan where
  /-- The text that takes the place of the tag, if it does not stay. -/
  text? : Option String := none
  /-- The entry chunk that the text holds. -/
  script? : Option String := none
  /-- The stylesheet that the text holds. -/
  style? : Option String := none
  /-- All files that the text holds. -/
  consumed : List String := []
  findings : List Finding := []
  log : List Event := []

/-- A tag that stays because of a finding. -/
def TagPlan.ofFinding (f : Finding) : TagPlan := { findings := [f], log := [collected f] }

/-- How a document was changed. -/
structure DocumentReport where
  name : String
  /-- The entry chunks of its scripts, in order. -/
  scripts : List String := []
  /-- Its stylesheets, in order. -/
  styles : List String := []
deriving DecidableEq, Repr

structure Plan where
  name : String
  /-- The text of the document; nothing if it cannot be read. -/
  page? : Option String
  replacements : List Replacement
  /-- The files that the document will hold. -/
  consumed : List String
  /-- The files that tags which stay refer to. -/
  referenced : List String
  findings : List Finding
  report : DocumentReport
  log : List Event

/-! ### Tags -/

/-- Cuts preload code out of the entry's own code, and notes how much was cut. -/
def withoutPreload (flat : Flat) : String × List Event :=
  match cutPreload? flat.entryBody.toList with
  | none => (flat.script, [])
  | some cut =>
    (flat.wrappers ++ String.ofList cut.remaining,
      [⟨.debug, .preloadRemover, "stripped module preload polyfill",
        [("removed", .bare (toString (Text.byteSize cut.call)))]⟩])

/-- A script element in the place of a tag that loads the chunk `source`. -/
def planScript (ctx : Context) (document : String) (tag : Tag) (source : String) : TagPlan :=
  if isExternal source then {}
  else
    match ctx.linker.entry source (some document) with
    | .error _ => .ofFinding (.unresolvedScript document source)
    | .ok entry =>
      if !ctx.selection.admits entry.id then
        { log := [⟨.debug, .folder, "script does not match inline pattern",
            [("chunk", .quoted entry.id)]⟩] }
      else
        let flat := ctx.linker.flatten entry.id
        let ambiguous :=
          if entry.isAmbiguous then [.ambiguousScript document source entry] else []
        let (script, notes) :=
          if ctx.options.removePreload then withoutPreload flat else (flat.script, [])
        { text? := some (scriptElement tag script ctx.options.cdata)
          script? := some entry.id
          consumed := flat.consumed
          findings := ambiguous ++ flat.findings
          log := flat.log ++ ambiguous.map collected ++ notes }

/-- A style element in the place of a tag that loads the stylesheet `reference`. -/
def planStyle (ctx : Context) (document reference : String) : TagPlan :=
  if isExternal reference then {}
  else
    match ctx.stylesheets.locate reference (some document) with
    | .error _ => .ofFinding (.unresolvedStylesheet document reference)
    | .ok sheet =>
      if !ctx.selection.admits sheet.id then {}
      else
        match ctx.build.text? sheet.id with
        | none => .ofFinding (.undecodedStylesheet document reference sheet.id)
        | some css =>
          { text? := some (styleElement (if ctx.options.stripComments then stripComments css else css))
            style? := some sheet.id
            consumed := [sheet.id] }

def planTag (ctx : Context) (document : String) (tag : Tag) : TagPlan :=
  match tag.scriptSource?, tag.stylesheet? with
  | some source, _ => planScript ctx document tag source
  | none, some reference => planStyle ctx document reference
  | none, none => {}

/-- Whether a tag loads a file ahead that the document will hold. -/
def loadsConsumed (ctx : Context) (document : String) (consumed : List String) (tag : Tag) : Bool :=
  tag.preloaded?.any fun reference =>
    match ctx.linker.catalog.locate reference (some document) with
    | .ok chunk => consumed.contains chunk.id
    | .error _ => false

/-- The file that a reference means, a chunk or else a stylesheet. -/
def referenced? (ctx : Context) (document reference : String) : Option String :=
  match ctx.linker.catalog.locate reference (some document) with
  | .ok chunk => some chunk.id
  | .error _ =>
    match ctx.stylesheets.locate reference (some document) with
    | .ok sheet => some sheet.id
    | .error _ => none

/-- The files that a tag refers to. -/
def referencedBy (ctx : Context) (document : String) (tag : Tag) : List String :=
  ([tag.attribute? "src", tag.attribute? "href"].filterMap id).filterMap (referenced? ctx document)

/-! ### Documents -/

namespace Plan

/-- A document that is left alone because it is no text. -/
def ofUndecoded (document : String) : Plan :=
  let finding := Finding.undecodedDocument document
  ⟨document, none, [], [], [], [finding], { name := document }, [collected finding]⟩

/-- The plan for a document with a text. -/
def ofText (ctx : Context) (document page : String) : Plan :=
  let plans := (tags page).map fun tag => (tag, planTag ctx document tag)
  let consumed := plans.flatMap (·.2.consumed)
  let folded := plans.filterMap fun (tag, plan) =>
    plan.text?.map fun text => ⟨tag.start, tag.stop, text⟩
  let preloads := (plans.map (·.1)).filter (loadsConsumed ctx document consumed)
  let staying := plans.filter fun (tag, plan) =>
    plan.text?.isNone && !loadsConsumed ctx document consumed tag
  { name := document
    page? := some page
    replacements := folded ++ preloads.map fun tag => ⟨tag.start, tag.stop, ""⟩
    consumed
    referenced := staying.flatMap fun (tag, _) => referencedBy ctx document tag
    findings := plans.flatMap (·.2.findings)
    report :=
      { name := document
        scripts := plans.filterMap (·.2.script?)
        styles := plans.filterMap (·.2.style?) }
    log := plans.flatMap (·.2.log) }

/-- The plan for a document of the build. -/
def of (ctx : Context) (document : String) : Plan :=
  match ctx.build.text? document with
  | none => ofUndecoded document
  | some page => ofText ctx document page

/-- The text of a document with its replacements, made from the back to the front. -/
def rewritten (plan : Plan) (page : String) : String :=
  let fromBack := plan.replacements.mergeSort fun r s => s.start ≤ r.start
  String.ofList <| fromBack.foldl
    (fun page r => Text.splice r.start r.stop r.text.toList page) page.toList

end Plan

end Pagefold.Fold
