import Pagefold.Fold.Run
import Pagefold.Proofs.Linking

/-! # What a plan folds in

A plan treats each tag of its document by itself.  A script element that loads an admitted chunk and a
link tag of an admitted stylesheet are *folded* (`Folds`, one constructor for each), and so the
document *holds* the files of what takes their place (`HoldsFile`).  A link tag that loads one of these
files ahead is removed (`Preloads`).  Any other tag is *left in*, and the files that it refers to
(`RefersTo`) are those that the plan keeps (`mem_referenced_iff`). -/

namespace Pagefold.Fold

open Page Link

variable {ctx : Context} {document file text : String} {files : List String} {tag : Tag}

/-! ### Folded tags -/

/-- The code that takes the place of a script: the flat script, where `removePreload` asks for it
without the preload call in the entry's own code. -/
def foldedScript (options : Options) (flat : Flat) : String :=
  if options.removePreload then
    (stripPreload? flat.entryBody).elim flat.script (flat.wrappers ++ ·)
  else flat.script

/-- In a document, `text` takes the place of `tag` and holds `files`. -/
inductive Folds (ctx : Context) (document : String) (tag : Tag) : (text : String) →
    (files : List String) → Prop
  | script {source : String} {entry : Located} (hs : tag.scriptSource? = some source)
      (hlocal : isExternal source = false)
      (he : ctx.linker.entry source (some document) = .ok entry)
      (ha : ctx.selection.admits entry.id = true) :
      Folds ctx document tag
        (scriptElement tag (foldedScript ctx.options (ctx.linker.flatten entry.id)) ctx.options.cdata)
        (ctx.linker.flatten entry.id).consumed
  | style {reference : String} {sheet : Located} {css : String} (hs : tag.scriptSource? = none)
      (hr : tag.stylesheet? = some reference) (hlocal : isExternal reference = false)
      (hl : ctx.stylesheets.locate reference (some document) = .ok sheet)
      (ha : ctx.selection.admits sheet.id = true) (ht : ctx.build.text? sheet.id = some css) :
      Folds ctx document tag
        (styleElement (if ctx.options.stripComments then stripComments css else css)) [sheet.id]

theorem withoutPreload_fst (flat : Flat) : (withoutPreload flat).1
    = (stripPreload? flat.entryBody).elim flat.script (flat.wrappers ++ ·) := by
  unfold withoutPreload stripPreload?
  cases cutPreload? flat.entryBody.toList with
  | none => rfl
  | some cut => rfl

theorem text?_planScript {source : String} {entry : Located} (hlocal : isExternal source = false)
    (he : ctx.linker.entry source (some document) = .ok entry)
    (ha : ctx.selection.admits entry.id = true) :
    (planScript ctx document tag source).text? = some (scriptElement tag
      (foldedScript ctx.options (ctx.linker.flatten entry.id)) ctx.options.cdata) := by
  simp only [planScript, hlocal, he, ha, foldedScript, ← withoutPreload_fst]
  cases ctx.options.removePreload <;> rfl

theorem Folds.plan (h : Folds ctx document tag text files) :
    (planTag ctx document tag).text? = some text ∧ (planTag ctx document tag).consumed = files := by
  unfold planTag
  cases h with
  | script hs hlocal he ha =>
      rw [hs]
      exact ⟨text?_planScript hlocal he ha, by simp [planScript, hlocal, he, ha]⟩
  | style hs hr hlocal hl ha ht =>
      rw [hs, hr]
      constructor
      · simp [planStyle, hlocal, hl, ha, ht]
      · simp [planStyle, hlocal, hl, ha, ht]

/-- A plan folds a tag, or leaves its text and holds nothing for it. -/
theorem planTag_cases (ctx : Context) (document : String) (tag : Tag) :
    (∃ text files, Folds ctx document tag text files) ∨
      (planTag ctx document tag).text? = none ∧ (planTag ctx document tag).consumed = [] := by
  unfold planTag
  split
  · rename_i source _ hs
    unfold planScript
    split
    · exact .inr ⟨rfl, rfl⟩
    · rename_i hlocal
      split
      · exact .inr ⟨rfl, rfl⟩
      · rename_i entry he
        split
        · exact .inr ⟨rfl, rfl⟩
        · rename_i ha
          exact .inl ⟨_, _, .script hs (by simpa using hlocal) he (by simpa using ha)⟩
  · rename_i reference hs hr
    unfold planStyle
    split
    · exact .inr ⟨rfl, rfl⟩
    · rename_i hlocal
      split
      · exact .inr ⟨rfl, rfl⟩
      · rename_i sheet hl
        split
        · exact .inr ⟨rfl, rfl⟩
        · rename_i ha
          split
          · exact .inr ⟨rfl, rfl⟩
          · rename_i css ht
            exact .inl ⟨_, _, .style hs hr (by simpa using hlocal) hl (by simpa using ha) ht⟩
  · exact .inr ⟨rfl, rfl⟩

theorem folds_of_text? (h : (planTag ctx document tag).text? = some text) :
    Folds ctx document tag text (planTag ctx document tag).consumed := by
  rcases planTag_cases ctx document tag with ⟨text', files, hf⟩ | ⟨hnone, _⟩
  · obtain ⟨htext, hfiles⟩ := hf.plan
    rw [h] at htext
    cases htext
    rwa [hfiles]
  · rw [h] at hnone
    cases hnone

/-- **A plan folds a tag** just when it is one of those to fold. -/
theorem folds_iff : Folds ctx document tag text files
    ↔ (planTag ctx document tag).text? = some text ∧ (planTag ctx document tag).consumed = files := by
  constructor
  · exact Folds.plan
  · rintro ⟨htext, rfl⟩
    exact folds_of_text? htext

theorem mem_consumed_planTag_iff : file ∈ (planTag ctx document tag).consumed
    ↔ ∃ text files, Folds ctx document tag text files ∧ file ∈ files := by
  constructor
  · intro h
    rcases planTag_cases ctx document tag with ⟨text, files, hf⟩ | ⟨_, hnone⟩
    · exact ⟨text, files, hf, hf.plan.2 ▸ h⟩
    · rw [hnone] at h
      cases h
  · rintro ⟨text, files, hf, hm⟩
    rwa [hf.plan.2]

/-! ### Documents -/

/-- The document will hold `file`. -/
def HoldsFile (ctx : Context) (document file : String) : Prop :=
  ∃ page, ctx.build.text? document = some page ∧ ∃ tag ∈ tags page, ∃ text files,
    Folds ctx document tag text files ∧ file ∈ files

/-- A tag loads a file ahead that the document will hold. -/
def Preloads (ctx : Context) (document : String) (tag : Tag) : Prop :=
  ∃ reference chunk, tag.preloaded? = some reference ∧
    ctx.linker.catalog.locate reference (some document) = .ok chunk ∧ HoldsFile ctx document chunk.id

/-- A tag that is neither folded nor removed. -/
def LeftIn (ctx : Context) (document : String) (tag : Tag) : Prop :=
  ∃ page, ctx.build.text? document = some page ∧ tag ∈ tags page ∧
    (∀ text files, ¬ Folds ctx document tag text files) ∧ ¬ Preloads ctx document tag

/-- The file that a reference in a document means: a chunk, or else a stylesheet. -/
inductive Means (ctx : Context) (document reference : String) : (file : String) → Prop
  | chunk {chunk : Located} (h : ctx.linker.catalog.locate reference (some document) = .ok chunk) :
      Means ctx document reference chunk.id
  | sheet {error : LinkError} {sheet : Located}
      (hc : ctx.linker.catalog.locate reference (some document) = .error error)
      (h : ctx.stylesheets.locate reference (some document) = .ok sheet) :
      Means ctx document reference sheet.id

/-- A tag refers to `file` by its `src` or its `href`. -/
def RefersTo (ctx : Context) (document : String) (tag : Tag) (file : String) : Prop :=
  ∃ name ∈ ["src", "href"], ∃ reference, tag.attribute? name = some reference ∧
    Means ctx document reference file

theorem means_iff {reference : String} :
    Means ctx document reference file ↔ referenced? ctx document reference = some file := by
  unfold referenced?
  constructor
  · intro h
    cases h with
    | chunk h => rw [h]
    | sheet hc h => rw [hc, h]
  · intro h
    split at h
    · rename_i chunk hc
      cases h
      exact .chunk hc
    · rename_i error hc
      split at h
      · rename_i sheet hl
        cases h
        exact .sheet hc hl
      · cases h

theorem mem_referencedBy_iff : file ∈ referencedBy ctx document tag ↔ RefersTo ctx document tag file := by
  unfold referencedBy RefersTo
  simp only [List.mem_filterMap, ← means_iff, List.mem_cons, List.not_mem_nil, or_false, id_eq]
  constructor
  · rintro ⟨reference, ⟨_, rfl | rfl, ha⟩, hm⟩
    · exact ⟨"src", .inl rfl, reference, ha, hm⟩
    · exact ⟨"href", .inr rfl, reference, ha, hm⟩
  · rintro ⟨_, rfl | rfl, reference, ha, hm⟩
    · exact ⟨reference, ⟨_, .inl rfl, ha⟩, hm⟩
    · exact ⟨reference, ⟨_, .inr rfl, ha⟩, hm⟩

/-- The files that a page of a document will hold. -/
def filesOf (ctx : Context) (document page : String) : List String :=
  (tags page).flatMap fun tag => (planTag ctx document tag).consumed

theorem mem_filesOf_iff {page : String} (hp : ctx.build.text? document = some page) :
    file ∈ filesOf ctx document page ↔ HoldsFile ctx document file := by
  unfold filesOf HoldsFile
  rw [List.mem_flatMap]
  simp only [mem_consumed_planTag_iff]
  constructor
  · rintro ⟨tag, ht, h⟩
    exact ⟨page, hp, tag, ht, h⟩
  · rintro ⟨page', hp', tag, ht, h⟩
    rw [hp] at hp'
    cases hp'
    exact ⟨tag, ht, h⟩

theorem loadsConsumed_iff {page : String} (hp : ctx.build.text? document = some page) :
    loadsConsumed ctx document (filesOf ctx document page) tag = true ↔ Preloads ctx document tag := by
  unfold loadsConsumed Preloads
  simp only [← mem_filesOf_iff hp, Option.any_eq_true]
  constructor
  · rintro ⟨reference, hr, h⟩
    split at h
    · rename_i chunk hc
      exact ⟨reference, chunk, hr, hc, by simpa using h⟩
    · cases h
  · rintro ⟨reference, chunk, hr, hc, h⟩
    refine ⟨reference, hr, ?_⟩
    rw [hc]
    simpa using h

theorem consumed_ofText {page : String} :
    (Plan.ofText ctx document page).consumed = filesOf ctx document page := by
  simp only [Plan.ofText, filesOf, List.flatMap_map]

/-- **What a document will hold** is what its plan consumes. -/
theorem mem_consumed_iff : file ∈ (Plan.of ctx document).consumed ↔ HoldsFile ctx document file := by
  unfold Plan.of
  split
  · rename_i hp
    simp [Plan.ofUndecoded, HoldsFile, hp]
  · rename_i page hp
    rw [consumed_ofText, mem_filesOf_iff hp]

theorem text?_eq_none_iff :
    (planTag ctx document tag).text? = none ↔ ∀ text files, ¬ Folds ctx document tag text files := by
  constructor
  · intro h text files hf
    rw [hf.plan.1] at h
    cases h
  · intro h
    rcases planTag_cases ctx document tag with ⟨text, files, hf⟩ | ⟨hnone, _⟩
    · exact absurd hf (h text files)
    · exact hnone

/-- Whether a plan leaves a tag in. -/
def leavesIn (ctx : Context) (document page : String) (tag : Tag) : Bool :=
  (planTag ctx document tag).text?.isNone
    && !loadsConsumed ctx document (filesOf ctx document page) tag

theorem leavesIn_iff {page : String} (hp : ctx.build.text? document = some page) :
    leavesIn ctx document page tag = true
      ↔ (∀ text files, ¬ Folds ctx document tag text files) ∧ ¬ Preloads ctx document tag := by
  rw [leavesIn, Bool.and_eq_true, Option.isNone_iff_eq_none, text?_eq_none_iff, ← loadsConsumed_iff hp]
  simp

theorem referenced_ofText {page : String} : (Plan.ofText ctx document page).referenced
    = ((tags page).filter (leavesIn ctx document page)).flatMap (referencedBy ctx document) := by
  simp only [Plan.ofText, List.flatMap_map, List.filter_map]
  rfl

/-- **What a plan keeps** is what the tags that are left in refer to. -/
theorem mem_referenced_iff : file ∈ (Plan.of ctx document).referenced
    ↔ ∃ tag, LeftIn ctx document tag ∧ RefersTo ctx document tag file := by
  unfold Plan.of
  split
  · rename_i hp
    simp [Plan.ofUndecoded, LeftIn, hp]
  · rename_i page hp
    rw [referenced_ofText, List.mem_flatMap]
    simp only [List.mem_filter, leavesIn_iff hp, mem_referencedBy_iff]
    constructor
    · rintro ⟨tag, ⟨ht, hleft⟩, hr⟩
      exact ⟨tag, ⟨page, hp, ht, hleft⟩, hr⟩
    · rintro ⟨tag, ⟨page', hp', ht, hleft⟩, hr⟩
      rw [hp] at hp'
      cases hp'
      exact ⟨tag, ⟨ht, hleft⟩, hr⟩

end Pagefold.Fold
