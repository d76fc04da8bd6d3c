import Pagefold.Proofs.Deletion
import Pagefold.Proofs.Edits
import Pagefold.Proofs.Endings
import Pagefold.Proofs.Flat

/-! # What a run writes

A run gives each document that is text the text in which every tag has given place, at once, to what is
folded in for it, to nothing, or to itself (`TakesPlace`), and it leaves every other file that it does
not delete as it was (`run_rewrites`).  Scripts, stylesheets and documents are told apart by the ends of
their names: no tag is both folded and removed (`not_preloads_of_folds`), because no reference means
both a script and a stylesheet, and no document is deleted (`document_not_deleted`). -/

namespace Pagefold.Fold

open Page Link

/-! ### What takes the place of a tag -/

/-- What stands in the rewritten document for a tag that reads `own`. -/
inductive TakesPlace (ctx : Context) (document : String) (tag : Tag) : (own new : List Char) → Prop
  | folded {text files own} (h : Folds ctx document tag text files) :
      TakesPlace ctx document tag own text.toList
  | removed {own} (h : Preloads ctx document tag) : TakesPlace ctx document tag own []
  | left {own} (hf : ∀ text files, ¬ Folds ctx document tag text files)
      (hp : ¬ Preloads ctx document tag) : TakesPlace ctx document tag own own

variable {ctx : Context} {document page file text : String} {files : List String} {tag : Tag}

theorem Folds.text_unique (h : Folds ctx document tag text files) {text' : String}
    {files' : List String} (h' : Folds ctx document tag text' files') : text = text' := by
  have htext := h.plan.1
  rw [h'.plan.1] at htext
  exact (Option.some.inj htext).symm

/-- One thing takes the place of a tag that is not both folded and removed. -/
theorem TakesPlace.unique {own new new' : List Char}
    (hex : ∀ text files, Folds ctx document tag text files → ¬ Preloads ctx document tag)
    (h : TakesPlace ctx document tag own new) (h' : TakesPlace ctx document tag own new') :
    new = new' := by
  cases h with
  | folded hf =>
      cases h' with
      | folded hf' => rw [hf.text_unique hf']
      | removed hp' => exact absurd hp' (hex _ _ hf)
      | left hf' _ => exact absurd hf (hf' _ _)
  | removed hp =>
      cases h' with
      | folded hf' => exact absurd hp (hex _ _ hf')
      | removed _ => rfl
      | left _ hp' => exact absurd hp hp'
  | left hf hp =>
      cases h' with
      | folded hf' => exact absurd hf' (hf _ _)
      | removed hp' => exact absurd hp' hp
      | left _ _ => rfl

/-! ### The edits of a plan -/

/-- The text that a plan puts in the place of a tag, unless the tag is left in. -/
def edit? (ctx : Context) (document page : String) (tag : Tag) : Option String :=
  (planTag ctx document tag).text?.or
    (if loadsConsumed ctx document (filesOf ctx document page) tag then some "" else none)

theorem takesPlace_of_edited (hp : ctx.build.text? document = some page) {own new : List Char}
    (h : Edited (edit? ctx document page) tag own new) : TakesPlace ctx document tag own new := by
  rw [Edited, edit?] at h
  cases htext : (planTag ctx document tag).text? with
  | some text =>
      rw [htext] at h
      rw [show new = text.toList from h]
      exact .folded (folds_of_text? htext)
  | none =>
      rw [htext, Option.none_or] at h
      split at h
      · rename_i hloads
        rw [show new = [] from h]
        exact .removed ((loadsConsumed_iff hp).1 hloads)
      · rename_i hloads
        rw [show new = own from h]
        exact .left (text?_eq_none_iff.1 htext) fun hpre => hloads ((loadsConsumed_iff hp).2 hpre)

/-- The replacements of a plan are its edits, first those of folded tags. -/
theorem replacements_perm (hp : ctx.build.text? document = some page)
    (hex : ∀ tag text files, Folds ctx document tag text files → ¬ Preloads ctx document tag) :
    (Plan.ofText ctx document page).replacements.Perm
      (editsOf (edit? ctx document page) (tags page)) := by
  have hsplit : (Plan.ofText ctx document page).replacements
      = (tags page).filterMap (fun tag =>
          (planTag ctx document tag).text?.map fun text => ⟨tag.start, tag.stop, text⟩)
        ++ (tags page).filterMap (fun tag =>
          if loadsConsumed ctx document (filesOf ctx document page) tag then
            some ⟨tag.start, tag.stop, ""⟩ else none) := by
    rw [← List.filterMap_filter, List.filterMap_eq_map']
    simp only [Plan.ofText, filesOf, List.filterMap_map, List.map_map, List.flatMap_map]
    congr 3
    simp [Function.comp_def]
  rw [hsplit]
  refine (Lists.filterMap_append_perm ?_).trans (List.Perm.of_eq (List.filterMap_congr ?_))
  · intro tag _ hsome
    rw [Option.isSome_map] at hsome
    obtain ⟨text, htext⟩ := Option.isSome_iff_exists.1 hsome
    rw [if_neg]
    intro hloads
    exact hex tag text _ (folds_of_text? htext) ((loadsConsumed_iff hp).1 hloads)
  · intro tag _
    unfold edit?
    cases (planTag ctx document tag).text? with
    | some text => rfl
    | none =>
        rw [Option.map_none, Option.none_or, Option.none_or]
        split <;> rfl

/-! ### Kinds of files -/

variable {options : Options} {selection : Glob.Selection} {build : Build}

theorem excludes_script_sheet : ExcludeEachOther [".js", ".mjs"] [".css"] := by decide

theorem excludes_document_script : ExcludeEachOther [".html", ".htm"] [".js", ".mjs"] := by decide

theorem excludes_document_sheet : ExcludeEachOther [".html", ".htm"] [".css"] := by decide

/-- All chunks of a build have names of scripts. -/
def NamesScripts (build : Build) : Prop :=
  ∀ name code, build.get? name = some (.chunk code) → Build.isScriptName name = true

theorem isScriptName_of_mem_keys (hs : NamesScripts build) (h : file ∈ build.chunks.keys) :
    Build.isScriptName file = true := by
  obtain ⟨code, hcode⟩ := Dictionary.exists_get?_of_mem h
  exact hs file code (Build.chunks_get?_iff.1 hcode)

instance : Decidable (NamesScripts build) :=
  decidable_of_iff (∀ name ∈ build.chunks.keys, Build.isScriptName name = true)
    ⟨fun h name _ hc => h name (Dictionary.mem_keys_of_get? (Build.chunks_get?_iff.2 hc)),
      fun h _ => isScriptName_of_mem_keys h⟩

theorem endsIn_of_mem_stylesheets (h : file ∈ build.stylesheets) :
    Build.endsIn [".css"] file = true :=
  (List.mem_filter.1 h).2

theorem endsIn_of_mem_documents (h : file ∈ build.documents) :
    Build.endsIn [".html", ".htm"] file = true :=
  (List.mem_filter.1 h).2

theorem locate_of_entry {linker : Linker} {source : String} {importer? : Option String}
    {entry : Located} (h : linker.entry source importer? = .ok entry) :
    linker.catalog.locate source importer? = .ok entry := by
  unfold Linker.entry at h
  cases hl : linker.catalog.locate source importer? with
  | ok located =>
      rw [hl] at h
      cases h
      rfl
  | error error =>
      rw [hl] at h
      cases h

theorem kind_of_scriptSource? {source : String} (h : tag.scriptSource? = some source) :
    tag.kind = .script := by
  unfold Tag.scriptSource? at h
  split at h
  · assumption
  · cases h

theorem linked?_eq_some_iff {rel reference : String} : tag.linked? rel = some reference
    ↔ tag.kind = .link ∧ tag.hasRel rel = true ∧ tag.filled? "href" = some reference := by
  unfold Tag.linked?
  cases tag.kind with
  | script => simp
  | link => simp

/-- **No tag is both folded and removed.** -/
theorem not_preloads_of_folds (hs : NamesScripts build)
    (hf : Folds (.of build options selection) document tag text files) :
    ¬ Preloads (.of build options selection) document tag := by
  rintro ⟨reference, chunk, hr, hc, _⟩
  obtain ⟨hkind, _, hhref⟩ := linked?_eq_some_iff.1 hr
  cases hf with
  | script hsource =>
      rw [kind_of_scriptSource? hsource] at hkind
      cases hkind
  | style _ hstyle _ hl =>
      -- Both read the same reference, once among the scripts and once among the stylesheets.
      obtain ⟨_, _, hhref'⟩ := linked?_eq_some_iff.1 hstyle
      rw [hhref] at hhref'
      cases hhref'
      exact Catalog.not_locate_both (by decide) (by decide) excludes_script_sheet
        (fun _ => isScriptName_of_mem_keys hs) (fun _ => endsIn_of_mem_stylesheets) hc hl

/-- What is folded into a document is a script of the build or a stylesheet. -/
theorem mem_of_foldedIn (h : FoldedIn (.of build options selection) file) :
    file ∈ build.chunks.keys ∨ file ∈ build.stylesheets := by
  obtain ⟨document, _, page, _, tag, _, text, files, hf, hm⟩ := h
  cases hf with
  | @script _ entry _ _ he _ =>
      have hentry : entry.id ∈ build.chunks.keys :=
        (Catalog.within_ofList _).locate (locate_of_entry he)
      refine .inl ?_
      rcases Link.mem_consumed_iff.1 hm with rfl | hm
      · exact hentry
      · exact meeting_nodes.keys_subset (mem_nodes_of_mem_order hm)
  | style _ _ _ hl =>
      rw [List.mem_singleton.1 hm]
      exact .inr ((Catalog.within_ofList _).locate hl)

/-- What a document holds are scripts and stylesheets. -/
theorem endsIn_of_foldedIn (hs : NamesScripts build)
    (h : FoldedIn (.of build options selection) file) :
    Build.isScriptName file = true ∨ Build.endsIn [".css"] file = true :=
  (mem_of_foldedIn h).imp (isScriptName_of_mem_keys hs) endsIn_of_mem_stylesheets

theorem foldedIn_of_mem_deleted (h : file ∈ (run options selection build).report.deleted) :
    FoldedIn (.of build options selection) file := by
  by_cases hd : options.deleteFolded = true
  · exact ((mem_deleted_iff hd).1 h).1
  · have h : file ∈ (if options.deleteFolded then _ else []) := h
    rw [if_neg hd] at h
    cases h

/-- **No document is deleted.** -/
theorem document_not_deleted (hs : NamesScripts build) (hd : document ∈ build.documents) :
    document ∉ (run options selection build).report.deleted := by
  intro hm
  have hend := endsIn_of_mem_documents hd
  rcases endsIn_of_foldedIn hs (foldedIn_of_mem_deleted hm) with h | h
  · exact excludes_document_script.not_endsIn hend h
  · exact excludes_document_sheet.not_endsIn hend h

/-- A document that is text is kept as bytes. -/
theorem get?_of_document (hs : NamesScripts build) (hd : document ∈ build.documents)
    (hp : build.text? document = some page) : build.get? document = some (.asset page.toUTF8) := by
  obtain ⟨item, hitem, htext⟩ := Option.bind_eq_some_iff.1 hp
  cases item with
  | chunk code =>
      exact absurd (hs document code hitem)
        (excludes_document_script.not_endsIn (endsIn_of_mem_documents hd))
  | asset bytes =>
      have hsame : Item.asset page.toUTF8 = .asset bytes := Item.withText_of_text? htext
      rw [hitem, hsame]

/-! ### Runs -/

/-- **What a run writes.**  The chunks of the build have names of scripts, and in its documents that
are text no two tags overlap.  Then each of these documents is written as the one text in which every
tag of the document has given place to what is folded in for it, to nothing if it loads a file ahead
that the document holds, or else to itself; no tag is to give place to two things.  Every other file
that is not deleted is written as it was read. -/
theorem run_rewrites (options : Options) (selection : Glob.Selection) (build : Build)
    (hs : NamesScripts build)
    (hapart : ∀ document ∈ build.documents, ∀ page, build.text? document = some page → Apart page) :
    (∀ document ∈ build.documents, ∀ page, build.text? document = some page →
      build.get? document = some (.asset page.toUTF8) ∧
      (∀ tag text files, Folds (.of build options selection) document tag text files →
        ¬ Preloads (.of build options selection) document tag) ∧
      ∃ result : String,
        (run options selection build).build.get? document = some (.asset result.toUTF8) ∧
        ∀ other, Rewritten (TakesPlace (.of build options selection) document) 0 (tags page)
          page.toList other ↔ other = result.toList) ∧
    (∀ name, (name ∈ build.documents → build.text? name = none) →
      name ∉ (run options selection build).report.deleted →
      (run options selection build).build.get? name = build.get? name) := by
  constructor
  · intro document hd page hp
    have hex : ∀ tag text files, Folds (.of build options selection) document tag text files →
        ¬ Preloads (.of build options selection) document tag :=
      fun _ _ _ => not_preloads_of_folds hs
    have hitem := get?_of_document hs hd hp
    have hplan : Plan.of (.of build options selection) document
        = Plan.ofText (.of build options selection) document page := Plan.of_eq_ofText hp
    have htext : (Item.asset page.toUTF8).text? = some page := by
      have hbind : (build.get? document).bind Item.text? = some page := hp
      rwa [hitem] at hbind
    have hrewritten : Rewritten (TakesPlace (.of build options selection) document) 0 (tags page)
        page.toList ((Plan.ofText (.of build options selection) document page).rewritten page).toList :=
      (rewritten_of_perm (hapart document hd page hp) (replacements_perm hp hex)).mono
        fun _ _ _ _ => takesPlace_of_edited hp
    refine ⟨hitem, hex, (Plan.ofText (.of build options selection) document page).rewritten page, ?_, ?_⟩
    · rw [get?_run_of_document hd hitem htext, if_neg (document_not_deleted hs hd), hplan]
      rfl
    · intro other
      constructor
      · intro h
        exact Rewritten.unique (fun t _ _ _ _ hw hw' => hw.unique (hex t) hw') h hrewritten
      · rintro rfl
        exact hrewritten
  · intro name huntouched hstays
    rw [get?_run_of_untouched huntouched, if_neg hstays]

/-- A page that loads a script, also ahead. -/
def smallPage : String := "<script src=a.js></script>\u00b5<link rel=modulepreload href=a.js>"

/-- The document `p.html` is that page, and the document `q.html` is no text. -/
def smallSite : Build :=
  .ofList [("a.js", .chunk "a()"), ("p.html", .asset smallPage.toUTF8), ("q.html", .asset ⟨#[255]⟩)]

theorem smallSite_rewritten :
    NamesScripts smallSite ∧
    (∀ document ∈ smallSite.documents, ∀ page, smallSite.text? document = some page → Apart page) ∧
    (run {} ⟨[]⟩ smallSite).build.get? "p.html"
      = some (.asset "<script>a()</script>\u00b5".toUTF8) ∧
    (run {} ⟨[]⟩ smallSite).build.get? "q.html" = some (.asset ⟨#[255]⟩) := by
  have hnames : NamesScripts smallSite := by decide +kernel
  have hapart : ∀ document ∈ smallSite.documents, ∀ page, smallSite.text? document = some page →
      Apart page := by
    decide +kernel
  have hpage : smallSite.text? "p.html" = some smallPage := by decide +kernel
  have htags : tags smallPage = [⟨.script, 0, 26, [⟨"src", some "a.js"⟩], ""⟩,
      ⟨.link, 28, 62, [⟨"rel", some "modulepreload"⟩, ⟨"href", some "a.js"⟩], ""⟩] := by
    rw [tags_of_sorted (by decide +kernel)]
    decide +kernel
  have hfolds : Folds (.of smallSite {} ⟨[]⟩) "p.html" ⟨.script, 0, 26, [⟨"src", some "a.js"⟩], ""⟩
      "<script>a()</script>" ["a.js"] :=
    folds_iff.2 ⟨by decide +kernel, by decide +kernel⟩
  have hholds : HoldsFile (.of smallSite {} ⟨[]⟩) "p.html" "a.js" :=
    ⟨smallPage, hpage, _, by rw [htags]; exact List.mem_cons_self, _, _, hfolds, by decide⟩
  have hpreloads : Preloads (.of smallSite {} ⟨[]⟩) "p.html"
      ⟨.link, 28, 62, [⟨"rel", some "modulepreload"⟩, ⟨"href", some "a.js"⟩], ""⟩ :=
    ⟨"a.js", ⟨"a.js", false, 1⟩, by decide +kernel, by decide +kernel, hholds⟩
  have hrewritten : Rewritten (TakesPlace (.of smallSite {} ⟨[]⟩) "p.html") 0 (tags smallPage)
      smallPage.toList "<script>a()</script>\u00b5".toList := by
    have hsplit : smallPage.toList = [] ++ "<script src=a.js></script>".toList
        ++ (['\u00b5'] ++ "<link rel=modulepreload href=a.js>".toList ++ []) := by
      decide +kernel
    have hjoin : "<script>a()</script>\u00b5".toList
        = [] ++ "<script>a()</script>".toList ++ (['\u00b5'] ++ [] ++ []) := by
      decide +kernel
    rw [htags, hsplit, hjoin]
    exact .tag (by decide +kernel) (by decide +kernel) (.folded hfolds)
      (.tag (by decide +kernel) (by decide +kernel) (.removed hpreloads) (.rest []))
  obtain ⟨hdocuments, hothers⟩ := run_rewrites {} ⟨[]⟩ smallSite hnames hapart
  obtain ⟨_, _, result, hresult, hone⟩ := hdocuments "p.html" (by decide +kernel) smallPage hpage
  have hq : "q.html" ∈ smallSite.documents := by decide +kernel
  refine ⟨hnames, hapart, ?_, ?_⟩
  · rw [hresult, ← String.toList_inj.1 ((hone _).1 hrewritten)]
  · rw [hothers "q.html" (fun _ => by decide +kernel) (document_not_deleted hnames hq)]
    decide +kernel

end Pagefold.Fold
