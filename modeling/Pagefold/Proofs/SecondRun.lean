import Pagefold.Proofs.Elements
import Pagefold.Proofs.Leftovers
import Pagefold.Proofs.Rescan

/-! # A second run

A build is *settled* when no tag of its documents is folded, and a run leaves a settled build as it is
(`run_of_settled`).  The build that a run leaves is settled (`settled_run`): in the new texts of the
documents there are only tags like those that were left in, which are not folded later, and script
elements without a `src`, as long as nothing that is put in or taken out makes a new tag
(`KeepsTags`). -/

namespace Pagefold.Fold

open Page Link Text

variable {options : Options} {selection : Glob.Selection} {build : Build} {ctx : Context}
  {document page text : String} {files : List String} {tag : Tag}

/-! ### Settled builds -/

/-- No tag of a document is folded. -/
def Settled (options : Options) (selection : Glob.Selection) (build : Build) : Prop :=
  ∀ document ∈ build.documents, ∀ page, build.text? document = some page → ∀ tag ∈ tags page,
    ∀ text files, ¬ Folds (.of build options selection) document tag text files

theorem report_of_text?_eq_none (h : (planTag ctx document tag).text? = none) :
    (planTag ctx document tag).script? = none ∧ (planTag ctx document tag).style? = none := by
  revert h
  unfold planTag
  split
  · unfold planScript
    split
    · exact fun _ => ⟨rfl, rfl⟩
    · split
      · exact fun _ => ⟨rfl, rfl⟩
      · split
        · exact fun _ => ⟨rfl, rfl⟩
        · intro h
          cases h
  · unfold planStyle
    split
    · exact fun _ => ⟨rfl, rfl⟩
    · split
      · exact fun _ => ⟨rfl, rfl⟩
      · split
        · exact fun _ => ⟨rfl, rfl⟩
        · split
          · exact fun _ => ⟨rfl, rfl⟩
          · intro h
            cases h
  · exact fun _ => ⟨rfl, rfl⟩

theorem planTag_of_not_folds (h : ∀ text files, ¬ Folds ctx document tag text files) :
    (planTag ctx document tag).text? = none ∧ (planTag ctx document tag).consumed = [] := by
  rcases planTag_cases ctx document tag with ⟨text, files, hf⟩ | hnone
  · exact absurd hf (h text files)
  · exact hnone

theorem loadsConsumed_nil : loadsConsumed ctx document [] tag = false := by
  rw [loadsConsumed, Option.any_eq_false]
  intro reference _
  split
  · rfl
  · rfl

/-- The plan of a document in which no tag is folded does nothing. -/
theorem plan_of_not_folds (h : ∀ page, ctx.build.text? document = some page → ∀ tag ∈ tags page,
    ∀ text files, ¬ Folds ctx document tag text files) :
    (Plan.of ctx document).replacements = [] ∧ (Plan.of ctx document).report.scripts = [] ∧
      (Plan.of ctx document).report.styles = [] := by
  unfold Plan.of
  split
  · exact ⟨rfl, rfl, rfl⟩
  · rename_i page hp
    have hnone : ∀ tag ∈ tags page, (planTag ctx document tag).text? = none ∧
        (planTag ctx document tag).consumed = [] := fun tag ht => planTag_of_not_folds (h page hp tag ht)
    have hfiles : filesOf ctx document page = [] :=
      List.flatMap_eq_nil_iff.2 fun tag ht => (hnone tag ht).2
    refine ⟨List.append_eq_nil_iff.2 ⟨?_, ?_⟩, ?_, ?_⟩
    · refine List.filterMap_eq_nil_iff.2 fun p hp => ?_
      obtain ⟨tag, ht, rfl⟩ := List.mem_map.1 hp
      dsimp only
      rw [(hnone tag ht).1]
      rfl
    · -- Nothing is held, so no tag loads ahead what is held.
      rw [List.flatMap_map]
      refine List.map_eq_nil_iff.2 (List.filter_eq_nil_iff.2 fun tag _ => ?_)
      rw [filesOf] at hfiles
      rw [hfiles, loadsConsumed_nil]
      exact Bool.false_ne_true
    · refine List.filterMap_eq_nil_iff.2 fun p hp => ?_
      obtain ⟨tag, ht, rfl⟩ := List.mem_map.1 hp
      exact (report_of_text?_eq_none (hnone tag ht).1).1
    · refine List.filterMap_eq_nil_iff.2 fun p hp => ?_
      obtain ⟨tag, ht, rfl⟩ := List.mem_map.1 hp
      exact (report_of_text?_eq_none (hnone tag ht).1).2

/-- **A settled build** is left as it is. -/
theorem run_of_settled (h : Settled options selection build) :
    (run options selection build).build = build ∧ (run options selection build).report.deleted = [] ∧
      ∀ d ∈ (run options selection build).report.documents, d.scripts = [] ∧ d.styles = [] := by
  have hplans : ∀ plan ∈ build.documents.map (Plan.of (.of build options selection)),
      plan.replacements = [] ∧ plan.report.scripts = [] ∧ plan.report.styles = [] := by
    intro plan hplan
    obtain ⟨document, hd, rfl⟩ := List.mem_map.1 hplan
    exact plan_of_not_folds (h document hd)
  have hdeleted : (run options selection build).report.deleted = [] := by
    refine List.eq_nil_iff_forall_not_mem.2 fun file hm => ?_
    obtain ⟨document, hd, page, hp, tag, ht, text, files, hf, _⟩ := foldedIn_of_mem_deleted hm
    exact h document hd page hp tag ht text files hf
  refine ⟨?_, hdeleted, ?_⟩
  · have happly : ∀ plan ∈ build.documents.map (Plan.of (.of build options selection)),
        plan.apply build = build := by
      intro plan hplan
      unfold Plan.apply
      split
      · rfl
      · rw [(hplans plan hplan).1]
        rfl
    have hfold : (build.documents.map (Plan.of (.of build options selection))).foldl Plan.apply build
        = build :=
      List.foldlRecOn (motive := fun b => b = build) _ _ rfl fun _ hb plan hplan => hb ▸ happly plan hplan
    show (List.foldl Plan.apply build _).eraseAll (run options selection build).report.deleted = build
    rw [hfold, hdeleted]
    rfl
  · intro d hd
    obtain ⟨plan, hplan, rfl⟩ := List.mem_map.1 hd
    exact (hplans plan hplan).2

/-! ### Documents that a run writes -/

/-- What a run puts into the page of a document, or takes out, makes no new tag: the tags of the page do
not overlap, no tag starts in a stylesheet that is folded in, and in front of a tag that is removed
nothing stands that could grow into a tag. -/
structure KeepsTags (ctx : Context) (document page : String) : Prop where
  apart : Apart page
  inert : ∀ tag ∈ tags page, tag.kind = .link → ∀ text files, Folds ctx document tag text files →
    Inert text.toList
  clear : ∀ tag ∈ tags page, Preloads ctx document tag → ClearBefore page.toList tag

/-- A tag is neither folded nor removed. -/
def Stands (ctx : Context) (document : String) (tag : Tag) : Prop :=
  (∀ text files, ¬ Folds ctx document tag text files) ∧ ¬ Preloads ctx document tag

theorem open_styleElement (css : String) :
    (styleElement css).toList.head? = some '<' ∧ Marked (styleElement css).toList := by
  have hopen : "<style>".toList = '<' :: "style>".toList := by decide
  have hclose : "</style>".toList = "</style".toList ++ ['>'] := by decide
  rw [styleElement, String.toList_append, String.toList_append, hopen, hclose]
  exact ⟨rfl, by rw [← List.append_assoc]; exact marked_append_mark _⟩

/-- Under these conditions each tag gives place to something that makes no new tag. -/
theorem swap_of_takesPlace {own new : List Char} (hkeeps : KeepsTags ctx document page) (ht : tag ∈ tags page)
    (h : TakesPlace ctx document tag own new) : Swap (Stands ctx document) page.toList tag own new := by
  cases h with
  | @folded text files _ hf =>
      cases hf with
      | script hs hlocal he ha =>
          obtain ⟨element, hsrc, hread⟩ := exists_readScript?_scriptElement
            (fun _ => isProper_of_mem_tags ht)
            (foldedScript ctx.options (ctx.linker.flatten _)) ctx.options.cdata
          exact .script (kind_of_scriptSource? hs) hsrc hread
      | style hs hr hlocal hl ha htext =>
          obtain ⟨hopen, hmarked⟩ := open_styleElement _
          exact .inert (linked?_eq_some_iff.1 hr).1 hopen hmarked (hkeeps.inert tag ht
            (linked?_eq_some_iff.1 hr).1 _ _ (.style hs hr hlocal hl ha htext))
  | removed hp =>
      obtain ⟨_, _, hr, _⟩ := id hp
      exact .gone (linked?_eq_some_iff.1 hr).1 (hkeeps.clear tag ht hp)
  | left hf hp => exact .left ⟨hf, hp⟩

/-- **The tags of a rewritten page** are like tags that were left in, or scripts without a `src`. -/
theorem remains_of_rewritten (hkeeps : KeepsTags ctx document page) {result : String}
    (h : Rewritten (TakesPlace ctx document) 0 (tags page) page.toList result.toList) :
    ∀ tag ∈ tags result, Remains (Stands ctx document) (tags page) tag := by
  have hswaps : Rewritten (Swap (Stands ctx document) page.toList) (byteSize []) (tags page) page.toList
      result.toList := h.mono fun tag ht _ _ => swap_of_takesPlace hkeeps ht
  have hrescanned : Rescanned (Stands ctx document) (tags page) result.toList page.toList :=
    @rescanned_of_rewritten _ _ _ _ _ [] (scanned_of_apart hkeeps.apart) hswaps rfl
  obtain ⟨ts, hts, hremains⟩ := hrescanned.scanned 0
  rw [hts.tags_eq]
  exact hremains

/-- A script element without a `src` is not folded. -/
theorem not_folds_of_unsourced (hk : tag.kind = .script) (hsrc : ∀ a ∈ tag.attributes, a.name ≠ "src") :
    ¬ Folds ctx document tag text files := by
  intro h
  cases h with
  | script hs =>
      obtain ⟨a, ha, _⟩ := Option.map_eq_some_iff.1 (attribute?_of_filled? (filled?_of_scriptSource? hs))
      exact hsrc a (List.mem_of_find?_eq_some ha) (by simpa using List.find?_some ha)
  | style _ hr =>
      rw [(linked?_eq_some_iff.1 hr).1] at hk
      cases hk

/-- **The build that a run leaves is settled.** -/
theorem settled_run (hs : NamesScripts build) (hkeeps : ∀ document ∈ build.documents, ∀ page,
    build.text? document = some page → KeepsTags (.of build options selection) document page) :
    Settled options selection (run options selection build).build := by
  intro document hd result hresult tag ht text files
  rw [documents_run hs] at hd
  obtain ⟨page, hp, rfl⟩ := text?_run_of_document hs hd hresult
  have hkept := hkeeps document hd page hp
  have hperm := @replacements_perm (.of build options selection) document page hp
    fun _ _ _ => not_preloads_of_folds hs
  have hrewritten : Rewritten (TakesPlace (.of build options selection) document) 0 (tags page) page.toList
      ((Plan.ofText (.of build options selection) document page).rewritten page).toList :=
    (rewritten_of_perm hkept.apart hperm).mono fun _ _ _ _ => takesPlace_of_edited hp
  rcases remains_of_rewritten hkept hrewritten tag ht with ⟨hk, hsrc⟩ | ⟨left, hleft, hstands, hk, hattributes⟩
  · exact not_folds_of_unsourced hk hsrc
  · exact not_folds_again hs hd ⟨page, hp, hleft, hstands⟩ hk hattributes

/-- **A second run** changes nothing.  The chunks of the build have names of scripts, and what the first
run puts into the documents, or takes out, makes no new tag.  Then a second run leaves every file as the
first one left it, folds no script and no stylesheet into any document, and deletes nothing. -/
theorem second_run_idle (options : Options) (selection : Glob.Selection) (build : Build)
    (hs : NamesScripts build) (hkeeps : ∀ document ∈ build.documents, ∀ page,
      build.text? document = some page → KeepsTags (.of build options selection) document page) :
    (run options selection (run options selection build).build).build = (run options selection build).build ∧
    (run options selection (run options selection build).build).report.deleted = [] ∧
    ∀ d ∈ (run options selection (run options selection build).build).report.documents,
      d.scripts = [] ∧ d.styles = [] :=
  run_of_settled (settled_run hs hkeeps)

/-- A page that loads a stylesheet, a script, the script ahead, and a stylesheet that is not there. -/
def loadingPage : String :=
  "<link rel=stylesheet href=a.css><script src=a.js></script><link rel=modulepreload href=a.js>"
    ++ "<link rel=stylesheet href=none.css>"

/-- The document `p.html` is that page. -/
def loadingSite : Build :=
  .ofList [("a.css", .asset "a\x7b\x7d".toUTF8), ("a.js", .chunk "a()"), ("p.html", .asset loadingPage.toUTF8)]

theorem loadingSite_idle :
    NamesScripts loadingSite ∧
    (∀ document ∈ loadingSite.documents, ∀ page, loadingSite.text? document = some page →
      KeepsTags (.of loadingSite {} ⟨[]⟩) document page) ∧
    (run {} ⟨[]⟩ (run {} ⟨[]⟩ loadingSite).build).report.deleted = [] := by
  have hnames : NamesScripts loadingSite := by decide +kernel
  have htags : tags loadingPage = [⟨.link, 0, 32, [⟨"rel", some "stylesheet"⟩, ⟨"href", some "a.css"⟩], ""⟩,
      ⟨.script, 32, 58, [⟨"src", some "a.js"⟩], ""⟩,
      ⟨.link, 58, 92, [⟨"rel", some "modulepreload"⟩, ⟨"href", some "a.js"⟩], ""⟩,
      ⟨.link, 92, 127, [⟨"rel", some "stylesheet"⟩, ⟨"href", some "none.css"⟩], ""⟩] :=
    tags_eq_of_perm (by decide +kernel) (by decide +kernel)
  have hinert : ∀ tag ∈ tags loadingPage, tag.kind = .link →
      ∀ text ∈ (planTag (.of loadingSite {} ⟨[]⟩) "p.html" tag).text?, Inert text.toList := by
    rw [htags]
    decide +kernel
  have honly : ∀ tag ∈ tags loadingPage, tag.preloaded?.isSome = true → tag.start = 58 := by
    rw [htags]
    decide +kernel
  have hkeeps : ∀ document ∈ loadingSite.documents, ∀ page, loadingSite.text? document = some page →
      KeepsTags (.of loadingSite {} ⟨[]⟩) document page := by
    intro document hd page hp
    have hdocuments : loadingSite.documents = ["p.html"] := by decide +kernel
    rw [hdocuments] at hd
    obtain rfl := List.mem_singleton.1 hd
    have hpage : loadingSite.text? "p.html" = some loadingPage := by decide +kernel
    obtain rfl := Option.some.inj (hpage.symm.trans hp)
    refine ⟨by decide +kernel, ?_, ?_⟩
    · intro tag ht hk text files hf
      exact hinert tag ht hk text hf.plan.1
    · rintro tag ht ⟨reference, _, hr, _⟩
      have hstart : tag.start = 58 := honly tag ht (by rw [hr]; rfl)
      have hsplit : loadingPage.toList
          = "<link rel=stylesheet href=a.css><script src=a.js></script".toList ++ ['>']
            ++ "<link rel=modulepreload href=a.js><link rel=stylesheet href=none.css>".toList := by
        decide +kernel
      exact clearBefore_of_marked hsplit (by rw [hstart]; decide +kernel) (marked_append_mark _)
  exact ⟨hnames, hkeeps, (second_run_idle {} ⟨[]⟩ loadingSite hnames hkeeps).2.1⟩

/-- A page with a stylesheet in which a link tag stands between quotes. -/
def quotingSite : Build :=
  .ofList [("a.css", .asset "a::after\x7bcontent:\"<link rel=stylesheet href=b.css>\"\x7d".toUTF8),
    ("b.css", .asset "b\x7b\x7d".toUTF8), ("p.html", .asset "<link rel=stylesheet href=a.css>".toUTF8)]

/-- In the page that the first run writes, the second one finds the link tag of the stylesheet. -/
theorem quotingSite_not_idle :
    (run {} ⟨[]⟩ quotingSite).report.documents = [⟨"p.html", [], ["a.css"]⟩] ∧
    (run {} ⟨[]⟩ (run {} ⟨[]⟩ quotingSite).build).report.documents = [⟨"p.html", [], ["b.css"]⟩] ∧
    (run {} ⟨[]⟩ (run {} ⟨[]⟩ quotingSite).build).report.deleted = ["b.css"] ∧
    (run {} ⟨[]⟩ (run {} ⟨[]⟩ quotingSite).build).build.get? "p.html"
      ≠ (run {} ⟨[]⟩ quotingSite).build.get? "p.html" := by
  decide +kernel

end Pagefold.Fold
