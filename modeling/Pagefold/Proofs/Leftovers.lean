import Mathlib.Data.List.Sort
import Pagefold.Proofs.Catalogs
import Pagefold.Proofs.Documents

/-! # The build that a run leaves

A run takes files out of a build and gives documents new texts.  So the scripts and the stylesheets of
the build that it leaves are those that were not deleted, in their order (`keys_chunks_run`,
`stylesheets_run`), and all documents are there (`documents_run`).  What a tag that was left in refers to
is not deleted, and among the files that are left its reference means the same one.  Hence a tag like one
that was left in is not folded in a run on the new build (`not_folds_again`). -/

namespace Pagefold.Fold

open Page Link

variable {options : Options} {selection : Glob.Selection} {build : Build}
  {document file name reference text : String} {files : List String} {tag tag' : Tag}

/-! ### Files -/

/-- Whether a file is there after a run. -/
def isLeft (options : Options) (selection : Glob.Selection) (build : Build) (name : String) : Bool :=
  !(run options selection build).report.deleted.contains name

theorem isLeft_iff : isLeft options selection build name = true
    ↔ name ∉ (run options selection build).report.deleted := by
  simp [isLeft]

/-- A file is a document with a text, or a run does not touch it. -/
theorem untouched_or_text (build : Build) (name : String) : (name ∈ build.documents → build.text? name = none) ∨
    name ∈ build.documents ∧ ∃ item page, build.get? name = some item ∧ item.text? = some page := by
  by_cases h : name ∈ build.documents → build.text? name = none
  · exact .inl h
  · rw [Classical.not_imp] at h
    obtain ⟨page, hpage⟩ := Option.ne_none_iff_exists'.1 h.2
    obtain ⟨item, hitem, htext⟩ := Option.bind_eq_some_iff.1 hpage
    exact .inr ⟨h.1, item, page, hitem, htext⟩

theorem isSome_get?_run : ((run options selection build).build.get? name).isSome = true
    ↔ (build.get? name).isSome = true ∧ isLeft options selection build name = true := by
  rw [isLeft_iff]
  rcases untouched_or_text build name with h | ⟨hd, item, page, hitem, htext⟩
  · rw [get?_run_of_untouched h]
    split
    · simp [*]
    · simp [*]
  · rw [get?_run_of_document hd hitem htext, hitem]
    split
    · simp [*]
    · simp [*]

theorem names_run (options : Options) (selection : Glob.Selection) (build : Build) :
    (run options selection build).build.names = build.names.filter (isLeft options selection build) := by
  refine List.Pairwise.eq_of_mem_iff (Table.sorted _) ((Table.sorted _).filter _) fun name => ?_
  rw [List.mem_filter, Build.mem_names_iff, Build.mem_names_iff, isSome_get?_run]

theorem stylesheets_run (options : Options) (selection : Glob.Selection) (build : Build) :
    (run options selection build).build.stylesheets
      = build.stylesheets.filter (isLeft options selection build) := by
  rw [Build.stylesheets, names_run, List.filter_comm, Build.stylesheets]

/-- **All documents are there** after a run. -/
theorem documents_run (hs : NamesScripts build) :
    (run options selection build).build.documents = build.documents := by
  rw [Build.documents, names_run, List.filter_comm]
  exact List.filter_eq_self.2 fun _ hd => isLeft_iff.2 (document_not_deleted hs hd)

/-- What is deleted was there. -/
theorem mem_names_of_mem_deleted (h : name ∈ (run options selection build).report.deleted) : name ∈ build.names := by
  rcases mem_of_foldedIn (foldedIn_of_mem_deleted h) with hchunk | hsheet
  · obtain ⟨code, hcode⟩ := Dictionary.exists_get?_of_mem hchunk
    exact Build.mem_names_iff.2 (by rw [Build.chunks_get?_iff.1 hcode]; rfl)
  · exact List.mem_of_mem_filter hsheet

/-- A run does not take out everything. -/
theorem names_run_ne_nil (options : Options) (selection : Glob.Selection) (hs : NamesScripts build)
    (h : build.names ≠ []) :
    (run options selection build).build.names ≠ [] := by
  obtain ⟨name, hname⟩ := List.exists_mem_of_ne_nil _ h
  rw [names_run]
  by_cases hdeleted : name ∈ (run options selection build).report.deleted
  · -- The document into which it was folded stays.
    obtain ⟨document, hd, _⟩ := foldedIn_of_mem_deleted hdeleted
    have hleft : isLeft options selection build document = true := isLeft_iff.2 (document_not_deleted hs hd)
    exact List.ne_nil_of_mem (List.mem_filter.2 ⟨List.mem_of_mem_filter hd, hleft⟩)
  · exact List.ne_nil_of_mem (List.mem_filter.2 ⟨hname, isLeft_iff.2 hdeleted⟩)

/-- A file that is left and is no document is as it was. -/
theorem get?_run_of_left (hdoc : name ∉ build.documents)
    (hleft : isLeft options selection build name = true) :
    (run options selection build).build.get? name = build.get? name := by
  rw [get?_run_of_untouched fun h => absurd h hdoc, if_neg (isLeft_iff.1 hleft)]

theorem get?_run_chunk_iff (hs : NamesScripts build) {code : String} :
    (run options selection build).build.get? name = some (.chunk code)
      ↔ build.get? name = some (.chunk code) ∧ isLeft options selection build name = true := by
  rw [isLeft_iff]
  rcases untouched_or_text build name with h | ⟨hd, item, page, hitem, htext⟩
  · rw [get?_run_of_untouched h]
    split
    · simp [*]
    · simp [*]
  · -- A document that is text is kept as bytes, before and after.
    have hasset := get?_of_document hs hd (Option.bind_eq_some_iff.2 ⟨item, hitem, htext⟩)
    obtain rfl := Option.some.inj (hasset.symm.trans hitem)
    rw [get?_run_of_document hd hitem htext, if_neg (document_not_deleted hs hd), hitem]
    simp [Item.withText]

theorem keys_chunks_run (hs : NamesScripts build) : (run options selection build).build.chunks.keys
    = build.chunks.keys.filter (isLeft options selection build) := by
  refine List.Pairwise.eq_of_mem_iff (Build.keys_chunks_sorted _) ((Build.keys_chunks_sorted _).filter _)
    fun name => ?_
  have hkey : ∀ b : Build, name ∈ b.chunks.keys ↔ ∃ code, b.get? name = some (.chunk code) := by
    intro b
    simp only [← Build.chunks_get?_iff]
    exact ⟨Dictionary.exists_get?_of_mem, fun ⟨_, h⟩ => Dictionary.mem_keys_of_get? h⟩
  simp only [List.mem_filter, hkey, get?_run_chunk_iff hs, exists_and_right]

theorem text?_asset (text : String) : (Item.asset text.toUTF8).text? = some text := by
  show String.fromUTF8? text.toUTF8 = some text
  unfold String.fromUTF8?
  split
  · rfl
  · rename_i h
    exact absurd text.isValidUTF8 h

/-- A document that is text afterwards was text before, and is what its plan makes of that. -/
theorem text?_run_of_document (hs : NamesScripts build) (hd : document ∈ build.documents)
    (h : (run options selection build).build.text? document = some text) :
    ∃ page, build.text? document = some page ∧
      text = (Plan.ofText (.of build options selection) document page).rewritten page := by
  cases hp : build.text? document with
  | none =>
      rw [Build.text?, get?_run_of_untouched fun _ => hp, if_neg (document_not_deleted hs hd)] at h
      exact absurd (hp.symm.trans h) (by simp)
  | some page =>
      have hplan : Plan.of (.of build options selection) document
          = Plan.ofText (.of build options selection) document page := Plan.of_eq_ofText hp
      rw [Build.text?, get?_run_of_document hd (get?_of_document hs hd hp) (text?_asset page),
        if_neg (document_not_deleted hs hd), hplan] at h
      refine ⟨page, rfl, ?_⟩
      exact (Option.some.inj ((text?_asset _).symm.trans h)).symm

/-! ### References -/

theorem not_needed_of_mem_deleted (h : file ∈ (run options selection build).report.deleted) :
    ¬ Needed (.of build options selection) file := by
  by_cases hd : options.deleteFolded = true
  · exact ((mem_deleted_iff hd).1 h).2
  · have h : file ∈ (if options.deleteFolded then _ else []) := h
    rw [if_neg hd] at h
    cases h

/-- What a tag that is left in refers to is left. -/
theorem isLeft_of_refersTo (hd : document ∈ build.documents)
    (hleft : LeftIn (.of build options selection) document tag)
    (hr : RefersTo (.of build options selection) document tag file) :
    isLeft options selection build file = true :=
  isLeft_iff.2 fun hm => not_needed_of_mem_deleted hm (.byTag ⟨document, hd, tag, hleft, hr⟩)

theorem attribute?_of_filled? (h : tag.filled? name = some reference) :
    tag.attribute? name = some reference :=
  (Option.filter_eq_some_iff.1 h).1

theorem filled?_of_scriptSource? (h : tag.scriptSource? = some reference) :
    tag.filled? "src" = some reference := by
  unfold Tag.scriptSource? at h
  split at h
  · exact h
  · cases h

theorem entry_of_locate {linker : Linker} {importer? : Option String} {located : Located}
    (h : linker.catalog.locate reference importer? = .ok located) :
    linker.entry reference importer? = .ok located := by
  rw [Linker.entry, h]
  rfl

/-- A reference to a script that is left in means the same script afterwards. -/
theorem locate_script_again (hs : NamesScripts build) (hd : document ∈ build.documents)
    (hleft : LeftIn (.of build options selection) document tag) (hname : name ∈ ["src", "href"])
    (ha : tag.attribute? name = some reference) {located' : Located}
    (h : (Context.of (run options selection build).build options selection).linker.catalog.locate reference
      (some document) = .ok located') :
    ∃ located, (Context.of build options selection).linker.catalog.locate reference (some document)
      = .ok located ∧ located.id = located'.id := by
  have hcatalog : (Context.of (run options selection build).build options selection).linker.catalog
      = .ofList (build.chunks.keys.filter (isLeft options selection build)) := by
    rw [← keys_chunks_run hs]
    rfl
  rw [hcatalog] at h
  obtain ⟨located, hlocated, hsame⟩ := Catalog.locate_of_filter (Dictionary.keys_nodup _) h
  exact ⟨located, hlocated, hsame (isLeft_of_refersTo hd hleft ⟨name, hname, reference, ha, .chunk hlocated⟩)⟩

/-- A reference to a stylesheet that is left in means the same stylesheet afterwards. -/
theorem locate_sheet_again (hs : NamesScripts build) (hd : document ∈ build.documents)
    (hleft : LeftIn (.of build options selection) document tag) (hname : name ∈ ["src", "href"])
    (ha : tag.attribute? name = some reference) {located' : Located}
    (h : (Context.of (run options selection build).build options selection).stylesheets.locate reference
      (some document) = .ok located') :
    ∃ located, (Context.of build options selection).stylesheets.locate reference (some document)
      = .ok located ∧ located.id = located'.id ∧ isLeft options selection build located.id = true := by
  have hcatalog : (Context.of (run options selection build).build options selection).stylesheets
      = .ofList (build.stylesheets.filter (isLeft options selection build)) := by
    rw [← stylesheets_run]
    rfl
  rw [hcatalog] at h
  obtain ⟨located, hlocated, hsame⟩ := Catalog.locate_of_filter ((Table.keys_nodup _).filter _) h
  have hmeans : Means (.of build options selection) document reference located.id := by
    cases hchunk : (Context.of build options selection).linker.catalog.locate reference (some document) with
    | error error => exact .sheet hchunk hlocated
    | ok chunk =>
        exact (Catalog.not_locate_both (by decide) (by decide) excludes_script_sheet
          (fun _ => isScriptName_of_mem_keys hs) (fun _ => endsIn_of_mem_stylesheets) hchunk hlocated).elim
  have hkept := isLeft_of_refersTo hd hleft ⟨name, hname, reference, ha, hmeans⟩
  exact ⟨located, hlocated, hsame hkept, hkept⟩

theorem filled?_congr (h : tag'.attributes = tag.attributes) (name : String) :
    tag'.filled? name = tag.filled? name := by
  rw [Tag.filled?, Tag.attribute?, h]
  rfl

theorem scriptSource?_congr (hkind : tag'.kind = tag.kind) (h : tag'.attributes = tag.attributes) :
    tag'.scriptSource? = tag.scriptSource? := by
  rw [Tag.scriptSource?, Tag.scriptSource?, hkind, filled?_congr h]

theorem stylesheet?_congr (hkind : tag'.kind = tag.kind) (h : tag'.attributes = tag.attributes) :
    tag'.stylesheet? = tag.stylesheet? := by
  have hrel : tag'.hasRel "stylesheet" = tag.hasRel "stylesheet" := by
    rw [Tag.hasRel, Tag.hasRel, Tag.attribute?, Tag.attribute?, h]
  rw [Tag.stylesheet?, Tag.stylesheet?, Tag.linked?, Tag.linked?, hkind, filled?_congr h, hrel]

/-- **A tag that was left in is not folded later**, nor is any tag like it. -/
theorem not_folds_again (hs : NamesScripts build) (hd : document ∈ build.documents)
    (hleft : LeftIn (.of build options selection) document tag) (hkind : tag'.kind = tag.kind)
    (hattributes : tag'.attributes = tag.attributes) :
    ¬ Folds (.of (run options selection build).build options selection) document tag' text files := by
  have hnot : ∀ text files, ¬ Folds (.of build options selection) document tag text files := by
    obtain ⟨_, _, _, hnot, _⟩ := hleft
    exact hnot
  intro h
  cases h with
  | script hs' hlocal he ha =>
      rw [scriptSource?_congr hkind hattributes] at hs'
      have hsrc := attribute?_of_filled? (filled?_of_scriptSource? hs')
      obtain ⟨located, hlocated, hid⟩ := locate_script_again hs hd hleft (by simp) hsrc (locate_of_entry he)
      rw [← hid] at ha
      exact hnot _ _ (.script hs' hlocal (entry_of_locate hlocated) ha)
  | @style reference sheet css hs' hr hlocal hl ha ht =>
      rw [scriptSource?_congr hkind hattributes] at hs'
      rw [stylesheet?_congr hkind hattributes] at hr
      have hhref := attribute?_of_filled? (linked?_eq_some_iff.1 hr).2.2
      obtain ⟨located, hlocated, hid, hkept⟩ := locate_sheet_again hs hd hleft (by simp) hhref hl
      rw [← hid] at ha ht
      -- A stylesheet is no document, so it is as it was.
      have hsheet : located.id ∈ build.stylesheets := (Catalog.within_ofList _).locate hlocated
      have hother : located.id ∉ build.documents := fun hdoc =>
        excludes_document_sheet.not_endsIn (endsIn_of_mem_documents hdoc) (endsIn_of_mem_stylesheets hsheet)
      have htext : build.text? located.id = some css := by
        rw [Build.text?, ← get?_run_of_left hother hkept]
        exact ht
      exact hnot _ _ (.style hs' hr hlocal hlocated ha htext)

end Pagefold.Fold
