import Pagefold.Proofs.SecondRun
import Pagefold.Proofs.Sightings
import Pagefold.Proofs.Utf8

/-! # Referrers that a run does not see

What is imported by code that stands in a page is not needed on that account, nor is what a document
refers to that is no text.  So a run may delete it, if another page holds it: it deletes the same files
whatever code stands in a page (`inlineImport_deleted_iff`), and the same files as if a document that is
no text were not there (`unreadReference_deleted_iff`). -/

namespace Pagefold

/-- A build has the same scripts as another one if it has the same script items. -/
theorem Build.chunks_congr {b b' : Build}
    (h : ∀ id code, b.get? id = some (.chunk code) ↔ b'.get? id = some (.chunk code)) : b.chunks = b'.chunks := by
  have hmem : ∀ e, e ∈ codeOf b.items.entries ↔ e ∈ codeOf b'.items.entries := fun e =>
    mem_codeOf.trans (Table.get?_eq_some_iff.symm.trans ((h e.1 e.2).trans
      (Table.get?_eq_some_iff.trans mem_codeOf.symm)))
  have hsorted (b : Build) : (codeOf b.items.entries).Pairwise (·.1 < ·.1) :=
    List.pairwise_map.1 (b.items.sorted.sublist (codeOf_keys_sublist _))
  have hperm : (codeOf b.items.entries).Perm (codeOf b'.items.entries) :=
    (List.perm_ext_iff_of_nodup (.of_map _ b.codeOf_keys_nodup) (.of_map _ b'.codeOf_keys_nodup)).2 hmem
  have heq : codeOf b.items.entries = codeOf b'.items.entries :=
    hperm.eq_of_pairwise (fun _ _ _ _ hlt hgt => absurd hgt (String.lt_asymm hlt)) (hsorted b) (hsorted b')
  exact congrArg Dictionary.ofList heq

namespace Fold

open Page Link Text

variable {options : Options} {selection : Glob.Selection} {build build' : Build} {document page : String}

/-! ### Builds that differ in one document -/

/-- Two builds look alike that differ in one document only, if the same tags are seen in it. -/
theorem looksLike_of_agree (hname : Build.endsIn [".html", ".htm"] document = true)
    (hagree : ∀ name, name ≠ document → build.get? name = build'.get? name)
    (hchunk : ∀ code, build.get? document ≠ some (.chunk code) ∧ build'.get? document ≠ some (.chunk code))
    (hseen : seen build document = seen build' document) : LooksLike build build' where
  chunks := by
    refine Build.chunks_congr fun id code => ?_
    by_cases hid : id = document
    · subst hid
      exact iff_of_false (hchunk code).1 (hchunk code).2
    · rw [hagree id hid]
  stylesheets := by
    refine List.Pairwise.eq_of_mem_iff ((Table.sorted _).filter _) ((Table.sorted _).filter _) fun sheet => ?_
    rw [Build.stylesheets, Build.stylesheets, List.mem_filter, List.mem_filter]
    refine and_congr_left fun hsheet => ?_
    have hne : sheet ≠ document := fun he => excludes_document_sheet.not_endsIn hname (he ▸ hsheet)
    exact Build.mem_names_iff.trans ((hagree sheet hne) ▸ Build.mem_names_iff.symm)
  decoded := by
    intro sheet hsheet
    have hne : sheet ≠ document := fun he =>
      excludes_document_sheet.not_endsIn hname (he ▸ endsIn_of_mem_stylesheets hsheet)
    rw [Build.text?, Build.text?, hagree sheet hne]
  tags := by
    intro other
    by_cases hother : other = document
    · rw [hother, hseen]
    · have hmem : other ∈ build.documents ↔ other ∈ build'.documents := by
        unfold Build.documents
        rw [List.mem_filter, List.mem_filter, Build.mem_names_iff, Build.mem_names_iff, hagree other hother]
      unfold seen
      rw [Build.text?, Build.text?, hagree other hother]
      simp only [hmem]

/-- A page may be given other code, as long as its tags have the same attributes. -/
theorem looksLike_setText {page' : String} (hd : document ∈ build.documents)
    (hb : build.get? document = some (.asset page.toUTF8)) (htags : (tags page').map bare = (tags page).map bare) :
    LooksLike (build.setText document page') build := by
  have hset : (build.setText document page').get? document = some (.asset page'.toUTF8) := by
    rw [Build.get?_setText, if_pos rfl, hb]
    rfl
  have hd' : document ∈ (build.setText document page').documents :=
    List.mem_filter.2 ⟨Build.mem_names_iff.2 (by rw [hset]; rfl), endsIn_of_mem_documents hd⟩
  refine looksLike_of_agree (endsIn_of_mem_documents hd) (fun name hne => ?_) (fun code => ?_) ?_
  · rw [Build.get?_setText, if_neg hne]
  · rw [hset, hb]
    exact ⟨by simp, by simp⟩
  · have htext' : (build.setText document page').text? document = some page' := by
      rw [Build.text?, hset]
      exact text?_asset page'
    have htext : build.text? document = some page := by
      rw [Build.text?, hb]
      exact text?_asset page
    rw [seen, seen, if_pos hd', if_pos hd, htext', htext]
    exact htags

/-- A document that is no text may be taken out. -/
theorem looksLike_erase (hd : document ∈ build.documents) (hp : build.text? document = none) :
    LooksLike (build.erase document) build := by
  have herase (name : String) : (build.erase document).get? name = if name = document then none else build.get? name :=
    Table.get?_erase build.items document name
  have hd' : document ∉ (build.erase document).documents := by
    intro h
    have hsome := Build.mem_names_iff.1 (List.mem_of_mem_filter h)
    rw [herase, if_pos rfl] at hsome
    cases hsome
  refine looksLike_of_agree (endsIn_of_mem_documents hd) (fun name hne => ?_) (fun code => ⟨?_, fun hcode => ?_⟩) ?_
  · rw [herase, if_neg hne]
  · rw [herase, if_pos rfl]
    simp
  · rw [Build.text?, hcode] at hp
    cases hp
  · rw [seen, seen, if_neg hd', if_pos hd, hp]
    rfl

/-! ### Code in pages -/

/-- Code in a script element of a document imports a chunk. -/
structure ImportsInline (build : Build) (document : String) (tag : Tag) (chunk : String) : Prop where
  isDocument : document ∈ build.documents
  shown : ∃ page, build.text? document = some page ∧ tag ∈ tags page
  isScript : tag.kind = .script
  unsourced : tag.attribute? "src" = none
  imports : ∃ source ∈ ((Script.Segment.scan tag.body).filterMap Script.Segment.statement?).filterMap
    Script.Statement.source?, Resolves build.chunks document source chunk

/-- A script element with code of its own stays as it is. -/
theorem ImportsInline.leftIn {tag : Tag} {chunk : String} (h : ImportsInline build document tag chunk) :
    LeftIn (.of build options selection) document tag := by
  obtain ⟨page, hp, ht⟩ := h.shown
  refine ⟨page, hp, ht, fun text files => not_folds_of_unsourced h.isScript fun a ha hname => ?_, ?_⟩
  · have hnone := h.unsourced
    rw [Tag.attribute?, Option.map_eq_none_iff] at hnone
    exact absurd (beq_iff_eq.2 hname) (List.find?_eq_none.1 hnone a ha)
  · rintro ⟨reference, _, hr, _⟩
    have hkind := (linked?_eq_some_iff.1 hr).1
    rw [h.isScript] at hkind
    cases hkind

/-- **What code in a page imports** is deleted if a document holds it and nothing else needs it.  The script
element stays with its code; but a run deletes the same files whatever code stands in a page. -/
theorem inlineImport_deleted_iff (options : Options) (selection : Glob.Selection) (build : Build)
    (hd : options.deleteFolded = true) :
    (∀ document tag chunk, ImportsInline build document tag chunk →
      LeftIn (.of build options selection) document tag ∧
      (chunk ∉ (run options selection build).report.deleted ↔
        (FoldedIn (.of build options selection) chunk → Needed (.of build options selection) chunk))) ∧
    (∀ document page page', document ∈ build.documents → build.get? document = some (.asset page.toUTF8) →
      (tags page').map bare = (tags page).map bare →
      (run options selection (build.setText document page')).report.deleted
        = (run options selection build).report.deleted) := by
  refine ⟨fun document tag chunk h => ⟨h.leftIn, ?_⟩, fun document page page' hdoc hb htags => ?_⟩
  · rw [mem_deleted_iff hd, not_and, not_not]
  · exact (looksLike_setText hdoc hb htags).deleted_eq options selection

/-- A page that loads a chunk, and whose own code imports it. -/
def importingPage : String := "<script src=a.js></script><script type=module>import\"./a.js\"</script>"

/-- The page `p.html` with the chunk `a.js`. -/
def importingSite : Build := .ofList [("p.html", .asset importingPage.toUTF8), ("a.js", .chunk "")]

/-- The script element with the code. -/
def importingTag : Tag := ⟨.script, 26, 69, [⟨"type", some "module"⟩], "import\"./a.js\""⟩

theorem tags_importingPage :
    tags importingPage = [⟨.script, 0, 26, [⟨"src", some "a.js"⟩], ""⟩, importingTag] :=
  tags_eq_of_perm (by decide +kernel) (by decide +kernel)

theorem importsInline_importingTag : ImportsInline importingSite "p.html" importingTag "a.js" where
  isDocument := by decide +kernel
  shown := ⟨importingPage, by decide +kernel, by rw [tags_importingPage]; decide⟩
  isScript := rfl
  unsourced := by decide
  imports := ⟨"./a.js", by decide +kernel, by decide +kernel⟩

theorem deleted_importingSite : (run {} ⟨[]⟩ importingSite).report.deleted = ["a.js"] := by
  have hdocuments : importingSite.documents = ["p.html"] := by decide +kernel
  have hpage : (Context.of importingSite {} ⟨[]⟩).build.text? "p.html" = some importingPage := by decide +kernel
  change deletable _ _ ((importingSite.documents.map _).flatMap _) ((importingSite.documents.map _).flatMap _) = _
  rw [hdocuments, List.map_singleton, Plan.of_eq_ofText hpage, Plan.ofText, tags_importingPage]
  decide +kernel

/-- The page without the code. -/
def emptiedPage : String := "<script src=a.js></script><script type=module></script>"

theorem importingSite_emptied : ({} : Options).deleteFolded = true ∧
    LeftIn (.of importingSite {} ⟨[]⟩) "p.html" importingTag ∧
    FoldedIn (.of importingSite {} ⟨[]⟩) "a.js" ∧ ¬ Needed (.of importingSite {} ⟨[]⟩) "a.js" ∧
    (run {} ⟨[]⟩ (importingSite.setText "p.html" emptiedPage)).report.deleted = ["a.js"] := by
  obtain ⟨himports, hemptied⟩ := inlineImport_deleted_iff {} ⟨[]⟩ importingSite rfl
  obtain ⟨hleft, hkept⟩ := himports "p.html" importingTag "a.js" importsInline_importingTag
  have hfolded : ¬ (FoldedIn (.of importingSite {} ⟨[]⟩) "a.js" → Needed (.of importingSite {} ⟨[]⟩) "a.js") := by
    rw [← hkept, deleted_importingSite]
    decide
  have htags : (tags emptiedPage).map bare = (tags importingPage).map bare := by
    have hemptied : tags emptiedPage = [⟨.script, 0, 26, [⟨"src", some "a.js"⟩], ""⟩,
        ⟨.script, 26, 55, [⟨"type", some "module"⟩], ""⟩] :=
      tags_eq_of_perm (by decide +kernel) (by decide +kernel)
    rw [hemptied, tags_importingPage]
    rfl
  have hsame := hemptied "p.html" importingPage emptiedPage (by decide +kernel) (by decide +kernel) htags
  exact ⟨rfl, hleft, (Classical.not_imp.1 hfolded).1, (Classical.not_imp.1 hfolded).2,
    hsame.trans deleted_importingSite⟩

/-- The chunk is deleted, and the code that imports it stays. -/
theorem importedChunk_deleted : ({} : Options).deleteFolded = true ∧
    ImportsInline importingSite "p.html" importingTag "a.js" ∧
    "a.js" ∈ (run {} ⟨[]⟩ importingSite).report.deleted := by
  refine ⟨rfl, importsInline_importingTag, ?_⟩
  rw [deleted_importingSite]
  decide

/-! ### Documents that are no text -/

/-- A document that is no text refers, as far as it can be read, to a file. -/
structure RefersUnread (build : Build) (document file : String) : Prop where
  isDocument : document ∈ build.documents
  refers : ∃ bytes, build.get? document = some (.asset bytes) ∧ String.fromUTF8? bytes = none ∧
    ∃ tag ∈ tags (.ofList (lossy bytes.data.toList)), ∃ name ∈ ["src", "href"], ∃ reference,
      tag.attribute? name = some reference ∧ (Resolves build.chunks document reference file ∨
        ∃ located, (Catalog.ofList build.stylesheets).locate reference (some document) = .ok located ∧
          located.id = file)

theorem RefersUnread.text? {file : String} (h : RefersUnread build document file) : build.text? document = none := by
  obtain ⟨bytes, hbytes, hdecode, _⟩ := h.refers
  rw [Build.text?, hbytes]
  exact hdecode

/-- **What a document refers to that is no text** is deleted if another document holds it and nothing
else needs it: a run deletes the same files as if the document were not there. -/
theorem unreadReference_deleted_iff (options : Options) (selection : Glob.Selection) (build : Build)
    (hd : options.deleteFolded = true) :
    (∀ document file, RefersUnread build document file →
      (file ∉ (run options selection build).report.deleted ↔
        (FoldedIn (.of (build.erase document) options selection) file →
          Needed (.of (build.erase document) options selection) file))) ∧
    (∀ document ∈ build.documents, build.text? document = none →
      (run options selection (build.erase document)).report.deleted
        = (run options selection build).report.deleted) := by
  refine ⟨fun document file h => ?_, fun document hdoc hp => ?_⟩
  · rw [← (looksLike_erase h.isDocument h.text?).deleted_eq, mem_deleted_iff hd, not_and, not_not]
  · exact (looksLike_erase hdoc hp).deleted_eq options selection

/-- The page `p.html` and the document `q.html`, a page with a byte behind it that belongs to no
character, both load the chunk `a.js`. -/
def tornSite : Build :=
  .ofList [("p.html", .asset "<script src=a.js></script>".toUTF8),
    ("q.html", .asset ("<script src=a.js></script>".toUTF8.push 0xFF)), ("a.js", .chunk "")]

theorem refersUnread_tornSite : RefersUnread tornSite "q.html" "a.js" where
  isDocument := by decide +kernel
  refers := by
    refine ⟨"<script src=a.js></script>".toUTF8.push 0xFF, by decide +kernel, by decide +kernel,
      ⟨.script, 0, 26, [⟨"src", some "a.js"⟩], ""⟩, ?_, "src", by decide, "a.js", by decide, .inl (by decide +kernel)⟩
    have htext : lossy ("<script src=a.js></script>".toUTF8.push 0xFF).data.toList
        = "<script src=a.js></script>\uFFFD".toList := by
      decide +kernel
    have htags : tags "<script src=a.js></script>\uFFFD" = [⟨.script, 0, 26, [⟨"src", some "a.js"⟩], ""⟩] :=
      tags_eq_of_perm (by decide +kernel) (by decide +kernel)
    rw [htext, String.ofList_toList, htags]
    exact List.mem_singleton_self _

theorem deleted_tornSite : (run {} ⟨[]⟩ tornSite).report.deleted = ["a.js"] := by decide +kernel

theorem tornSite_without_document : ({} : Options).deleteFolded = true ∧
    FoldedIn (.of (tornSite.erase "q.html") {} ⟨[]⟩) "a.js" ∧ ¬ Needed (.of (tornSite.erase "q.html") {} ⟨[]⟩) "a.js" ∧
    (run {} ⟨[]⟩ (tornSite.erase "q.html")).report.deleted = ["a.js"] := by
  obtain ⟨hrefers, herased⟩ := unreadReference_deleted_iff {} ⟨[]⟩ tornSite rfl
  have hfolded : ¬ (FoldedIn (.of (tornSite.erase "q.html") {} ⟨[]⟩) "a.js" →
      Needed (.of (tornSite.erase "q.html") {} ⟨[]⟩) "a.js") := by
    rw [← hrefers "q.html" "a.js" refersUnread_tornSite, deleted_tornSite]
    decide
  exact ⟨rfl, (Classical.not_imp.1 hfolded).1, (Classical.not_imp.1 hfolded).2,
    (herased "q.html" (by decide +kernel) refersUnread_tornSite.text?).trans deleted_tornSite⟩

/-- The chunk is deleted, and the document that loads it stays as it is. -/
theorem tornReference_deleted : ({} : Options).deleteFolded = true ∧ RefersUnread tornSite "q.html" "a.js" ∧
    "a.js" ∈ (run {} ⟨[]⟩ tornSite).report.deleted ∧
    (run {} ⟨[]⟩ tornSite).build.get? "q.html" = tornSite.get? "q.html" := by
  refine ⟨rfl, refersUnread_tornSite, ?_, by decide +kernel⟩
  rw [deleted_tornSite]
  decide

end Fold

end Pagefold
