import Pagefold.Proofs.Leftovers

/-! # What a run sees of a page

To decide which files go, a run looks at the tags of the documents that are text, and of a tag at its kind
and its attributes (`seen`).  Two builds with the same scripts and the same stylesheets in which it sees
the same tags look alike to it (`LooksLike`), and it deletes the same files from both
(`LooksLike.deleted_eq`). -/

namespace Pagefold.Fold

open Page Link

variable {options : Options} {selection : Glob.Selection} {build build' : Build} {ctx : Context}
  {document file : String} {tag : Tag}

/-! ### Tags that are seen -/

/-- A tag without its place and its body. -/
def bare (tag : Tag) : Tag := { tag with start := 0, stop := 0, body := "" }

/-- The tags that a run sees in a document. -/
def seen (build : Build) (document : String) : List Tag :=
  if document ∈ build.documents then ((build.text? document).elim [] tags).map bare else []

/-- The files that tags of a document are folded to. -/
def consumedBy (ctx : Context) (document : String) (ts : List Tag) : List String :=
  ts.flatMap fun tag => (planTag ctx document tag).consumed

/-- The files that tags of a document refer to, but for those that are folded or removed. -/
def keptBy (ctx : Context) (document : String) (ts : List Tag) : List String :=
  (ts.filter fun tag => (planTag ctx document tag).text?.isNone
    && !loadsConsumed ctx document (consumedBy ctx document ts) tag).flatMap (referencedBy ctx document)

/-- What is done with a tag does not depend on its place and its body, the text of an element aside. -/
theorem planTag_bare (ctx : Context) (document : String) (tag : Tag) :
    (planTag ctx document (bare tag)).consumed = (planTag ctx document tag).consumed ∧
    (planTag ctx document (bare tag)).text?.isNone = (planTag ctx document tag).text?.isNone := by
  have hsource : (bare tag).scriptSource? = tag.scriptSource? := rfl
  have hsheet : (bare tag).stylesheet? = tag.stylesheet? := rfl
  unfold planTag
  rw [hsource, hsheet]
  split
  · unfold planScript
    split
    · exact ⟨rfl, rfl⟩
    · split
      · exact ⟨rfl, rfl⟩
      · split
        · exact ⟨rfl, rfl⟩
        · exact ⟨rfl, rfl⟩
  · exact ⟨rfl, rfl⟩
  · exact ⟨rfl, rfl⟩

theorem consumedBy_bare (ctx : Context) (document : String) (ts : List Tag) :
    consumedBy ctx document (ts.map bare) = consumedBy ctx document ts := by
  simp only [consumedBy, List.flatMap_map, (planTag_bare ctx document _).1]

theorem keptBy_bare (ctx : Context) (document : String) (ts : List Tag) :
    keptBy ctx document (ts.map bare) = keptBy ctx document ts := by
  have hloads (consumed : List String) (tag : Tag) :
      loadsConsumed ctx document consumed (bare tag) = loadsConsumed ctx document consumed tag := rfl
  have hrefers (tag : Tag) : referencedBy ctx document (bare tag) = referencedBy ctx document tag := rfl
  simp only [keptBy, consumedBy_bare, List.filter_map, List.flatMap_map, hrefers, Function.comp_def, hloads,
    (planTag_bare ctx document _).2]

/-- **A plan** holds and keeps files for the tags that are seen. -/
theorem plan_seen (hd : document ∈ build.documents) :
    (Plan.of (.of build options selection) document).consumed
      = consumedBy (.of build options selection) document (seen build document) ∧
    (Plan.of (.of build options selection) document).referenced
      = keptBy (.of build options selection) document (seen build document) := by
  have hseen : seen build document = ((build.text? document).elim [] tags).map bare := if_pos hd
  rw [hseen, consumedBy_bare, keptBy_bare]
  cases hp : build.text? document with
  | none =>
      have hplan : Plan.of (.of build options selection) document = .ofUndecoded document := by
        rw [Plan.of, show (Context.of build options selection).build.text? document = none from hp]
      rw [hplan]
      exact ⟨rfl, rfl⟩
  | some page =>
      rw [Plan.of_eq_ofText hp, consumed_ofText, referenced_ofText]
      exact ⟨rfl, rfl⟩

/-- What the plans of all documents name, if a plan names it for the tags that are seen. -/
theorem mem_flatMap_documents_iff {plan : String → Plan} {named : Plan → List String}
    {namedBy : String → List Tag → List String} (hnil : ∀ document, namedBy document [] = [])
    (hplan : ∀ document ∈ build.documents, named (plan document) = namedBy document (seen build document)) :
    file ∈ (build.documents.map plan).flatMap named ↔ ∃ document, file ∈ namedBy document (seen build document) := by
  rw [List.flatMap_map, List.mem_flatMap]
  constructor
  · rintro ⟨document, hd, h⟩
    exact ⟨document, by rwa [← hplan document hd]⟩
  · rintro ⟨document, h⟩
    by_cases hd : document ∈ build.documents
    · exact ⟨document, hd, by rwa [hplan document hd]⟩
    · -- No tag is seen in what is no document.
      rw [seen, if_neg hd, hnil] at h
      cases h

theorem mem_consumed_documents_iff :
    file ∈ (build.documents.map (Plan.of (.of build options selection))).flatMap (·.consumed) ↔
      ∃ document, file ∈ consumedBy (.of build options selection) document (seen build document) :=
  mem_flatMap_documents_iff (fun _ => rfl) fun _ hd => (plan_seen hd).1

theorem mem_referenced_documents_iff :
    file ∈ (build.documents.map (Plan.of (.of build options selection))).flatMap (·.referenced) ↔
      ∃ document, file ∈ keptBy (.of build options selection) document (seen build document) :=
  mem_flatMap_documents_iff (fun _ => rfl) fun _ hd => (plan_seen hd).2

/-! ### Builds that look alike -/

/-- A run sees the same in two builds: the scripts, the stylesheets and which of them are text, and the
tags of the documents. -/
structure LooksLike (build build' : Build) : Prop where
  chunks : build.chunks = build'.chunks
  stylesheets : build.stylesheets = build'.stylesheets
  decoded : ∀ sheet ∈ build.stylesheets, (build.text? sheet).isSome = (build'.text? sheet).isSome
  tags : ∀ document, seen build document = seen build' document

namespace LooksLike

theorem linker_eq (h : LooksLike build build') :
    (Context.of build options selection).linker = (Context.of build' options selection).linker := by
  simp only [Context.of, h.chunks]

theorem stylesheets_eq (h : LooksLike build build') :
    (Context.of build options selection).stylesheets = (Context.of build' options selection).stylesheets := by
  simp only [Context.of, h.stylesheets]

theorem symm (h : LooksLike build build') : LooksLike build' build where
  chunks := h.chunks.symm
  stylesheets := h.stylesheets.symm
  decoded := fun sheet hs => (h.decoded sheet (h.stylesheets ▸ hs)).symm
  tags := fun document => (h.tags document).symm

/-- A tag that is folded in one is folded in the other, and to the same files. -/
theorem folds (h : LooksLike build build') {text : String} {files : List String}
    (hf : Folds (.of build options selection) document tag text files) :
    ∃ text', Folds (.of build' options selection) document tag text' files := by
  cases hf with
  | @script source entry hs hlocal he ha =>
      rw [h.linker_eq] at he ⊢
      exact ⟨_, .script hs hlocal he ha⟩
  | @style reference sheet css hs hr hlocal hl ha ht =>
      have hsheet : sheet.id ∈ build.stylesheets := (Catalog.within_ofList _).locate hl
      have hdecoded := h.decoded sheet.id hsheet
      rw [show build.text? sheet.id = some css from ht, Option.isSome_some] at hdecoded
      obtain ⟨css', ht'⟩ := Option.isSome_iff_exists.1 hdecoded.symm
      rw [h.stylesheets_eq] at hl
      exact ⟨_, .style hs hr hlocal hl ha ht'⟩

/-- The same is done with a tag, the text of an element aside. -/
theorem planTag_eq (h : LooksLike build build') (document : String) (tag : Tag) :
    (planTag (.of build options selection) document tag).consumed
      = (planTag (.of build' options selection) document tag).consumed ∧
    (planTag (.of build options selection) document tag).text?.isNone
      = (planTag (.of build' options selection) document tag).text?.isNone := by
  rcases planTag_cases (.of build options selection) document tag with ⟨text, files, hf⟩ | ⟨hnone, hempty⟩
  · obtain ⟨text', hf'⟩ := h.folds hf
    rw [hf.plan.1, hf.plan.2, hf'.plan.1, hf'.plan.2]
    exact ⟨rfl, rfl⟩
  · rcases planTag_cases (.of build' options selection) document tag with ⟨text', files, hf'⟩ | ⟨hnone', hempty'⟩
    · obtain ⟨text, hf⟩ := h.symm.folds hf'
      rw [hf.plan.1] at hnone
      cases hnone
    · rw [hnone, hempty, hnone', hempty']
      exact ⟨rfl, rfl⟩

theorem consumedBy_eq (h : LooksLike build build') (document : String) (ts : List Tag) :
    consumedBy (.of build options selection) document ts = consumedBy (.of build' options selection) document ts := by
  simp only [consumedBy, (h.planTag_eq document _).1]

theorem keptBy_eq (h : LooksLike build build') (document : String) (ts : List Tag) :
    keptBy (.of build options selection) document ts = keptBy (.of build' options selection) document ts := by
  have hloads (consumed : List String) (tag : Tag) :
      loadsConsumed (.of build options selection) document consumed tag
      = loadsConsumed (.of build' options selection) document consumed tag := by
    unfold loadsConsumed
    rw [h.linker_eq]
  have hrefers (tag : Tag) : referencedBy (.of build options selection) document tag
      = referencedBy (.of build' options selection) document tag := by
    unfold referencedBy referenced?
    rw [h.linker_eq, h.stylesheets_eq]
  unfold keptBy
  rw [h.consumedBy_eq]
  simp only [(h.planTag_eq document _).2, hloads, funext hrefers]

end LooksLike

theorem mem_deletable_congr {code : Dictionary String} {consumed consumed' referenced referenced' : List String}
    (hc : ∀ file, file ∈ consumed ↔ file ∈ consumed') (hr : ∀ file, file ∈ referenced ↔ file ∈ referenced') :
    file ∈ deletable code (.ofList code.keys) consumed referenced
      ↔ file ∈ deletable code (.ofList code.keys) consumed' referenced' := by
  simp only [mem_deletable_iff, mem_needed_list_iff, mem_staying_iff, hc, hr]

theorem deleted_sorted (options : Options) (selection : Glob.Selection) (build : Build) :
    (run options selection build).report.deleted.Pairwise (· < ·) := by
  change (if options.deleteFolded then deletable _ _ _ _ else []).Pairwise (· < ·)
  split
  · exact (Table.sorted _).filter _
  · exact List.Pairwise.nil

/-- **A run deletes the same files** from builds that look alike. -/
theorem LooksLike.deleted_eq (h : LooksLike build build') (options : Options) (selection : Glob.Selection) :
    (run options selection build).report.deleted = (run options selection build').report.deleted := by
  refine List.Pairwise.eq_of_mem_iff (deleted_sorted _ _ _) (deleted_sorted _ _ _) fun file => ?_
  change file ∈ (if options.deleteFolded then _ else _) ↔ file ∈ (if options.deleteFolded then _ else _)
  split
  · rw [h.linker_eq]
    refine mem_deletable_congr (fun file => ?_) (fun file => ?_)
    · rw [mem_consumed_documents_iff, mem_consumed_documents_iff]
      simp only [h.consumedBy_eq, h.tags]
    · rw [mem_referenced_documents_iff, mem_referenced_documents_iff]
      simp only [h.keptBy_eq, h.tags]
  · exact Iff.rfl

end Pagefold.Fold
