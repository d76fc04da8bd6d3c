import Pagefold.Fold.Run
import Pagefold.Proofs.Dictionary
import Pagefold.Proofs.Lists

/-! # What a run does to the items of a build

The chunks of a build are its script items (`chunks_get?_iff`).  A run carries out one plan for each
document, and a plan changes its own document only (`get?_apply_of_ne`); in the end the deleted files are
taken out.  So a document that is text is what its plan makes of it (`get?_run_of_document`), and every
other file is as it was, or gone (`get?_run_of_untouched`). -/

namespace Pagefold

open Fold

/-! ### Tables -/

namespace Table

variable {α : Type} {t : Table α} {key : String} {value : α}

theorem keys_nodup (t : Table α) : t.keys.Nodup := by
  refine List.Pairwise.imp ?_ t.sorted
  rintro a b hlt rfl
  exact String.lt_irrefl _ hlt

theorem get?_eq_some_iff : t.get? key = some value ↔ (key, value) ∈ t.entries :=
  Dictionary.lookup_eq_some_iff_mem t.keys_nodup

theorem mem_keys_foldl {l : List (String × α)} :
    key ∈ (l.foldl (fun t e => t.insert e.1 e.2) t).keys ↔ key ∈ l.map (·.1) ∨ key ∈ t.keys := by
  induction l generalizing t with
  | nil => simp
  | cons e l ih =>
      have hinsert : key ∈ (t.insert e.1 e.2).keys ↔ key = e.1 ∨ key ∈ t.keys := mem_keys_place
      rw [List.foldl_cons, ih, hinsert, List.map_cons, List.mem_cons]
      tauto

theorem mem_keys_ofList {l : List (String × α)} : key ∈ (ofList l).keys ↔ key ∈ l.map (·.1) := by
  rw [ofList, mem_keys_foldl]
  simp [empty, keys]

end Table

/-! ### Items -/

theorem Item.withText_of_text? {item : Item} {text : String} (h : item.text? = some text) :
    item.withText text = item := by
  cases item with
  | chunk code =>
      cases h
      rfl
  | asset bytes =>
      have h : String.fromUTF8? bytes = some text := h
      unfold String.fromUTF8? at h
      split at h
      · cases h
        rfl
      · cases h

namespace Build

variable {b : Build} {id name text : String}

/-- The code of the entries that are scripts, each with its name. -/
def codeOf (entries : List (String × Item)) : List (String × String) :=
  entries.filterMap fun e =>
    match e.2 with
    | .chunk code => some (e.1, code)
    | .asset _ => none

theorem mem_codeOf {entries : List (String × Item)} :
    (id, text) ∈ codeOf entries ↔ (id, .chunk text) ∈ entries := by
  unfold codeOf
  rw [List.mem_filterMap]
  constructor
  · rintro ⟨⟨name, item⟩, hm, h⟩
    cases item with
    | chunk code =>
        cases h
        exact hm
    | asset bytes => cases h
  · intro hm
    exact ⟨_, hm, rfl⟩

theorem codeOf_keys_sublist (entries : List (String × Item)) :
    ((codeOf entries).map (·.1)).Sublist (entries.map (·.1)) := by
  have hkeys : ∀ (e : String × Item) (p : String × String),
      (match e.2 with
        | .chunk code => some (e.1, code)
        | .asset _ => none) = some p → p.1 = e.1 := by
    rintro ⟨name, item⟩ p hp
    cases item with
    | chunk code =>
        cases hp
        rfl
    | asset bytes => cases hp
  exact Lists.map_filterMap_sublist hkeys entries

theorem codeOf_keys_nodup (b : Build) : ((codeOf b.items.entries).map (·.1)).Nodup :=
  b.items.keys_nodup.sublist (codeOf_keys_sublist b.items.entries)

/-- The chunks of a build are its scripts. -/
theorem chunks_get?_iff : b.chunks.get? id = some text ↔ b.get? id = some (.chunk text) := by
  have h : b.chunks = .ofList (codeOf b.items.entries) := rfl
  rw [h, Dictionary.get?_ofList b.codeOf_keys_nodup, mem_codeOf]
  exact Table.get?_eq_some_iff.symm

/-- The chunks of a build come in the order of their names. -/
theorem keys_chunks_sorted (b : Build) : b.chunks.keys.Pairwise (· < ·) := by
  have h : b.chunks = .ofList (codeOf b.items.entries) := rfl
  rw [h, Dictionary.keys, Dictionary.entries_ofList b.codeOf_keys_nodup]
  exact b.items.sorted.sublist (codeOf_keys_sublist b.items.entries)

theorem mem_names_iff : name ∈ b.names ↔ (b.get? name).isSome = true :=
  Dictionary.lookup_isSome_iff.symm

theorem get?_eraseAll {names : List String} :
    (b.eraseAll names).get? name = if name ∈ names then none else b.get? name := by
  unfold eraseAll
  induction names generalizing b with
  | nil => simp
  | cons a names ih =>
      have herase : (b.erase a).get? name = if name = a then none else b.get? name :=
        Table.get?_erase b.items a name
      rw [List.foldl_cons, ih, herase]
      by_cases ha : name = a
      · simp [ha]
      · simp [ha]

theorem get?_setText {other : String} : (b.setText other text).get? name
    = if name = other then some (((b.get? other).getD (.asset .empty)).withText text)
      else b.get? name :=
  Table.get?_insert b.items other name _

end Build

/-! ### Plans -/

namespace Fold

variable {b : Build} {ctx : Context} {document name page : String} {documents : List String}

@[simp] theorem Plan.of_name : (Plan.of ctx document).name = document := by
  unfold Plan.of
  split
  · rfl
  · rfl

/-- A plan changes its own document only. -/
theorem get?_apply_of_ne {plan : Plan} (h : name ≠ plan.name) :
    (plan.apply b).get? name = b.get? name := by
  unfold Plan.apply
  split
  · rfl
  · split
    · rfl
    · rw [Build.get?_setText, if_neg h]

theorem Plan.of_eq_ofText (h : ctx.build.text? document = some page) :
    Plan.of ctx document = .ofText ctx document page := by
  rw [Plan.of, h]

theorem apply_of_undecoded (h : ctx.build.text? document = none) :
    (Plan.of ctx document).apply b = b := by
  have hplan : Plan.of ctx document = .ofUndecoded document := by
    rw [Plan.of, h]
  rw [hplan]
  rfl

/-- Plans change only documents that are text. -/
theorem get?_foldl_apply_of_untouched (h : name ∈ documents → ctx.build.text? name = none) :
    ((documents.map (Plan.of ctx)).foldl Plan.apply b).get? name = b.get? name := by
  induction documents generalizing b with
  | nil => rfl
  | cons d documents ih =>
      rw [List.map_cons, List.foldl_cons, ih fun hm => h (List.mem_cons_of_mem d hm)]
      by_cases hd : name = d
      · rw [apply_of_undecoded (hd ▸ h (hd ▸ List.mem_cons_self))]
      · exact get?_apply_of_ne (by simpa using hd)

theorem rewritten_of_isEmpty {plan : Plan} (h : plan.replacements.isEmpty = true) (page : String) :
    plan.rewritten page = page := by
  rw [List.isEmpty_iff] at h
  simp [Plan.rewritten, h]

/-- A plan gives its document the text that it makes of it. -/
theorem get?_apply_of_text {item : Item} (hb : b.get? document = some item)
    (hpage : item.text? = some page) (hctx : ctx.build.text? document = some page) :
    ((Plan.of ctx document).apply b).get? document
      = some (item.withText ((Plan.of ctx document).rewritten page)) := by
  have hpage? : (Plan.ofText ctx document page).page? = some page := rfl
  have hname : (Plan.ofText ctx document page).name = document := rfl
  rw [Plan.of_eq_ofText hctx, Plan.apply, hpage?]
  dsimp only
  split
  · rename_i hnone
    rw [rewritten_of_isEmpty hnone, Item.withText_of_text? hpage, hb]
  · rw [Build.get?_setText, hname, if_pos rfl, hb, Option.getD_some]

/-- Of several documents each is given the text that its own plan makes of it. -/
theorem get?_foldl_apply_of_text {item : Item} (hnodup : documents.Nodup) (hm : document ∈ documents)
    (hb : b.get? document = some item) (hpage : item.text? = some page)
    (hctx : ctx.build.text? document = some page) :
    ((documents.map (Plan.of ctx)).foldl Plan.apply b).get? document
      = some (item.withText ((Plan.of ctx document).rewritten page)) := by
  induction documents generalizing b with
  | nil => cases hm
  | cons d documents ih =>
      rw [List.nodup_cons] at hnodup
      rw [List.map_cons, List.foldl_cons]
      by_cases hd : document = d
      · subst hd
        rw [get?_foldl_apply_of_untouched fun h => absurd h hnodup.1,
          get?_apply_of_text hb hpage hctx]
      · refine ih hnodup.2 ((List.mem_cons.1 hm).resolve_left hd) ?_
        rw [get?_apply_of_ne (by simpa using hd), hb]

/-! ### Runs -/

variable {options : Options} {selection : Glob.Selection}

theorem documents_nodup (b : Build) : b.documents.Nodup := b.items.keys_nodup.filter _

/-- A file that is no document, or a document that is no text, is as it was, or gone. -/
theorem get?_run_of_untouched (h : name ∈ b.documents → b.text? name = none) :
    (run options selection b).build.get? name
      = if name ∈ (run options selection b).report.deleted then none else b.get? name := by
  show (Build.eraseAll _ _).get? name = _
  rw [Build.get?_eraseAll, get?_foldl_apply_of_untouched h]
  rfl

/-- A document that is text is what its plan makes of it, or gone. -/
theorem get?_run_of_document {item : Item} (hm : document ∈ b.documents)
    (hb : b.get? document = some item) (hpage : item.text? = some page) :
    (run options selection b).build.get? document
      = if document ∈ (run options selection b).report.deleted then none
        else some (item.withText
          ((Plan.of (.of b options selection) document).rewritten page)) := by
  show (Build.eraseAll _ _).get? document = _
  have hctx : (Context.of b options selection).build.text? document = some page := by
    show (b.get? document).bind Item.text? = some page
    rw [hb]
    exact hpage
  rw [Build.get?_eraseAll, get?_foldl_apply_of_text (documents_nodup b) hm hb hpage hctx]
  rfl

end Fold

end Pagefold
