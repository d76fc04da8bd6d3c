import Pagefold.Link.ImportGraph
import Pagefold.Proofs.Dictionary
import Pagefold.Proofs.Lists

/-! # What the sources of a chunk are linked to

A source of the chunk `importer` *resolves to* the chunk that the catalog finds for it, and it is
*linked to* that chunk unless the chunk is the entry or the importer itself; a source that is not
linked *stays* (`stays_iff`).  `linkedChunk code entry id` is the chunk `id` with what its sources are
linked to in the script of `entry`; its record says for each of its sources just that
(`resolved_get?_iff`, `mem_targets_iff`). -/

namespace Pagefold.Link

open Script

/-! ### The catalog of a dictionary -/

namespace Catalog

variable {ids : List String} {catalog : Catalog} {id : String}

/-- Every id that a catalog offers is one of `ids`. -/
def Within (catalog : Catalog) (ids : List String) : Prop :=
  (∀ id ∈ catalog.ids, id ∈ ids) ∧ ∀ name, ∀ id ∈ catalog.named name, id ∈ ids

theorem Within.insert (h : catalog.Within ids) (hid : id ∈ ids) : (catalog.insert id).Within ids := by
  unfold Catalog.insert
  split
  · exact h
  · refine ⟨?_, ?_⟩
    · intro x hx
      rcases List.mem_append.1 hx with hx | hx
      · exact h.1 x hx
      · rw [List.mem_singleton.1 hx]
        exact hid
    · intro name x hx
      rw [named, Dictionary.get?_insert] at hx
      split at hx
      · rw [Option.getD_some] at hx
        rcases List.mem_append.1 hx with hx | hx
        · exact h.2 _ x hx
        · rw [List.mem_singleton.1 hx]
          exact hid
      · exact h.2 name x hx

theorem within_foldl {all : List String} (hsub : ∀ id ∈ ids, id ∈ all) (h : catalog.Within all) :
    (ids.foldl Catalog.insert catalog).Within all := by
  induction ids generalizing catalog with
  | nil => exact h
  | cons a ids ih =>
      exact ih (fun x hx => hsub x (List.mem_cons_of_mem _ hx)) (h.insert (hsub a List.mem_cons_self))

theorem within_ofList (ids : List String) : (ofList ids).Within ids :=
  within_foldl (fun _ h => h) ⟨by simp [empty], by simp [named, empty]⟩

/-- What a reference is found to mean is one of the ids. -/
theorem Within.locate (h : catalog.Within ids) {reference : String} {importer? : Option String}
    {located : Located} (hl : catalog.locate reference importer? = .ok located) :
    located.id ∈ ids := by
  unfold Catalog.locate at hl
  dsimp only at hl
  split at hl
  · cases hl
  · split at hl
    · cases hl
    · split at hl
      · rename_i hc
        cases hl
        exact h.1 _ (by simpa [contains] using hc)
      · split at hl
        · cases hl
        · rename_i first others hn
          cases hl
          exact h.2 _ first (by rw [hn]; exact List.mem_cons_self)

end Catalog

/-! ### Resolving and linking -/

variable {code : Dictionary String} {entry importer source target id : String}

/-- The chunk that `source`, written in the chunk `importer`, means. -/
def Resolves (code : Dictionary String) (importer source target : String) : Prop :=
  ∃ located, (Catalog.ofList code.keys).locate source importer = .ok located ∧ located.id = target

instance : Decidable (Resolves code importer source target) :=
  match h : (Catalog.ofList code.keys).locate source importer with
  | .ok located => decidable_of_iff (located.id = target) (by simp [Resolves, h])
  | .error _ => isFalse (by simp [Resolves, h])

/-- In the script of `entry`, `source` is linked to `target`. -/
def LinksTo (code : Dictionary String) (entry importer source target : String) : Prop :=
  Resolves code importer source target ∧ target ≠ entry ∧ target ≠ importer

instance : Decidable (LinksTo code entry importer source target) :=
  inferInstanceAs (Decidable (_ ∧ _))

/-- In the script of `entry`, `source` is linked to nothing: it means no chunk, or the entry, or the
chunk that it is written in. -/
def Stays (code : Dictionary String) (entry importer source : String) : Prop :=
  ∀ target, Resolves code importer source target → target = entry ∨ target = importer

theorem Resolves.mem_keys (h : Resolves code importer source target) : target ∈ code.keys := by
  obtain ⟨located, hl, rfl⟩ := h
  exact (Catalog.within_ofList code.keys).locate hl

theorem Resolves.unique {t t' : String} (h : Resolves code importer source t)
    (h' : Resolves code importer source t') : t = t' := by
  obtain ⟨located, hl, rfl⟩ := h
  obtain ⟨located', hl', rfl⟩ := h'
  rw [hl] at hl'
  cases hl'
  rfl

theorem linkedTo?_eq_some_iff :
    linkedTo? entry importer ((Catalog.ofList code.keys).locate source importer) = some target
      ↔ LinksTo code entry importer source target := by
  unfold LinksTo Resolves
  cases (Catalog.ofList code.keys).locate source importer with
  | error e => simp [linkedTo?]
  | ok located =>
      simp only [linkedTo?, Except.ok.injEq, exists_eq_left']
      by_cases h : located.id = entry ∨ located.id = importer
      · rw [if_pos (by simpa using h)]
        constructor
        · intro hn
          cases hn
        · rintro ⟨rfl, h1, h2⟩
          exact absurd h (by simp [h1, h2])
      · rw [if_neg (by simpa using h), Option.some.injEq]
        constructor
        · rintro rfl
          exact ⟨rfl, fun h1 => h (.inl h1), fun h2 => h (.inr h2)⟩
        · exact fun h => h.1

theorem stays_iff : Stays code entry importer source ↔ ¬ ∃ t, LinksTo code entry importer source t := by
  constructor
  · rintro h ⟨t, hr, h1, h2⟩
    rcases h t hr with h | h
    · exact h1 h
    · exact h2 h
  · intro h t hr
    by_contra hne
    rw [not_or] at hne
    exact h ⟨t, hr, hne.1, hne.2⟩

/-! ### The record of a chunk -/

/-- The chunk `id` as its code says; one that does not exist is empty. -/
def parsedChunk (code : Dictionary String) (id : String) : Chunk :=
  .parse id ((code.get? id).getD "")

/-- A source of the chunk `importer` means the chunk `target`. -/
def Imports (code : Dictionary String) (importer target : String) : Prop :=
  ∃ source ∈ (parsedChunk code importer).sources, Resolves code importer source target

/-- The chunk `id` with what its sources are linked to in the script of `entry`. -/
def linkedChunk (code : Dictionary String) (entry id : String) : Chunk :=
  resolve (.ofList code.keys) entry (parsedChunk code id)

@[simp] theorem linkedChunk_id : (linkedChunk code entry id).id = id := rfl

@[simp] theorem linkedChunk_segments :
    (linkedChunk code entry id).segments = (parsedChunk code id).segments := rfl

@[simp] theorem linkedChunk_exports :
    (linkedChunk code entry id).exports = (parsedChunk code id).exports := rfl

/-- Those of some sources that are linked, each with its target. -/
def links (code : Dictionary String) (entry importer : String) (sources : List String) :
    List (String × String) :=
  sources.filterMap fun source =>
    (linkedTo? entry importer ((Catalog.ofList code.keys).locate source importer)).map (source, ·)

theorem mem_links {sources : List String} : (source, target) ∈ links code entry importer sources
    ↔ source ∈ sources ∧ LinksTo code entry importer source target := by
  rw [← linkedTo?_eq_some_iff, links, List.mem_filterMap]
  constructor
  · rintro ⟨s, hs, h⟩
    obtain ⟨t, ht, he⟩ := Option.map_eq_some_iff.1 h
    cases he
    exact ⟨hs, ht⟩
  · rintro ⟨hs, ht⟩
    exact ⟨source, hs, Option.map_eq_some_iff.2 ⟨target, ht, rfl⟩⟩

theorem map_fst_links_sublist (code : Dictionary String) (entry importer : String)
    (sources : List String) : ((links code entry importer sources).map (·.1)).Sublist sources := by
  have hkeys : ∀ (source : String) (p : String × String),
      (linkedTo? entry importer ((Catalog.ofList code.keys).locate source importer)).map (source, ·)
        = some p → p.1 = id source := by
    intro source p hp
    obtain ⟨t, _, rfl⟩ := Option.map_eq_some_iff.1 hp
    rfl
  have h := Lists.map_filterMap_sublist hkeys sources
  rwa [List.map_id] at h

theorem linkedChunk_resolved : (linkedChunk code entry id).resolved
    = .ofList (links code entry id (parsedChunk code id).sources) := by
  show Dictionary.ofList (List.filterMap _ (List.map _ _)) = _
  rw [List.filterMap_map]
  rfl

theorem resolved_get?_iff : (linkedChunk code entry id).resolved.get? source = some target
    ↔ source ∈ (parsedChunk code id).sources ∧ LinksTo code entry id source target := by
  have hnodup := (Lists.nodup_eraseDups _).sublist
    (map_fst_links_sublist code entry id (parsedChunk code id).sources)
  rw [linkedChunk_resolved, Dictionary.get?_ofList hnodup, mem_links]

theorem mem_targets_iff : target ∈ targets (linkedChunk code entry id)
    ↔ ∃ source ∈ (parsedChunk code id).sources, LinksTo code entry id source target := by
  unfold targets
  rw [List.mem_eraseDups]
  constructor
  · intro h
    obtain ⟨⟨s, t⟩, hm, rfl⟩ := List.mem_map.1 h
    exact ⟨s, resolved_get?_iff.1 (Dictionary.get?_of_mem_entries hm)⟩
  · rintro ⟨s, hs, hl⟩
    exact Dictionary.mem_values_of_get? (resolved_get?_iff.2 ⟨hs, hl⟩)

theorem imports_of_mem_targets (h : target ∈ targets (linkedChunk code entry id)) :
    Imports code id target := by
  obtain ⟨source, hs, hl⟩ := mem_targets_iff.1 h
  exact ⟨source, hs, hl.1⟩

end Pagefold.Link
