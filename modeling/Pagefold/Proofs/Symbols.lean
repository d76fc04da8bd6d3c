import Pagefold.Proofs.DefinitionOrder
import Pagefold.Proofs.Findings

/-! # Symbols survive linking

An export of a chunk goes back to a symbol (`OriginOf`): to a name of the chunk itself, to what one of
its imports means, or to what it takes over from another chunk.  When a script reports nothing, no
chunk means itself, no chunk exports or imports two things by one name, and no object is hidden by
names of the chunks (`Unhidden`), then evaluating the script gives every alias of an import the origin
of what is imported (`survives_of_unhidden`).

The proof goes through the pieces in order.  What holds of the memory after some of them (`Linked`) is
that the object of each chunk has the origin of each of its exports, and the aliases of each chunk those
of its imports.  The next piece reads objects of earlier chunks only, so it can be evaluated and keeps
this (`Linked.step`). -/

namespace Pagefold.Link

open Script

variable {code : Dictionary String} {lead entry id source t n : String} {scope : Scope} {c : Chunk}
  {b : Binding}

/-! ### Imports and exports by name -/

/-- The bindings that a chunk imports, each with its source. -/
def namedImports (c : Chunk) : List (String × Binding) :=
  c.imports.filterMap fun i => i.binding?.map (i.source, ·)

/-- The names that the imports of a chunk bind. -/
def importAliases (c : Chunk) : List String := (namedImports c).map (·.2.newName)

/-- The bindings of the first export clause of a chunk. -/
def firstClause (c : Chunk) : List Binding := c.exportClauses.head?.getD []

theorem mem_namedImports_iff : (source, b) ∈ namedImports c
    ↔ ∃ bindings, .namedImport bindings source ∈ c.statements ∧ b ∈ bindings := by
  unfold namedImports Chunk.imports
  rw [List.mem_filterMap]
  constructor
  · rintro ⟨i, hi, he⟩
    obtain ⟨parsed, hp, hi⟩ := List.mem_flatMap.1 hi
    obtain ⟨b', hb', he⟩ := Option.map_eq_some_iff.1 he
    cases he
    cases parsed with
    | bareImport source =>
        rw [List.mem_singleton.1 hi] at hb'
        cases hb'
    | reexport bindings source => cases hi
    | exportClause bindings => cases hi
    | namedImport bindings source =>
        cases bindings with
        | nil =>
            rw [List.mem_singleton.1 hi] at hb'
            cases hb'
        | cons a bindings =>
            obtain ⟨b'', hb'', rfl⟩ := List.mem_map.1 hi
            cases hb'
            exact ⟨a :: bindings, hp, hb''⟩
  · rintro ⟨bindings, hp, hb⟩
    refine ⟨⟨source, some b⟩, List.mem_flatMap.2 ⟨_, hp, ?_⟩, rfl⟩
    cases bindings with
    | nil => cases hb
    | cons a bindings => exact List.mem_map.2 ⟨b, hb, rfl⟩

theorem own_mem_exports_iff : ⟨b, none⟩ ∈ c.exports ↔ b ∈ firstClause c := by
  rw [Chunk.exports, List.mem_append, List.mem_map]
  constructor
  · rintro (⟨b', hb', he⟩ | h)
    · cases he
      exact hb'
    · obtain ⟨parsed, _, h⟩ := List.mem_flatMap.1 h
      cases parsed with
      | reexport bindings source =>
          obtain ⟨_, _, he⟩ := List.mem_map.1 h
          cases he
      | namedImport bindings source => cases h
      | bareImport source => cases h
      | exportClause bindings => cases h
  · exact fun h => .inl ⟨b, h, rfl⟩

theorem taken_mem_exports_iff : ⟨b, some source⟩ ∈ c.exports
    ↔ ∃ bindings, .reexport bindings source ∈ c.statements ∧ b ∈ bindings := by
  rw [Chunk.exports, List.mem_append, List.mem_map]
  constructor
  · rintro (⟨b', _, he⟩ | h)
    · cases he
    · obtain ⟨parsed, hp, h⟩ := List.mem_flatMap.1 h
      cases parsed with
      | reexport bindings source' =>
          obtain ⟨b', hb', he⟩ := List.mem_map.1 h
          cases he
          exact ⟨bindings, hp, hb'⟩
      | namedImport bindings source' => cases h
      | bareImport source' => cases h
      | exportClause bindings => cases h
  · rintro ⟨bindings, hp, hb⟩
    exact .inr (List.mem_flatMap.2 ⟨_, hp, List.mem_map.2 ⟨b, hb, rfl⟩⟩)

theorem exists_segment {parsed : Statement} (h : parsed ∈ c.statements) :
    ∃ text, .statement text parsed ∈ c.segments := by
  obtain ⟨segment, hm, he⟩ := List.mem_filterMap.1 h
  cases segment with
  | code text => cases he
  | statement text parsed' =>
      cases he
      exact ⟨text, hm⟩

/-- The readings of a piece are its imports from linked chunks. -/
theorem reads_parts : (c.segments.map (partOf scope c)).flatMap Part.reads
    = (namedImports c).filterMap fun i => (scope.target? c i.1).map fun t => (t.name, i.2) := by
  unfold namedImports Chunk.imports Chunk.statements
  induction c.segments with
  | nil => rfl
  | cons segment segments ih =>
      rw [List.map_cons, List.flatMap_cons, ih]
      cases segment with
      | code text => rfl
      | statement text parsed =>
          rw [List.filterMap_cons]
          simp only [Segment.statement?, List.flatMap_cons, List.filterMap_append]
          congr 1
          cases parsed with
          | bareImport source => rfl
          | reexport bindings source => rfl
          | exportClause bindings => rfl
          | namedImport bindings source =>
              cases bindings with
              | nil => rfl
              | cons a bindings =>
                  simp only [Chunk.importsOf, List.filterMap_map, partOf]
                  cases h : scope.target? c source with
                  | none => simp [Part.reads, h, List.filterMap_map]
                  | some t => simp [Part.reads, h, List.filterMap_map]

/-! ### Origins -/

/-- The export `n` of the chunk `t` goes back to a symbol. -/
inductive OriginOf (code : Dictionary String) : (t n : String) → Symbol → Prop
  | own {t n e} (he : e ∈ firstClause (parsedChunk code t)) (hn : e.newName = n)
      (hl : e.name ∉ importAliases (parsedChunk code t)) : OriginOf code t n ⟨t, e.name⟩
  | imported {t n e source i u o} (he : e ∈ firstClause (parsedChunk code t)) (hn : e.newName = n)
      (hi : (source, i) ∈ namedImports (parsedChunk code t)) (hl : i.newName = e.name)
      (hr : Resolves code t source u) (ho : OriginOf code u i.name o) : OriginOf code t n o
  | taken {t n bindings source e u o} (hs : .reexport bindings source ∈ (parsedChunk code t).statements)
      (he : e ∈ bindings) (hn : e.newName = n) (hr : Resolves code t source u)
      (ho : OriginOf code u e.name o) : OriginOf code t n o

/-- The export `n` of the chunk `t` goes back to `o` and to nothing else. -/
def IsOrigin (code : Dictionary String) (t n : String) (o : Symbol) : Prop :=
  ∀ o', OriginOf code t n o' ↔ o' = o

theorem mem_exportedNames_iff : n ∈ c.exportedNames ↔ ∃ e ∈ c.exports, e.binding.newName = n :=
  List.mem_map

/-- Exports of different names are the same when their names are. -/
theorem export_unique (hnodup : c.exportedNames.Nodup) {e e' : Export} (he : e ∈ c.exports)
    (he' : e' ∈ c.exports) (hn : e.binding.newName = e'.binding.newName) : e = e' :=
  List.inj_on_of_nodup_map hnodup he he' hn

theorem import_unique (hnodup : (importAliases c).Nodup) {i i' : String × Binding}
    (hi : i ∈ namedImports c) (hi' : i' ∈ namedImports c) (hn : i.2.newName = i'.2.newName) : i = i' :=
  List.inj_on_of_nodup_map hnodup hi hi' hn

/-- An exported name that no import binds is its own origin. -/
theorem isOrigin_own (hexports : (parsedChunk code t).exportedNames.Nodup)
    (he : b ∈ firstClause (parsedChunk code t)) (hl : b.name ∉ importAliases (parsedChunk code t)) :
    IsOrigin code t b.newName ⟨t, b.name⟩ := by
  have hmem := own_mem_exports_iff.2 he
  intro o'
  constructor
  · intro h
    cases h with
    | own he' hn hl' =>
        cases export_unique hexports (own_mem_exports_iff.2 he') hmem hn
        rfl
    | imported he' hn hi hl' hr ho =>
        cases export_unique hexports (own_mem_exports_iff.2 he') hmem hn
        exact absurd (List.mem_map.2 ⟨_, hi, hl'⟩) hl
    | taken hs he' hn hr ho =>
        cases export_unique hexports (taken_mem_exports_iff.2 ⟨_, hs, he'⟩) hmem hn
  · rintro rfl
    exact .own he rfl hl

/-- An exported name that an import binds goes back to what is imported. -/
theorem isOrigin_imported (hexports : (parsedChunk code t).exportedNames.Nodup)
    (himports : (importAliases (parsedChunk code t)).Nodup)
    (he : b ∈ firstClause (parsedChunk code t)) {i : Binding}
    (hi : (source, i) ∈ namedImports (parsedChunk code t)) (hl : i.newName = b.name) {u : String}
    (hr : Resolves code t source u) {o : Symbol} (ho : IsOrigin code u i.name o) :
    IsOrigin code t b.newName o := by
  have hmem := own_mem_exports_iff.2 he
  intro o'
  constructor
  · intro h
    cases h with
    | own he' hn hl' =>
        cases export_unique hexports (own_mem_exports_iff.2 he') hmem hn
        exact absurd (List.mem_map.2 ⟨_, hi, hl⟩) hl'
    | imported he' hn hi' hl' hr' ho' =>
        cases export_unique hexports (own_mem_exports_iff.2 he') hmem hn
        cases import_unique himports hi' hi (hl'.trans hl.symm)
        cases hr'.unique hr
        exact (ho o').1 ho'
    | taken hs he' hn hr' ho' =>
        cases export_unique hexports (taken_mem_exports_iff.2 ⟨_, hs, he'⟩) hmem hn
  · rintro rfl
    exact .imported he rfl hi hl hr ((ho o').2 rfl)

/-- A name that is taken over goes back to what it is taken from. -/
theorem isOrigin_taken (hexports : (parsedChunk code t).exportedNames.Nodup)
    (he : ⟨b, some source⟩ ∈ (parsedChunk code t).exports) {u : String}
    (hr : Resolves code t source u) {o : Symbol} (ho : IsOrigin code u b.name o) :
    IsOrigin code t b.newName o := by
  intro o'
  constructor
  · intro h
    cases h with
    | own he' hn hl' => cases export_unique hexports (own_mem_exports_iff.2 he') he hn
    | imported he' hn hi' hl' hr' ho' =>
        cases export_unique hexports (own_mem_exports_iff.2 he') he hn
    | taken hs he' hn hr' ho' =>
        cases export_unique hexports (taken_mem_exports_iff.2 ⟨_, hs, he'⟩) he hn
        cases hr'.unique hr
        exact (ho o').1 ho'
  · rintro rfl
    obtain ⟨bindings, hs, hb⟩ := taken_mem_exports_iff.1 he
    exact .taken hs hb rfl hr ((ho o').2 rfl)

/-! ### Scripts that link every source -/

/-- Nothing is reported, no chunk of the script means itself, and none exports or imports two things
by one name. -/
structure Clean (code : Dictionary String) (lead entry : String) : Prop where
  quiet : (flatOf code lead entry).diagnostics = []
  notSelf : ∀ id ∈ (flatOf code lead entry).consumed, ∀ source ∈ (parsedChunk code id).sources,
    ¬ Resolves code id source id
  exports : ∀ id ∈ (flatOf code lead entry).consumed, (parsedChunk code id).exportedNames.Nodup
  imports : ∀ id ∈ (flatOf code lead entry).consumed, (importAliases (parsedChunk code id)).Nodup

namespace Clean

variable (h : Clean code lead entry)
include h

theorem links (hid : id ∈ (flatOf code lead entry).consumed)
    (hs : source ∈ (parsedChunk code id).sources) : ∃ t, LinksTo code entry id source t := by
  obtain ⟨t, hr, hne⟩ := resolves_of_quiet h.quiet (mem_consumed_iff.1 hid) hs
  refine ⟨t, hr, hne, ?_⟩
  rintro rfl
  exact h.notSelf _ hid source hs hr

/-- A chunk comes behind the chunks that it is linked to. -/
theorem precedes (hid : id ∈ (flatOf code lead entry).consumed)
    (hs : source ∈ (parsedChunk code id).sources) (hl : LinksTo code entry id source t) :
    [t, id].Sublist (flatOf code lead entry).emitted := by
  have hopen : ¬ (surveyOf code entry).graph.loadOrder.Closes id t :=
    @not_closes_of_quiet code lead entry id t (by simp [h.quiet])
  exact (link_precedes_or_closes (mem_consumed_iff.1 hid) hs hl).resolve_right hopen

/-- A binding of an import or a re-export: its target is linked and exports it, and the scope
finds it. -/
theorem target_of_binding (hid : id ∈ (flatOf code lead entry).consumed) {parsed : Statement}
    (hp : parsed ∈ (parsedChunk code id).statements) (hs : parsed.source? = some source)
    {bindings : List Binding} (hb : parsed.bindings? = some bindings) (hm : b ∈ bindings) :
    ∃ t, LinksTo code entry id source t ∧ t ∈ orderOf code entry ∧
      [t, id].Sublist (flatOf code lead entry).emitted ∧ b.name ∈ (parsedChunk code t).exportedNames ∧
      (scopeOf code lead entry).target? (linkedChunk code entry id) source
        = some ⟨linkedChunk code entry t, t, nameOf code lead entry t⟩ := by
  have hid' := mem_consumed_iff.1 hid
  have hsource := mem_sources_of_mem_statements hp hs
  obtain ⟨text, hseg⟩ := exists_segment hp
  obtain ⟨t, hl⟩ := h.links hid hsource
  exact ⟨t, hl, target_mem_order hid' (mem_targets_iff.2 ⟨source, hsource, hl⟩),
    h.precedes hid hsource hl, exported_of_quiet h.quiet hid' hseg hs hb hl b hm,
    (target?_iff hid' hsource).2 ⟨hl, rfl⟩⟩

end Clean

/-! ### Names that hide objects -/

/-- No name of a chunk hides an object that the script reads there, and none is bound twice: not by the code
of the chunk, to which the names `taken` belong, not by its imports and not by what it exports as its own.  No
wrapped chunk exports a name that gives an object no field. -/
structure Unhidden (taken : String → List String) (code : Dictionary String) (lead entry : String) : Prop where
  apart : ∀ id ∈ (flatOf code lead entry).consumed, ∀ name ∈ importAliases (parsedChunk code id),
    name ∉ taken id
  wrapped : ∀ id ∈ orderOf code entry, ∀ name ∈ (readPiece code lead entry id).objectsRead,
    name ∉ importAliases (parsedChunk code id) ∧ name ∉ taken id ∧
      name ∉ (firstClause (parsedChunk code id)).map (·.name)
  outermost : ∀ t ∈ orderOf code entry, nameOf code lead entry t ∉ importAliases (parsedChunk code entry) ∧
    nameOf code lead entry t ∉ taken entry
  fields : ∀ id ∈ orderOf code entry, prototypeKey ∉ (parsedChunk code id).exportedNames

/-! ### What the memory holds -/

/-- An object has the origin of each export of its chunk. -/
def Offers (code : Dictionary String) (t : String) (object : Dictionary Value) : Prop :=
  ∀ n ∈ (parsedChunk code t).exportedNames, ∃ o, object.get? n = some (.symbol o) ∧ IsOrigin code t n o

/-- The aliases of a chunk are those of its imports, and each has the origin of what is imported. -/
structure Holds (code : Dictionary String) (id : String) (aliases : Dictionary Value) : Prop where
  keys : ∀ k, k ∈ aliases.keys ↔ k ∈ importAliases (parsedChunk code id)
  origin : ∀ source b, (source, b) ∈ namedImports (parsedChunk code id) →
    ∃ t, Resolves code id source t ∧
      ∃ o, aliases.get? b.newName = some (.symbol o) ∧ IsOrigin code t b.name o

/-- The memory after the pieces of some chunks. -/
structure Linked (code : Dictionary String) (lead entry : String) (done : List String) (m : Memory) :
    Prop where
  objects : ∀ t ∈ done, t ∈ orderOf code entry →
    ∃ object, m.objects.get? (nameOf code lead entry t) = some object ∧ Offers code t object
  names : ∀ name ∈ m.objects.keys, ∃ t ∈ done, t ∈ orderOf code entry ∧ nameOf code lead entry t = name
  aliases : ∀ id ∈ done, ∃ aliases, m.aliases.get? id = some aliases ∧ Holds code id aliases

theorem linked_start : Linked code lead entry [] .empty where
  objects := by simp
  names := by simp [Memory.empty]
  aliases := by simp

section step

variable {taken : String → List String} {done rest : List String} {m : Memory} {aliases : Dictionary Value}

/-- A field of an object that is bound already. -/
theorem Linked.objectField_eq_ok (hm : Linked code lead entry done m) (ht : t ∈ orderOf code entry)
    (hd : t ∈ done) (hn : n ∈ (parsedChunk code t).exportedNames) :
    ∃ o, m.objectField (nameOf code lead entry t) n = .ok (.symbol o) ∧ IsOrigin code t n o := by
  obtain ⟨object, hobject, hoffers⟩ := hm.objects t hd ht
  obtain ⟨o, ho, horigin⟩ := hoffers n hn
  exact ⟨o, Memory.objectField_eq_ok hobject ho, horigin⟩

theorem mem_done (he : (flatOf code lead entry).emitted = done ++ id :: rest)
    (h : [t, id].Sublist (flatOf code lead entry).emitted) : t ∈ done := by
  have hnodup := @emitted_nodup code lead entry
  rw [he] at h hnodup
  exact Lists.mem_front_of_pair_sublist hnodup h

theorem reads_readPiece : (readPiece code lead entry id).reads
    = (namedImports (parsedChunk code id)).filterMap fun i =>
        ((scopeOf code lead entry).target? (linkedChunk code entry id) i.1).map
          fun t => (t.name, i.2) :=
  reads_parts

theorem mem_reads_iff {r : String × Binding} :
    r ∈ (readPiece code lead entry id).reads
      ↔ ∃ source target, (source, r.2) ∈ namedImports (parsedChunk code id) ∧
          (scopeOf code lead entry).target? (linkedChunk code entry id) source = some target ∧
          target.name = r.1 := by
  rw [reads_readPiece, List.mem_filterMap]
  constructor
  · rintro ⟨⟨source, b⟩, hb, hr⟩
    obtain ⟨target, ht, rfl⟩ := Option.map_eq_some_iff.1 hr
    exact ⟨source, target, hb, ht, rfl⟩
  · rintro ⟨source, target, hb, ht, hn⟩
    exact ⟨(source, r.2), hb, Option.map_eq_some_iff.2 ⟨target, ht, by rw [hn]⟩⟩

theorem nodup_map_reads (h : Clean code lead entry) (hid : id ∈ (flatOf code lead entry).consumed) :
    (((readPiece code lead entry id).reads).map (·.2.newName)).Nodup := by
  rw [reads_readPiece]
  refine (h.imports id hid).sublist (Lists.map_filterMap_sublist ?_ _)
  intro i r hr
  obtain ⟨t, _, rfl⟩ := Option.map_eq_some_iff.1 hr
  rfl

/-- An import is a reading of the object of a linked chunk. -/
theorem Clean.reads_of_import (h : Clean code lead entry) (hid : id ∈ (flatOf code lead entry).consumed)
    (hb : (source, b) ∈ namedImports (parsedChunk code id)) :
    ∃ t, LinksTo code entry id source t ∧ t ∈ orderOf code entry ∧
      [t, id].Sublist (flatOf code lead entry).emitted ∧ b.name ∈ (parsedChunk code t).exportedNames ∧
      (nameOf code lead entry t, b) ∈ (readPiece code lead entry id).reads := by
  obtain ⟨bindings, hp, hm⟩ := mem_namedImports_iff.1 hb
  obtain ⟨t, hl, ht, hbefore, hexported, htarget⟩ := h.target_of_binding hid hp rfl rfl hm
  exact ⟨t, hl, ht, hbefore, hexported, mem_reads_iff.2 ⟨source, _, hb, htarget, rfl⟩⟩

/-- A reading is an import. -/
theorem Clean.import_of_reads (h : Clean code lead entry) (hid : id ∈ (flatOf code lead entry).consumed)
    {r : String × Binding} (hr : r ∈ (readPiece code lead entry id).reads) :
    ∃ source t, (source, r.2) ∈ namedImports (parsedChunk code id) ∧ t ∈ orderOf code entry ∧
      [t, id].Sublist (flatOf code lead entry).emitted ∧ r.2.name ∈ (parsedChunk code t).exportedNames ∧
      r.1 = nameOf code lead entry t := by
  obtain ⟨source, target, hb, htarget, hn⟩ := mem_reads_iff.1 hr
  obtain ⟨bindings, hp, hm⟩ := mem_namedImports_iff.1 hb
  obtain ⟨t, _, ht, hbefore, hexported, htarget'⟩ := h.target_of_binding hid hp rfl rfl hm
  rw [htarget'] at htarget
  cases htarget
  exact ⟨source, t, hb, ht, hbefore, hexported, hn.symm⟩

/-- The aliases of a piece are those of the imports of its chunk. -/
theorem Clean.mem_aliases_iff (h : Clean code lead entry) (hid : id ∈ (flatOf code lead entry).consumed) :
    n ∈ (readPiece code lead entry id).aliases ↔ n ∈ importAliases (parsedChunk code id) := by
  rw [Piece.aliases, importAliases, List.mem_map, List.mem_map]
  constructor
  · rintro ⟨r, hr, rfl⟩
    obtain ⟨source, _, hb, _⟩ := mem_reads_iff.1 hr
    exact ⟨(source, r.2), hb, rfl⟩
  · rintro ⟨⟨source, b⟩, hb, rfl⟩
    obtain ⟨t, _, _, _, _, hr⟩ := h.reads_of_import hid hb
    exact ⟨_, hr, rfl⟩

/-- The fields that a piece returns are those of its chunk's exports. -/
theorem mem_fields_iff {f : Field} : f ∈ (readPiece code lead entry id).fields ↔ id ≠ entry ∧
    ∃ e ∈ (parsedChunk code id).exports,
      fieldOf? (scopeOf code lead entry) (linkedChunk code entry id) e = some f := by
  by_cases hid : id = entry
  · simp [Piece.fields, readPiece, hid]
  · rw [fields_readPiece hid, List.mem_filterMap, and_iff_right hid]

/-- A wrapped piece returns of its own what its chunk's first clause exports. -/
theorem mem_ownNames_iff : n ∈ (readPiece code lead entry id).ownNames
    ↔ id ≠ entry ∧ n ∈ (firstClause (parsedChunk code id)).map (·.name) := by
  rw [Piece.ownNames, List.mem_filterMap, List.mem_map]
  constructor
  · rintro ⟨f, hf, hn⟩
    obtain ⟨hid, ⟨b, source?⟩, he, hf⟩ := mem_fields_iff.1 hf
    cases source? with
    | none =>
        cases hf
        cases hn
        exact ⟨hid, b, own_mem_exports_iff.1 he, rfl⟩
    | some source =>
        obtain ⟨target, _, rfl⟩ := Option.map_eq_some_iff.1 hf
        cases hn
  · rintro ⟨hid, b, hb, rfl⟩
    exact ⟨_, mem_fields_iff.2 ⟨hid, _, own_mem_exports_iff.2 hb, rfl⟩, rfl⟩

/-- What a piece reads are the objects of wrapped chunks. -/
theorem exists_of_mem_objectsRead (hid : id ∈ (flatOf code lead entry).consumed)
    (hn : n ∈ (readPiece code lead entry id).objectsRead) :
    ∃ t ∈ orderOf code entry, nameOf code lead entry t = n := by
  obtain ⟨source, target, ht, rfl⟩ := target?_of_mem_objectsRead hn
  have hid := mem_consumed_iff.1 hid
  have hs := mem_sources_of_target? ht
  obtain ⟨hl, he⟩ := (target?_iff hid hs).1 ht
  exact ⟨target.id, target_mem_order hid (mem_targets_iff.2 ⟨source, hs, hl⟩), (congrArg Target.name he).symm⟩

/-- Nothing hides the objects that a piece reads. -/
theorem Unhidden.seen (hu : Unhidden taken code lead entry) (h : Clean code lead entry)
    (hid : id ∈ (flatOf code lead entry).consumed) (hn : n ∈ (readPiece code lead entry id).objectsRead) :
    Memory.Seen taken (readPiece code lead entry id) n := by
  rw [Memory.Seen, h.mem_aliases_iff hid, Piece.declared, List.mem_append, mem_ownNames_iff]
  rcases mem_consumed_iff.1 hid with rfl | ho
  · obtain ⟨t, ht, rfl⟩ := exists_of_mem_objectsRead hid hn
    obtain ⟨halias, hfree⟩ := hu.outermost t ht
    exact ⟨halias, fun hdeclared => hdeclared.elim hfree fun hown => hown.1 rfl⟩
  · obtain ⟨halias, hfree, hown⟩ := hu.wrapped id ho n hn
    exact ⟨halias, fun hdeclared => hdeclared.elim hfree fun hmem => hown hmem.2⟩

theorem mem_objectsRead_of_reads {r : String × Binding} (hr : r ∈ (readPiece code lead entry id).reads) :
    r.1 ∈ (readPiece code lead entry id).objectsRead :=
  List.mem_append_left _ (List.mem_map_of_mem hr)

theorem mem_objectsRead_of_field {f : Field} (hf : f ∈ (readPiece code lead entry id).fields) {object name : String}
    (ho : f.operand = .field object name) : object ∈ (readPiece code lead entry id).objectsRead :=
  List.mem_append_right _ (List.mem_filterMap.2 ⟨f, hf, by rw [ho]; rfl⟩)

/-- The readings of the next piece bind its aliases. -/
theorem readAliases_eq_ok (h : Clean code lead entry) (hu : Unhidden taken code lead entry)
    (he : (flatOf code lead entry).emitted = done ++ id :: rest)
    (hid : id ∈ (flatOf code lead entry).consumed) (hm : Linked code lead entry done m) :
    ∃ aliases, (readPiece code lead entry id).readAliases taken m = .ok aliases ∧ Holds code id aliases := by
  have hstep : ∀ r ∈ (readPiece code lead entry id).reads,
      ∃ v, m.objectField r.1 r.2.name = .ok v ∧ ∀ d : Dictionary Value, r.2.newName ∉ d.keys →
        m.bind taken (readPiece code lead entry id) d r = .ok (d.insert r.2.newName v) := by
    intro r hr
    obtain ⟨source, t, _, ht, hbefore, hexported, hn⟩ := h.import_of_reads hid hr
    obtain ⟨o, hfield, _⟩ := hm.objectField_eq_ok ht (mem_done he hbefore) hexported
    have hfree : r.2.newName ∉ taken id := hu.apart id hid _ ((h.mem_aliases_iff hid).1 (List.mem_map_of_mem hr))
    have hseen := hu.seen h hid (mem_objectsRead_of_reads hr)
    rw [← hn] at hfield
    exact ⟨_, hfield, fun d hnew =>
      Memory.bind_eq_ok_iff.2 ⟨hnew, hfree, _, (Memory.field_of_seen hseen).trans hfield, rfl⟩⟩
  obtain ⟨aliases, hfold, hkeys, _, hvalues⟩ := foldlM_insert (d := .empty) hstep
    (nodup_map_reads h hid) (by simp)
  refine ⟨aliases, hfold, ?_, ?_⟩
  · intro k
    rw [hkeys, or_iff_right (by simp), ← h.mem_aliases_iff hid]
    rfl
  · intro source b hb
    obtain ⟨t, hl, ht, hbefore, hexported, hr⟩ := h.reads_of_import hid hb
    obtain ⟨o, hfield, horigin⟩ := hm.objectField_eq_ok ht (mem_done he hbefore) hexported
    obtain ⟨v, hv, hget⟩ := hvalues _ hr
    rw [hfield] at hv
    cases hv
    exact ⟨t, hl.1, o, hget, horigin⟩

/-- What the next piece returns for an export is the origin of the export. -/
theorem value_eq_ok (h : Clean code lead entry) (hu : Unhidden taken code lead entry)
    (he : (flatOf code lead entry).emitted = done ++ id :: rest)
    (ho : id ∈ orderOf code entry) (hm : Linked code lead entry done m)
    (ha : Holds code id aliases) {e : Export} (hmem : e ∈ (parsedChunk code id).exports) :
    ∃ f o, fieldOf? (scopeOf code lead entry) (linkedChunk code entry id) e = some f ∧
      f.key = e.binding.newName ∧
      m.value taken (readPiece code lead entry id) aliases f.operand = .ok (.symbol o) ∧
      IsOrigin code id e.binding.newName o := by
  have hid : id ∈ (flatOf code lead entry).consumed := mem_consumed_iff.2 (.inr ho)
  obtain ⟨b, source?⟩ := e
  cases source? with
  | none =>
      have hclause := own_mem_exports_iff.1 hmem
      by_cases hl : b.name ∈ importAliases (parsedChunk code id)
      · obtain ⟨⟨source, i⟩, hi, hname⟩ := List.mem_map.1 hl
        obtain ⟨t, hr, o, hget, horigin⟩ := ha.origin source i hi
        refine ⟨⟨b.newName, .own b.name⟩, o, rfl, rfl, ?_, ?_⟩
        · rw [Memory.value, ← hname, hget, Option.getD_some]
        · exact isOrigin_imported (h.exports id hid) (h.imports id hid) hclause hi hname hr horigin
      · have hget : aliases.get? b.name = none :=
          Dictionary.get?_eq_none_iff.2 fun hk => hl ((ha.keys b.name).1 hk)
        refine ⟨⟨b.newName, .own b.name⟩, ⟨id, b.name⟩, rfl, rfl, ?_, ?_⟩
        · rw [Memory.value, hget, Option.getD_none]
          rfl
        · exact isOrigin_own (h.exports id hid) hclause hl
  | some source =>
      obtain ⟨bindings, hp, hb⟩ := taken_mem_exports_iff.1 hmem
      obtain ⟨t, hlink, ht, hbefore, hexported, htarget⟩ := h.target_of_binding hid hp rfl rfl hb
      obtain ⟨o, hfield, horigin⟩ := hm.objectField_eq_ok ht (mem_done he hbefore) hexported
      have hf : fieldOf? (scopeOf code lead entry) (linkedChunk code entry id) ⟨b, some source⟩
          = some ⟨b.newName, .field (nameOf code lead entry t) b.name⟩ := by
        simp only [fieldOf?, htarget, Option.map_some]
      have hmem_fields := mem_fields_iff.2 ⟨ne_entry_of_mem_order ho, _, hmem, hf⟩
      have hseen := hu.seen h hid (mem_objectsRead_of_field hmem_fields rfl)
      exact ⟨_, o, hf, rfl, (Memory.field_of_seen hseen).trans hfield,
        isOrigin_taken (h.exports id hid) hmem hlink.1 horigin⟩

theorem nodup_map_fields (hnodup : c.exportedNames.Nodup) :
    ((c.exports.filterMap (fieldOf? scope c)).map Field.key).Nodup :=
  hnodup.sublist (Lists.map_filterMap_sublist (fun _ _ hf => key_fieldOf? hf) _)

/-- The object that the next piece returns offers the exports of its chunk. -/
theorem object_eq_ok (h : Clean code lead entry) (hu : Unhidden taken code lead entry)
    (he : (flatOf code lead entry).emitted = done ++ id :: rest)
    (ho : id ∈ orderOf code entry) (hm : Linked code lead entry done m)
    (ha : Holds code id aliases) :
    ∃ object, ((parsedChunk code id).exports.filterMap
        (fieldOf? (scopeOf code lead entry) (linkedChunk code entry id))).foldlM
          (m.extend taken (readPiece code lead entry id) aliases) .empty = .ok object ∧
      Offers code id object := by
  have hid : id ∈ (flatOf code lead entry).consumed := mem_consumed_iff.2 (.inr ho)
  have hstep : ∀ f ∈ (parsedChunk code id).exports.filterMap
      (fieldOf? (scopeOf code lead entry) (linkedChunk code entry id)),
      ∃ v, (∃ o, v = .symbol o ∧ IsOrigin code id f.key o) ∧ ∀ d : Dictionary Value, f.key ∉ d.keys →
        m.extend taken (readPiece code lead entry id) aliases d f = .ok (d.insert f.key v) := by
    intro f hf
    obtain ⟨e, hmem, hf⟩ := List.mem_filterMap.1 hf
    obtain ⟨f', o, hf', hkey, hvalue, horigin⟩ := value_eq_ok h hu he ho hm ha hmem
    rw [hf] at hf'
    cases hf'
    have hplain : f.key ≠ prototypeKey := by
      intro hproto
      exact hu.fields id ho (hproto ▸ mem_exportedNames_iff.2 ⟨e, hmem, hkey.symm⟩)
    exact ⟨_, ⟨o, rfl, hkey ▸ horigin⟩, fun d _ =>
      Memory.extend_eq_ok_iff.2 ⟨_, hvalue, (if_neg hplain).symm⟩⟩
  obtain ⟨object, hfold, _, _, hvalues⟩ := foldlM_insert (d := .empty) hstep
    (nodup_map_fields (h.exports id hid)) (by simp)
  refine ⟨object, hfold, ?_⟩
  intro n hn
  obtain ⟨e, hmem, rfl⟩ := mem_exportedNames_iff.1 hn
  obtain ⟨f, _, hf, hkey, _, _⟩ := value_eq_ok h hu he ho hm ha hmem
  obtain ⟨_, ⟨o, rfl, horigin⟩, hget⟩ := hvalues f (List.mem_filterMap.2 ⟨e, hmem, hf⟩)
  rw [← hkey]
  exact ⟨o, hget, horigin⟩

/-- The aliases of one more chunk. -/
theorem Linked.aliases_insert (hm : Linked code lead entry done m) (hnew : id ∉ done)
    (ha : Holds code id aliases) : ∀ id' ∈ done ++ [id],
      ∃ aliases', (m.aliases.insert id aliases).get? id' = some aliases' ∧ Holds code id' aliases' := by
  intro id' hid'
  rw [Dictionary.get?_insert]
  rcases List.mem_append.1 hid' with hid' | hid'
  · rw [if_neg fun heq : id' = id => hnew (heq ▸ hid')]
    exact hm.aliases id' hid'
  · rw [List.mem_singleton.1 hid', if_pos rfl]
    exact ⟨aliases, rfl, ha⟩

/-- **One piece**: the next piece can be evaluated, and what holds of the memory is kept. -/
theorem Linked.step (h : Clean code lead entry) (hu : Unhidden taken code lead entry)
    (he : (flatOf code lead entry).emitted = done ++ id :: rest) (hm : Linked code lead entry done m) :
    ∃ m', (readPiece code lead entry id).run taken m = .ok m' ∧ Linked code lead entry (done ++ [id]) m' := by
  have hid : id ∈ (flatOf code lead entry).consumed := by
    rw [← mem_emitted_iff, he]
    simp
  have hnew : id ∉ done := by
    have hnodup := @emitted_nodup code lead entry
    rw [he, List.nodup_append] at hnodup
    exact fun hd => hnodup.2.2 id hd id List.mem_cons_self rfl
  obtain ⟨aliases, hread, ha⟩ := readAliases_eq_ok h hu he hid hm
  have haliases := hm.aliases_insert hnew ha
  rcases mem_consumed_iff.1 hid with heq | ho
  · -- The entry returns nothing, so the objects stay as they are.
    subst heq
    have hfree : ∀ name ∈ (readPiece code lead id id).aliases ++ taken id, name ∉ m.objects.keys := by
      intro name hname hobject
      obtain ⟨t, _, hto, rfl⟩ := hm.names name hobject
      obtain ⟨halias, hfree⟩ := hu.outermost t hto
      exact (List.mem_append.1 hname).elim (fun hmem => halias ((h.mem_aliases_iff hid).1 hmem)) hfree
    refine ⟨_, (Piece.run_entry_iff (if_pos rfl)).2 ⟨aliases, hread, hfree, rfl⟩, ?_, ?_, haliases⟩
    · intro t ht hto
      rcases List.mem_append.1 ht with ht | ht
      · exact hm.objects t ht hto
      · rw [List.mem_singleton.1 ht] at hto
        exact absurd hto entry_not_mem_order
    · intro name hname
      obtain ⟨t, ht, hto, hn⟩ := hm.names name hname
      exact ⟨t, List.mem_append_left _ ht, hto, hn⟩
  · obtain ⟨object, hobject, hoffers⟩ := object_eq_ok h hu he ho hm ha
    have hfresh : nameOf code lead entry id ∉ m.objects.keys := by
      intro hname
      obtain ⟨t, ht, hto, hn⟩ := hm.names _ hname
      exact hnew (nameOf_injective hto ho hn ▸ ht)
    refine ⟨_, (Piece.run_wrapped_iff (if_neg (ne_entry_of_mem_order ho))).2
      ⟨aliases, object, hread, hobject, hfresh, rfl⟩, ?_, ?_, haliases⟩
    · intro t ht hto
      dsimp only
      rw [Dictionary.get?_insert]
      rcases List.mem_append.1 ht with ht | ht
      · rw [if_neg fun hn => hnew (nameOf_injective hto ho hn ▸ ht)]
        exact hm.objects t ht hto
      · rw [List.mem_singleton.1 ht, if_pos rfl]
        exact ⟨object, rfl, hoffers⟩
    · intro name hname
      rcases Dictionary.mem_keys_insert.1 hname with rfl | hname
      · exact ⟨id, List.mem_append_right _ List.mem_cons_self, ho, rfl⟩
      · obtain ⟨t, ht, hto, hn⟩ := hm.names name hname
        exact ⟨t, List.mem_append_left _ ht, hto, hn⟩

/-- **All pieces** can be evaluated. -/
theorem Linked.run (h : Clean code lead entry) (hu : Unhidden taken code lead entry)
    (he : (flatOf code lead entry).emitted = done ++ rest) (hm : Linked code lead entry done m) :
    ∃ m', (rest.map (readPiece code lead entry)).foldlM (Piece.run taken) m = .ok m' ∧
      Linked code lead entry (flatOf code lead entry).emitted m' := by
  induction rest generalizing done m with
  | nil =>
      rw [he, List.append_nil]
      exact ⟨m, rfl, hm⟩
  | cons id rest ih =>
      obtain ⟨m₁, hrun, hm₁⟩ := hm.step h hu he
      obtain ⟨m₂, hrest, hm₂⟩ := ih (by rw [he, List.append_assoc, List.singleton_append]) hm₁
      refine ⟨m₂, ?_, hm₂⟩
      rw [List.map_cons, List.foldlM_cons, hrun]
      exact hrest

end step

/-! ### Symbols -/

/-- In the memory each alias of an import has the one origin of what it imports from the chunk that the source
means, and the object of each wrapped chunk has the origins of the chunk's exports. -/
structure Survives (code : Dictionary String) (lead entry : String) (m : Memory) : Prop where
  aliases : ∀ id ∈ (flatOf code lead entry).consumed, ∃ aliases, m.aliases.get? id = some aliases ∧
    ∀ source b, (source, b) ∈ namedImports (parsedChunk code id) →
      ∃ t, Resolves code id source t ∧
        ∃ o, aliases.get? b.newName = some (.symbol o) ∧ IsOrigin code t b.name o
  objects : ∀ t ∈ orderOf code entry, ∃ object,
    m.objects.get? (nameOf code lead entry t) = some object ∧ Offers code t object

/-- **Symbols survive linking** where nothing hides an object. -/
theorem survives_of_unhidden {taken : String → List String} (h : Clean code lead entry)
    (hu : Unhidden taken code lead entry) :
    ∃ m, runAll taken (piecesOf code lead entry) = .ok m ∧ Survives code lead entry m := by
  obtain ⟨m, hrun, hm⟩ := linked_start.run h hu (List.nil_append _).symm
  refine ⟨m, hrun, ?_, ?_⟩
  · intro id hid
    obtain ⟨aliases, hget, ha⟩ := hm.aliases id (mem_emitted_iff.2 hid)
    exact ⟨aliases, hget, ha.origin⟩
  · intro t ht
    exact hm.objects t (mem_emitted_iff.2 (mem_consumed_iff.2 (.inr ht))) ht

end Pagefold.Link
