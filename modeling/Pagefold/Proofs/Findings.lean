import Pagefold.Proofs.Rewriting

/-! # What a script reports

A script reports what its sources meant, which links close a cycle, and what is wrong with the
statements of its pieces.  The findings of a source name its chunk and itself
(`sourceFindings_concern`), and those of a piece speak of linked sources only (`mem_bodyFindings`).
So whether a statement that stays is reported depends on its own source alone, and the one kind of
source that is passed over in silence is that by which a wrapped chunk means itself
(`left_statement_reported_iff`). -/

namespace Pagefold.Link

open Script

variable {code : Dictionary String} {lead entry importer id source : String} {scope : Scope} {c : Chunk}

/-! ### The findings of a source -/

theorem sourceFindings_concern {result : Except LinkError Located} {f : Finding}
    (h : f ∈ sourceFindings entry importer source result) :
    f.chunk? = some importer ∧ f.reference? = some source := by
  unfold sourceFindings at h
  split at h
  · rw [List.mem_singleton.1 h]
    exact ⟨rfl, rfl⟩
  · rw [List.mem_singleton.1 h]
    exact ⟨rfl, rfl⟩
  · rename_i located
    rcases List.mem_append.1 h with h | h
    · split at h
      · rw [List.mem_singleton.1 h]
        exact ⟨rfl, rfl⟩
      · cases h
    · split at h
      · rw [List.mem_singleton.1 h]
        exact ⟨rfl, rfl⟩
      · cases h

/-- What is said about a source is that it leads to no chunk, that it fits several chunks, or that it means
the entry. -/
theorem kind_of_mem_sourceFindings {result : Except LinkError Located} {f : Finding}
    (h : f ∈ sourceFindings entry importer source result) :
    f.kind = .unresolvedImport ∨ f.kind = .ambiguousImport ∨ f.kind = .entryImported := by
  unfold sourceFindings at h
  split at h
  · rw [List.mem_singleton.1 h]
    exact .inl rfl
  · rw [List.mem_singleton.1 h]
    exact .inl rfl
  · rcases List.mem_append.1 h with h | h
    · split at h
      · rw [List.mem_singleton.1 h]
        exact .inr (.inl rfl)
      · cases h
    · split at h
      · rw [List.mem_singleton.1 h]
        exact .inr (.inr rfl)
      · cases h

/-- Nothing is said about a source that means one chunk for certain, unless that is the entry. -/
theorem sourceFindings_eq_nil_iff {result : Except LinkError Located} :
    sourceFindings entry importer source result = []
      ↔ ∃ located, result = .ok located ∧ located.isAmbiguous = false ∧ located.id ≠ entry := by
  unfold sourceFindings
  split
  · simp
  · simp
  · rename_i located
    simp

/-- What a script says about the sources of the chunks below the entry. -/
theorem mem_survey_findings_iff {f : Finding} :
    f ∈ (surveyOf code entry).findings (.ofList code.keys)
      ↔ ∃ id ∈ entry :: (surveyOf code entry).nodes.keys, ∃ source ∈ (parsedChunk code id).sources,
          f ∈ sourceFindings entry id source ((Catalog.ofList code.keys).locate source id) := by
  rw [Survey.findings, chunks_surveyOf, List.flatMap_map, List.mem_flatMap]
  unfold importFindings lookUps
  simp only [List.flatMap_map, List.mem_flatMap]
  rfl

/-! ### The findings of a piece -/

theorem mem_statementFindings {clauseSeen : Bool} {text : List Char} {parsed : Statement}
    {f : Finding} (h : f ∈ statementFindings scope c clauseSeen text parsed) :
    (∃ source t b, parsed.source? = some source ∧ scope.target? c source = some t ∧
      b.name ∉ t.chunk.exportedNames ∧ f = .missingExport c.id source t.id b) ∨
      ∃ clause, f = .duplicateExportClause c.id clause := by
  have hlinked : ∀ source bindings,
      f ∈ (scope.target? c source).elim [] (missingExports c source bindings) →
      ∃ t b, scope.target? c source = some t ∧ b.name ∉ t.chunk.exportedNames ∧
        f = .missingExport c.id source t.id b := by
    intro source bindings hf
    cases ht : scope.target? c source with
    | none =>
        rw [ht] at hf
        cases hf
    | some t =>
        rw [ht] at hf
        obtain ⟨b, hb, rfl⟩ := List.mem_map.1 hf
        have hmissing := (List.mem_filter.1 hb).2
        exact ⟨t, b, rfl, by simpa using hmissing, rfl⟩
  cases parsed with
  | namedImport bindings source =>
      obtain ⟨t, b, ht, hb, hf⟩ := hlinked source bindings h
      exact .inl ⟨source, t, b, rfl, ht, hb, hf⟩
  | reexport bindings source =>
      obtain ⟨t, b, ht, hb, hf⟩ := hlinked source bindings h
      exact .inl ⟨source, t, b, rfl, ht, hb, hf⟩
  | bareImport source => cases h
  | exportClause bindings =>
      rw [statementFindings] at h
      split at h
      · exact .inr ⟨_, List.mem_singleton.1 h⟩
      · cases h

/-- What is missing of the target of a statement is a finding. -/
theorem missingExports_subset {clauseSeen : Bool} {text : List Char} {parsed : Statement}
    {bindings : List Binding} {t : Target} (hs : parsed.source? = some source)
    (hb : parsed.bindings? = some bindings) (ht : scope.target? c source = some t) :
    missingExports c source bindings t ⊆ statementFindings scope c clauseSeen text parsed := by
  intro f hf
  cases parsed with
  | namedImport bindings' source' =>
      cases hs
      cases hb
      rw [statementFindings, ht]
      exact hf
  | reexport bindings' source' =>
      cases hs
      cases hb
      rw [statementFindings, ht]
      exact hf
  | bareImport source' => cases hb
  | exportClause bindings' => cases hs

/-- Each finding of some segments is one of a statement among them. -/
theorem mem_segmentFindings {clauseSeen : Bool} {segments : List Segment} {f : Finding}
    (h : f ∈ segmentFindings scope c clauseSeen segments) :
    ∃ seen text parsed, .statement text parsed ∈ segments ∧
      f ∈ statementFindings scope c seen text parsed := by
  induction segments generalizing clauseSeen with
  | nil => cases h
  | cons segment segments ih =>
      cases segment with
      | code text =>
          obtain ⟨seen, text, parsed, hm, hf⟩ := ih h
          exact ⟨seen, text, parsed, List.mem_cons_of_mem _ hm, hf⟩
      | statement text parsed =>
          rcases List.mem_append.1 h with h | h
          · exact ⟨clauseSeen, text, parsed, List.mem_cons_self, h⟩
          · obtain ⟨seen, text, parsed, hm, hf⟩ := ih h
            exact ⟨seen, text, parsed, List.mem_cons_of_mem _ hm, hf⟩

/-- No finding of a statement is lost. -/
theorem statementFindings_subset {clauseSeen : Bool} {segments : List Segment} {text : List Char}
    {parsed : Statement} (hm : .statement text parsed ∈ segments) :
    ∃ seen, statementFindings scope c seen text parsed ⊆ segmentFindings scope c clauseSeen segments := by
  induction segments generalizing clauseSeen with
  | nil => cases hm
  | cons segment segments ih =>
      rcases List.mem_cons.1 hm with rfl | hin
      · exact ⟨clauseSeen, List.subset_append_left _ _⟩
      · clear hm
        cases segment with
        | code text' => exact ih hin
        | statement text' parsed' =>
            obtain ⟨seen, hsub⟩ := ih hin
            exact ⟨seen, fun f hf => List.mem_append_right _ (hsub hf)⟩

/-- The findings of a piece speak of what its linked sources do not export, or of its export
clauses. -/
theorem mem_bodyFindings {f : Finding} (h : f ∈ bodyFindings scope c) :
    (∃ source t b, scope.target? c source = some t ∧ b.name ∉ t.chunk.exportedNames ∧
      f = .missingExport c.id source t.id b) ∨
      ∃ clause, f = .duplicateExportClause c.id clause := by
  obtain ⟨seen, text, parsed, _, hf⟩ := mem_segmentFindings h
  rcases mem_statementFindings hf with ⟨source, t, b, _, ht, hb, hf⟩ | hf
  · exact .inl ⟨source, t, b, ht, hb, hf⟩
  · exact .inr hf

/-- What a chunk of the script takes from a linked chunk that does not export it is a finding. -/
theorem missing_mem_findings (hid : id = entry ∨ id ∈ orderOf code entry) {text : List Char}
    {parsed : Statement} (hm : .statement text parsed ∈ (parsedChunk code id).segments)
    (hs : parsed.source? = some source) {bindings : List Binding}
    (hb : parsed.bindings? = some bindings) {t : String} (hl : LinksTo code entry id source t)
    {b : Binding} (hmem : b ∈ bindings) (hnot : b.name ∉ (parsedChunk code t).exportedNames) :
    Finding.missingExport id source t b ∈ (flatOf code lead entry).findings := by
  have ht := (@target?_iff code lead entry id source hid (mem_sources_of_mem_segments hm hs)
    ⟨linkedChunk code entry t, t, nameOf code lead entry t⟩).2 ⟨hl, rfl⟩
  have hmissing : Finding.missingExport id source t b ∈ missingExports (linkedChunk code entry id)
      source bindings ⟨linkedChunk code entry t, t, nameOf code lead entry t⟩ :=
    List.mem_map.2 ⟨b, List.mem_filter.2 ⟨hmem, by simpa [Chunk.exportedNames] using hnot⟩, rfl⟩
  obtain ⟨seen, hsub⟩ := @statementFindings_subset (scopeOf code lead entry)
    (linkedChunk code entry id) false _ text parsed hm
  rw [findings_eq, List.mem_append]
  refine .inr (List.mem_flatMap.2 ⟨id, ?_, hsub (missingExports_subset hs hb ht hmissing)⟩)
  rw [mem_emitted_iff]
  exact mem_consumed_iff.2 hid

/-! ### Statements that stay -/

/-- A diagnostic of a script names a chunk and a source of it. -/
def Reported (f : Flat) (chunk source : String) : Prop :=
  ∃ d ∈ f.diagnostics, d.chunk? = some chunk ∧ d.reference? = some source

/-- By `source` the chunk `importer`, which is not the entry, means itself, and no other chunk comes
into question. -/
def MeansItself (code : Dictionary String) (entry importer source : String) : Prop :=
  ∃ located, (Catalog.ofList code.keys).locate source importer = .ok located ∧
    located.id = importer ∧ located.isAmbiguous = false ∧ importer ≠ entry

theorem consumed_subset_survey (hid : id = entry ∨ id ∈ orderOf code entry) :
    id ∈ entry :: (surveyOf code entry).nodes.keys := by
  rcases hid with rfl | hid
  · exact List.mem_cons_self
  · exact List.mem_cons_of_mem _ (mem_nodes_of_mem_order hid)

theorem reported_of_sourceFindings (hid : id = entry ∨ id ∈ orderOf code entry)
    (hs : source ∈ (parsedChunk code id).sources)
    (h : sourceFindings entry id source ((Catalog.ofList code.keys).locate source id) ≠ []) :
    Reported (flatOf code lead entry) id source := by
  obtain ⟨f, hf⟩ := List.exists_mem_of_ne_nil _ h
  refine ⟨f.diagnostic, List.mem_map_of_mem ?_, sourceFindings_concern hf⟩
  rw [findings_eq, List.mem_append, List.mem_append]
  exact .inl (.inl (mem_survey_findings_iff.2 ⟨id, consumed_subset_survey hid, source, hs, hf⟩))

/-- Only the look-up of a source that stays can have reported it. -/
theorem sourceFindings_of_reported (hstay : Stays code entry id source)
    (h : Reported (flatOf code lead entry) id source) :
    sourceFindings entry id source ((Catalog.ofList code.keys).locate source id) ≠ [] := by
  obtain ⟨d, hd, hc, hr⟩ := h
  obtain ⟨f, hf, rfl⟩ := List.mem_map.1 hd
  rw [findings_eq, List.mem_append, List.mem_append] at hf
  rcases hf with (hf | hf) | hf
  · obtain ⟨id', _, source', _, hf⟩ := mem_survey_findings_iff.1 hf
    obtain ⟨hc', hr'⟩ := sourceFindings_concern hf
    obtain rfl : id' = id := Option.some.inj (hc'.symm.trans hc)
    obtain rfl : source' = source := Option.some.inj (hr'.symm.trans hr)
    exact List.ne_nil_of_mem hf
  · obtain ⟨cycle, _, rfl⟩ := List.mem_map.1 hf
    cases hr
  · obtain ⟨id', hid', hf⟩ := List.mem_flatMap.1 hf
    rcases mem_bodyFindings hf with ⟨source', t, b, ht, _, rfl⟩ | ⟨clause, rfl⟩
    · obtain rfl : id' = id := Option.some.inj hc
      obtain rfl : source' = source := Option.some.inj hr
      obtain ⟨t, ht, _⟩ := Option.bind_eq_some_iff.1 ht
      exact absurd hstay (resolved_get?_iff.1 ht).2.not_stays
    · cases hr

/-- **When a statement that is left is reported.**  An import or a re-export of a chunk of the script
that is left as it is has a diagnostic that names the chunk and the source, unless the chunk, being
wrapped, certainly means itself by the source. -/
theorem left_statement_reported_iff (code : Dictionary String) (lead entry id : String)
    (hid : id ∈ (flatOf code lead entry).consumed) (text : List Char) (parsed : Statement)
    (hm : .statement text parsed ∈ (parsedChunk code id).segments) (source : String)
    (hs : parsed.source? = some source)
    (hleft : segmentText (scopeOf code lead entry) (linkedChunk code entry id)
      (.statement text parsed) = text) :
    Reported (flatOf code lead entry) id source ↔ ¬ MeansItself code entry id source := by
  have hid := mem_consumed_iff.1 hid
  have hstay : Stays code entry id source :=
    (stands_copy_iff hm hs (stands_segmentText hid hm)).1 hleft
  have hreported : Reported (flatOf code lead entry) id source
      ↔ sourceFindings entry id source ((Catalog.ofList code.keys).locate source id) ≠ [] :=
    ⟨sourceFindings_of_reported hstay,
      reported_of_sourceFindings hid (mem_sources_of_mem_segments hm hs)⟩
  rw [hreported, ne_eq, sourceFindings_eq_nil_iff, not_iff_not]
  constructor
  · rintro ⟨located, hl, hamb, hne⟩
    have hown := (hstay located.id ⟨located, hl, rfl⟩).resolve_left hne
    exact ⟨located, hl, hown, hamb, hown ▸ hne⟩
  · rintro ⟨located, hl, rfl, hamb, hne⟩
    exact ⟨located, hl, hamb, hne⟩

/-- The entry `i.js` imports `a.js` and a chunk that does not exist, and `a.js` imports itself. -/
def ownImport : Dictionary String :=
  .ofList [("i.js", "import\"./a.js\";import\"./b.js\";"), ("a.js", "import\"./a.js\";")]

theorem ownImport_reported : Reported (flatOf ownImport "__ns_" "i.js") "i.js" "./b.js" :=
  (left_statement_reported_iff ownImport "__ns_" "i.js" "i.js" (by decide +kernel)
    "import\"./b.js\";".toList (.bareImport "./b.js") (by decide +kernel) "./b.js" rfl
    (by decide +kernel)).2 fun ⟨_, _, _, _, hne⟩ => hne rfl

/-- The import of `a.js` by itself is in the script, and no diagnostic is about `a.js`. -/
theorem ownImport_passed_over :
    "a.js" ∈ (flatOf ownImport "__ns_" "i.js").consumed ∧
    .statement "import\"./a.js\";".toList (.bareImport "./a.js")
      ∈ (parsedChunk ownImport "a.js").segments ∧
    segmentText (scopeOf ownImport "__ns_" "i.js") (linkedChunk ownImport "i.js" "a.js")
      (.statement "import\"./a.js\";".toList (.bareImport "./a.js")) = "import\"./a.js\";".toList ∧
    "import\"./a.js\";".toList <:+: (flatOf ownImport "__ns_" "i.js").script.toList ∧
    ∀ d ∈ (flatOf ownImport "__ns_" "i.js").diagnostics, d.chunk? ≠ some "a.js" := by
  refine ⟨?_, ?_, ?_, ?_, ?_⟩
  · decide +kernel
  · decide +kernel
  · decide +kernel
  · decide +kernel
  · decide +kernel

/-! ### Scripts without findings -/

theorem findings_eq_nil (hquiet : (flatOf code lead entry).diagnostics = []) :
    (flatOf code lead entry).findings = [] :=
  List.map_eq_nil_iff.1 hquiet

/-- When nothing is reported, each source of a chunk of the script means a chunk, and not the
entry. -/
theorem resolves_of_quiet (hquiet : (flatOf code lead entry).diagnostics = [])
    (hid : id = entry ∨ id ∈ orderOf code entry) (hs : source ∈ (parsedChunk code id).sources) :
    ∃ t, Resolves code id source t ∧ t ≠ entry := by
  have hnone : sourceFindings entry id source ((Catalog.ofList code.keys).locate source id) = [] := by
    by_contra hsome
    obtain ⟨d, hd, _⟩ := @reported_of_sourceFindings code lead entry id source hid hs hsome
    rw [hquiet] at hd
    cases hd
  obtain ⟨located, hl, _, hne⟩ := sourceFindings_eq_nil_iff.1 hnone
  exact ⟨located.id, ⟨located, hl, rfl⟩, hne⟩

/-- When nothing is reported, what a chunk of the script takes from a linked chunk is exported by
it. -/
theorem exported_of_quiet (hquiet : (flatOf code lead entry).diagnostics = [])
    (hid : id = entry ∨ id ∈ orderOf code entry) {text : List Char} {parsed : Statement}
    (hm : .statement text parsed ∈ (parsedChunk code id).segments)
    (hs : parsed.source? = some source) {bindings : List Binding}
    (hb : parsed.bindings? = some bindings) {t : String} (hl : LinksTo code entry id source t) :
    ∀ b ∈ bindings, b.name ∈ (parsedChunk code t).exportedNames := by
  intro b hmem
  by_contra hnot
  have hfinding := @missing_mem_findings code lead entry id source hid text parsed hm hs bindings hb
    t hl b hmem hnot
  rw [findings_eq_nil hquiet] at hfinding
  cases hfinding

end Pagefold.Link
