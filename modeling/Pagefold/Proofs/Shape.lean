import Pagefold.Proofs.Bytes
import Pagefold.Proofs.Readers
import Pagefold.Proofs.Rewriting

/-! # The shape of a flat script

The chunks of the script of `entry` are those that imports lead to from `entry`, each once
(`mem_consumed_iff_reachable`).  All but the entry have a name of their own, and the naming lists
them in the order of the script (`entries_names`).  The script is their closures, line by line, and
then the entry's own code, which starts at a byte between two characters (`cutAtByte_entryStart`).
An entry that is linked to nothing and has no export clause is its own script (`entryBody_of_alone`). -/

namespace Pagefold.Link

open Script Text

variable {code : Dictionary String} {lead entry id : String}

/-! ### Which chunks a script consists of -/

theorem reachable_of_mem_order (h : id ∈ orderOf code entry) :
    Relation.ReflTransGen (Imports code) entry id := by
  obtain ⟨seed, hseed, hpath⟩ := (ImportGraph.mem_order_iff _).1 h
  clear h
  induction hpath with
  | refl => exact .single (imports_of_mem_targets hseed)
  | tail _ he ih => exact ih.tail (imports_of_mem_targets (edge_graph_iff.1 he).2)

/-- **Which chunks are consumed**: the entry, and those that imports lead to from it. -/
theorem mem_consumed_iff_reachable : id ∈ (flatOf code lead entry).consumed
    ↔ Relation.ReflTransGen (Imports code) entry id := by
  rw [mem_consumed_iff]
  constructor
  · rintro (rfl | h)
    · exact .refl
    · exact reachable_of_mem_order h
  · intro h
    induction h with
    | refl => exact .inl rfl
    | @tail u t _ hstep ih =>
        obtain ⟨source, hs, hr⟩ := hstep
        -- A source that means the entry or its own chunk leads to no other chunk.
        by_cases hentry : t = entry
        · exact .inl hentry
        · by_cases hself : t = u
          · rwa [hself]
          · exact .inr (target_mem_order ih (mem_targets_iff.2 ⟨source, hs, hr, hentry, hself⟩))

theorem consumed_nodup : (flatOf code lead entry).consumed.Nodup := by
  rw [consumed_eq, List.nodup_cons]
  exact ⟨entry_not_mem_order, orderOf_nodup⟩

/-! ### Names -/

theorem keys_names : (flatOf code lead entry).names.keys = orderOf code entry :=
  Naming.keys_ofList orderOf_nodup

/-- The naming lists the wrapped chunks in the order of the script. -/
theorem entries_names : (flatOf code lead entry).names.entries
    = (orderOf code entry).map fun id => (id, nameOf code lead entry id) := by
  rw [← @keys_names code lead entry, Dictionary.keys, List.map_map]
  conv_lhs => rw [← List.map_id (flatOf code lead entry).names.entries]
  apply List.map_congr_left
  intro e he
  have hname := (@names_get?_iff code lead entry e.1 e.2).1 (Dictionary.get?_of_mem_entries he)
  exact Prod.ext rfl hname.2.symm

/-! ### Texts -/

theorem wrappers_eq_entries : (flatOf code lead entry).wrappers
    = String.join ((flatOf code lead entry).names.entries.map fun e =>
        wrapped (scopeOf code lead entry) (linkedChunk code entry e.1) e.2 ++ "\n") := by
  rw [wrappers_eq, entries_names, List.map_map]
  refine congrArg String.join (List.map_congr_left fun id hid => ?_)
  exact pieceOf_of_ne (ne_entry_of_mem_order hid)

theorem toList_script (f : Flat) : f.script.toList = f.wrappers.toList ++ f.entryBody.toList :=
  String.toList_append

/-- The entry's code starts between two characters. -/
theorem entryStart_isValid (f : Flat) : String.Pos.Raw.IsValid f.script ⟨f.entryStart⟩ :=
  String.Pos.Raw.isValid_iff_exists_append.2 ⟨f.wrappers, f.entryBody, rfl, rfl⟩

/-- A cut where the entry's code starts gives both parts of the script back. -/
theorem cutAtByte_entryStart (f : Flat) :
    cutAtByte f.entryStart f.script.toList = (f.wrappers.toList, f.entryBody.toList) := by
  rw [toList_script, Flat.entryStart, ← byteSize_toList, cutAtByte_byteSize]

/-- Where nothing is linked, a segment that is no export clause stays as it is. -/
theorem segmentText_of_alone (halone : orderOf code entry = [])
    (hclauses : (parsedChunk code entry).exportClauses = []) {segment : Segment}
    (hm : segment ∈ (parsedChunk code entry).segments) :
    segmentText (scopeOf code lead entry) (linkedChunk code entry entry) segment = segment.text := by
  have hstands := @stands_segmentText code lead entry entry (.inl rfl) segment hm
  have hunlinked : ∀ text parsed, segment = .statement text parsed → ∀ source t,
      parsed.source? = some source → ¬ LinksTo code entry entry source t := by
    rintro text parsed rfl source t hs hl
    have ht := target_mem_order (.inl rfl)
      (mem_targets_iff.2 ⟨source, mem_sources_of_mem_segments hm hs, hl⟩)
    rw [halone] at ht
    cases ht
  generalize segmentText _ _ segment = out at hstands ⊢
  cases hstands with
  | code | kept => rfl
  | clause text bindings =>
      have hmem : bindings ∈ (parsedChunk code entry).exportClauses :=
        List.mem_filterMap.2 ⟨_, List.mem_filterMap.2 ⟨_, hm, rfl⟩, rfl⟩
      rw [hclauses] at hmem
      cases hmem
  | read _ hl | effect hl | unbound hl | passedOn hl =>
      exact absurd hl (hunlinked _ _ rfl _ _ rfl)

/-- **An entry that stands alone**, without export clauses, is its own script. -/
theorem entryBody_of_alone {text : String} (halone : orderOf code entry = [])
    (htext : code.get? entry = some text) (hclauses : (parsedChunk code entry).exportClauses = []) :
    (flatOf code lead entry).entryBody = text := by
  have hsegments : (parsedChunk code entry).segments = Segment.scan text := by
    rw [parsedChunk, htext, Option.getD_some, Chunk.parse]
  rw [entryBody_eq, entryPiece_eq, List.map_congr_left fun _ => segmentText_of_alone halone hclauses,
    ← List.flatMap_def, hsegments, Segment.flatMap_text_scan, String.ofList_toList]

/-- **The shape of a script.**  It consists of the entry and the other chunks that imports lead to from
it, each once; the naming lists these others in their order, with distinct names.  The script is the
closures of the named chunks, each on lines of its own and bound to its name, and behind them the
entry's code, which starts at a byte between two characters.  Without a named chunk the script is the
entry's code, and the code of the chunk as it is when that has no export clause. -/
theorem script_shape (code : Dictionary String) (lead entry : String) :
    (flatOf code lead entry).consumed = entry :: (flatOf code lead entry).names.keys ∧
    (flatOf code lead entry).consumed.Nodup ∧
    (∀ id, id ∈ (flatOf code lead entry).consumed
      ↔ Relation.ReflTransGen (Imports code) entry id) ∧
    (flatOf code lead entry).names.values.Nodup ∧
    (flatOf code lead entry).wrappers
      = String.join ((flatOf code lead entry).names.entries.map fun e =>
          "const " ++ e.2 ++ " = (() => \x7b\n"
            ++ withoutFinalNewlines (body (scopeOf code lead entry) (linkedChunk code entry e.1))
            ++ "\nreturn " ++ exportObject (scopeOf code lead entry) (linkedChunk code entry e.1)
            ++ ";\n\x7d)();" ++ "\n") ∧
    (flatOf code lead entry).entryBody
      = body (scopeOf code lead entry) (linkedChunk code entry entry) ∧
    (flatOf code lead entry).script
      = (flatOf code lead entry).wrappers ++ (flatOf code lead entry).entryBody ∧
    (flatOf code lead entry).entryStart = (flatOf code lead entry).wrappers.utf8ByteSize ∧
    String.Pos.Raw.IsValid (flatOf code lead entry).script ⟨(flatOf code lead entry).entryStart⟩ ∧
    cutAtByte (flatOf code lead entry).entryStart (flatOf code lead entry).script.toList
      = ((flatOf code lead entry).wrappers.toList, (flatOf code lead entry).entryBody.toList) ∧
    ((flatOf code lead entry).names.keys = [] →
      (flatOf code lead entry).script = (flatOf code lead entry).entryBody ∧
      ∀ text, code.get? entry = some text → (parsedChunk code entry).exportClauses = [] →
        (flatOf code lead entry).script = text) := by
  refine ⟨?_, consumed_nodup, fun id => mem_consumed_iff_reachable, Naming.values_nodup_ofList,
    wrappers_eq_entries, rfl, rfl, rfl, entryStart_isValid _, cutAtByte_entryStart _, ?_⟩
  · rw [keys_names, consumed_eq]
  · intro halone
    rw [keys_names] at halone
    have hscript : (flatOf code lead entry).script = (flatOf code lead entry).entryBody := by
      rw [Flat.script, wrappers_eq, halone, List.map_nil]
      exact String.empty_append
    refine ⟨hscript, fun text htext hclauses => ?_⟩
    rw [hscript, entryBody_of_alone halone htext hclauses]

/-- The chunks `a.js` and `b.js` import each other, `i.js` imports both, and `j.js` is imported by
none. -/
def mutualImports : Dictionary String :=
  .ofList [("i.js", "import\"./a.js\";import\"./b.js\";\u00b5()"), ("a.js", "import\"./b.js\";a()\n\n"),
    ("b.js", "import\"./a.js\";b()"), ("j.js", "import\"./i.js\";")]

theorem mutualImports_shape :
    (flatOf mutualImports "__ns_" "i.js").names.keys = ["b.js", "a.js"] ∧
    (flatOf mutualImports "__ns_" "i.js").entryBody = ";;\u00b5()" ∧
    Relation.ReflTransGen (Imports mutualImports) "i.js" "b.js" ∧
    ¬ Relation.ReflTransGen (Imports mutualImports) "i.js" "j.js" ∧
    (flatOf mutualImports "__ns_" "j.js").consumed = ["j.js", "b.js", "a.js", "i.js"] := by
  have hreach := (script_shape mutualImports "__ns_" "i.js").2.2.1
  refine ⟨by decide +kernel, by decide +kernel, (hreach "b.js").1 (by decide +kernel), ?_, by decide +kernel⟩
  intro hj
  exact absurd ((hreach "j.js").2 hj) (by decide +kernel)

end Pagefold.Link
