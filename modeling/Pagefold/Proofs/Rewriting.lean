import Pagefold.Proofs.Flat
import Pagefold.Proofs.Readers

/-! # Which statements stay

What stands for each segment of a chunk in its piece, said by what the segment's source resolves to
and not by the scope that the rewriting uses: code is copied, export clauses go, a statement whose
source stays is copied, and any other import or re-export makes way for a reading of the target's
object (`Stands`).  What the piece returns is said in the same way, statement by statement
(`Returns`).  A statement opens with its keyword, which none of its replacements does, so it is
copied just when its source stays (`stands_copy_iff`). -/

namespace Pagefold.Script

open Text

/-! ### Statements open with their keyword -/

theorem head?_of_isPrefixOf? {w s r : List Char} {c : Char} (h : (c :: w).isPrefixOf? s = some r) :
    s.head? = some c := by
  cases s with
  | nil => exact absurd h.symm (Option.some_ne_none r)
  | cons d s =>
      change (if c == d then w.isPrefixOf? s else none) = some r at h
      split at h
      · rename_i hcd
        rw [List.head?_cons, beq_iff_eq.1 hcd]
      · exact absurd h.symm (Option.some_ne_none r)

namespace Statement

theorem head?_of_read? {s r : List Char} {st : Statement} (h : read? s = some (st, r)) :
    s.head? = some 'i' ∨ s.head? = some 'e' := by
  unfold read? at h
  split at h
  · rename_i a ha
    exact .inl (head?_of_isPrefixOf? ha)
  · split at h
    · rename_i a ha
      exact .inr (head?_of_isPrefixOf? ha)
    · cases h

end Statement

namespace Segment

theorem not_mem_ofReversed {code text : List Char} {parsed : Statement} :
    statement text parsed ∉ ofReversed code := by
  unfold ofReversed
  split
  · simp
  · simp

theorem head?_of_mem_scanFrom {glued : Bool} {code s text : List Char} {parsed : Statement}
    (h : statement text parsed ∈ scanFrom glued code s) :
    text.head? = some 'i' ∨ text.head? = some 'e' := by
  induction glued, code, s using scan_induction with
  | done glued code =>
      rw [scanFrom] at h
      exact absurd h not_mem_ofReversed
  | taken code own s st hread ih =>
      rw [scanFrom_of_read hread] at h
      rcases List.mem_append.1 h with h | h
      · exact absurd h not_mem_ofReversed
      · rcases List.mem_cons.1 h with he | h
        · cases he
          have hhead := Statement.head?_of_read? hread
          rwa [List.head?_append_of_ne_nil _ (Statement.ne_nil_of_read? hread)] at hhead
        · exact ih h
  | passed glued code c s hnone ih =>
      rw [scanFrom_of_none hnone] at h
      exact ih h

end Segment

end Pagefold.Script

namespace Pagefold.Link

open Script

variable {code : Dictionary String} {lead entry id source : String} {names : Naming}

/-! ### What stands for a segment -/

/-- What stands for a segment of the chunk `importer` in its piece. -/
inductive Stands (code : Dictionary String) (names : Naming) (entry importer : String) :
    Segment → List Char → Prop
  | code (text) : Stands code names entry importer (.code text) text
  | clause (text bindings) :
      Stands code names entry importer (.statement text (.exportClause bindings)) []
  | kept {text parsed source} (hs : parsed.source? = some source)
      (h : Stays code entry importer source) :
      Stands code names entry importer (.statement text parsed) text
  | read {text bindings source t name} (hne : bindings ≠ []) (h : LinksTo code entry importer source t)
      (hn : names.get? t = some name) :
      Stands code names entry importer (.statement text (.namedImport bindings source))
        (destructure bindings name).toList
  | effect {text source t} (h : LinksTo code entry importer source t) :
      Stands code names entry importer (.statement text (.bareImport source)) [';']
  | unbound {text source t} (h : LinksTo code entry importer source t) :
      Stands code names entry importer (.statement text (.namedImport [] source)) [';']
  | passedOn {text bindings source t} (h : LinksTo code entry importer source t) :
      Stands code names entry importer (.statement text (.reexport bindings source)) []

/-- The pairs that a statement of the chunk `importer` adds to the object that its piece returns. -/
inductive Returns (code : Dictionary String) (names : Naming) (entry importer : String) :
    Statement → List String → Prop
  | passedOn {bindings source t name} (h : LinksTo code entry importer source t)
      (hn : names.get? t = some name) :
      Returns code names entry importer (.reexport bindings source)
        (bindings.map fun b => pair b.newName (name ++ "." ++ b.name))
  | kept {bindings source} (h : Stays code entry importer source) :
      Returns code names entry importer (.reexport bindings source) []
  | nothing {parsed} (h : ∀ bindings source, parsed ≠ .reexport bindings source) :
      Returns code names entry importer parsed []

/-- The text of an object with some pairs. -/
def objectText : List String → String
  | [] => "\x7b\x7d"
  | pairs => braces pairs

theorem LinksTo.not_stays {t : String} (h : LinksTo code entry id source t) :
    ¬ Stays code entry id source :=
  fun hs => stays_iff.1 hs ⟨t, h⟩

theorem LinksTo.copy_iff {t : String} {out text : List Char} (h : LinksTo code entry id source t)
    (hne : out ≠ text) : out = text ↔ Stays code entry id source :=
  ⟨fun he => absurd he hne, fun hs => absurd hs h.not_stays⟩

/-- A statement is copied just when its source stays. -/
theorem stands_copy_iff {text out : List Char} {parsed : Statement}
    (hm : .statement text parsed ∈ (parsedChunk code id).segments) (hs : parsed.source? = some source)
    (h : Stands code names entry id (.statement text parsed) out) :
    out = text ↔ Stays code entry id source := by
  have hhead := Segment.head?_of_mem_scanFrom hm
  -- What stands for a linked statement opens with `c`, with `;` or with nothing.
  cases h with
  | clause => cases hs
  | kept hs' hstay =>
      rw [hs] at hs'
      cases hs'
      exact ⟨fun _ => hstay, fun _ => rfl⟩
  | read hne hl hn =>
      cases hs
      refine hl.copy_iff fun he => ?_
      rw [← he, destructure, String.append_assoc, String.append_assoc, String.append_assoc,
        String.toList_append] at hhead
      simp at hhead
  | effect hl =>
      cases hs
      exact hl.copy_iff fun he => by simp [← he] at hhead
  | unbound hl =>
      cases hs
      exact hl.copy_iff fun he => by simp [← he] at hhead
  | passedOn hl =>
      cases hs
      exact hl.copy_iff fun he => by simp [← he] at hhead

/-! ### The rewriting follows the links -/

theorem mem_sources_of_mem_statements {parsed : Statement}
    (hm : parsed ∈ (parsedChunk code id).statements) (hs : parsed.source? = some source) :
    source ∈ (parsedChunk code id).sources := by
  unfold Chunk.sources
  rw [List.mem_eraseDups, List.mem_filterMap]
  exact ⟨parsed, hm, hs⟩

theorem mem_sources_of_mem_segments {text : List Char} {parsed : Statement}
    (hm : .statement text parsed ∈ (parsedChunk code id).segments)
    (hs : parsed.source? = some source) : source ∈ (parsedChunk code id).sources :=
  mem_sources_of_mem_statements (List.mem_filterMap.2 ⟨_, hm, rfl⟩) hs

/-- The scope finds a named target for a source, or the source stays. -/
theorem target?_or_stays (hid : id = entry ∨ id ∈ orderOf code entry)
    (hs : source ∈ (parsedChunk code id).sources) :
    (∃ t, LinksTo code entry id source t ∧ t ∈ orderOf code entry ∧
      (scopeOf code lead entry).target? (linkedChunk code entry id) source
        = some ⟨linkedChunk code entry t, t, nameOf code lead entry t⟩) ∨
    Stays code entry id source ∧
      (scopeOf code lead entry).target? (linkedChunk code entry id) source = none := by
  cases h : (scopeOf code lead entry).target? (linkedChunk code entry id) source with
  | some target =>
      obtain ⟨hl, he⟩ := (target?_iff hid hs).1 h
      refine .inl ⟨target.id, hl, target_mem_order hid (mem_targets_iff.2 ⟨source, hs, hl⟩), ?_⟩
      exact congrArg some he
  | none =>
      refine .inr ⟨stays_iff.2 ?_, rfl⟩
      rintro ⟨t, hl⟩
      rw [(@target?_iff code lead entry id source hid hs
        ⟨linkedChunk code entry t, t, nameOf code lead entry t⟩).2 ⟨hl, rfl⟩] at h
      cases h

theorem stands_segmentText (hid : id = entry ∨ id ∈ orderOf code entry) {segment : Segment}
    (hm : segment ∈ (parsedChunk code id).segments) :
    Stands code (scopeOf code lead entry).names entry id segment
      (segmentText (scopeOf code lead entry) (linkedChunk code entry id) segment) := by
  cases segment with
  | code text => exact .code text
  | statement text parsed =>
      have hmem : ∀ source, parsed.source? = some source → source ∈ (parsedChunk code id).sources :=
        fun source hs => mem_sources_of_mem_segments hm hs
      cases parsed with
      | exportClause bindings => exact .clause text bindings
      | bareImport source =>
          rcases @target?_or_stays code lead entry id source hid (hmem source rfl) with
            ⟨t, hl, _, ht⟩ | ⟨hstay, ht⟩
          · rw [segmentText, statementText, ht]
            exact .effect hl
          · rw [segmentText, statementText, ht]
            exact .kept rfl hstay
      | namedImport bindings source =>
          rcases @target?_or_stays code lead entry id source hid (hmem source rfl) with
            ⟨t, hl, hto, ht⟩ | ⟨hstay, ht⟩
          · cases bindings with
            | nil =>
                rw [segmentText, statementText, ht]
                exact .unbound hl
            | cons b bindings =>
                simp only [segmentText, statementText, ht]
                exact .read (by simp) hl (names_get? hto)
          · cases bindings with
            | nil =>
                rw [segmentText, statementText, ht]
                exact .kept rfl hstay
            | cons b bindings =>
                simp only [segmentText, statementText, ht]
                exact .kept rfl hstay
      | reexport bindings source =>
          rcases @target?_or_stays code lead entry id source hid (hmem source rfl) with
            ⟨t, hl, _, ht⟩ | ⟨hstay, ht⟩
          · rw [segmentText, statementText, ht]
            exact .passedOn hl
          · rw [segmentText, statementText, ht]
            exact .kept rfl hstay

/-- The pairs of what a statement re-exports. -/
def reexportPairs (scope : Scope) (c : Chunk) (parsed : Statement) : List String :=
  (Chunk.reexportsOf parsed).filterMap (exportPair? scope c)

theorem exportPair?_own {scope : Scope} {c : Chunk} {bindings : List Binding} :
    (bindings.map fun b => (⟨b, none⟩ : Export)).filterMap (exportPair? scope c)
      = bindings.map fun b => pair b.newName b.name := by
  rw [List.filterMap_map, ← List.filterMap_eq_map']
  rfl

theorem exportObject_eq {scope : Scope} {c : Chunk} : exportObject scope c
    = objectText ((c.exportClauses.head?.getD []).map (fun b => pair b.newName b.name)
        ++ c.statements.flatMap (reexportPairs scope c)) := by
  have h : c.exports.filterMap (exportPair? scope c)
      = (c.exportClauses.head?.getD []).map (fun b => pair b.newName b.name)
        ++ c.statements.flatMap (reexportPairs scope c) := by
    rw [Chunk.exports, List.filterMap_append, exportPair?_own, List.filterMap_flatMap]
    rfl
  rw [exportObject, h]
  rfl

theorem returns_reexportPairs (hid : id = entry ∨ id ∈ orderOf code entry) {parsed : Statement}
    (hm : parsed ∈ (parsedChunk code id).statements) :
    Returns code (scopeOf code lead entry).names entry id parsed
      (reexportPairs (scopeOf code lead entry) (linkedChunk code entry id) parsed) := by
  cases parsed with
  | exportClause bindings => exact .nothing (by simp)
  | bareImport source => exact .nothing (by simp)
  | namedImport bindings source => exact .nothing (by simp)
  | reexport bindings source =>
      have hs := mem_sources_of_mem_statements hm rfl
      rw [reexportPairs, Chunk.reexportsOf, List.filterMap_map]
      rcases @target?_or_stays code lead entry id source hid hs with ⟨t, hl, hto, ht⟩ | ⟨hstay, ht⟩
      · simp only [Function.comp_def, exportPair?, ht, Option.map_some, List.filterMap_eq_map']
        exact .passedOn hl (names_get? hto)
      · simp only [Function.comp_def, exportPair?, ht, Option.map_none, List.filterMap_none]
        exact .kept hstay

/-- Nothing but line ends is taken from the end of a text, and all of them are. -/
theorem withoutFinalNewlines_spec (s : String) :
    (∃ n, s.toList = (withoutFinalNewlines s).toList ++ List.replicate n '\n') ∧
      (withoutFinalNewlines s).toList.getLast? ≠ some '\n' := by
  unfold withoutFinalNewlines
  rw [String.toList_ofList]
  constructor
  · refine ⟨(s.toList.reverse.takeWhile (· == '\n')).length, ?_⟩
    have hends : s.toList.reverse.takeWhile (· == '\n')
        = List.replicate (s.toList.reverse.takeWhile (· == '\n')).length '\n' := by
      rw [List.eq_replicate_iff]
      refine ⟨rfl, fun c hc => ?_⟩
      simpa using List.all_eq_true.1 (List.all_takeWhile (p := (· == '\n'))) c hc
    have h := congrArg List.reverse
      (List.takeWhile_append_dropWhile (p := (· == '\n')) (l := s.toList.reverse))
    rw [List.reverse_append, List.reverse_reverse, hends, List.reverse_replicate] at h
    exact h.symm
  · rw [List.getLast?_reverse]
    intro h
    have := List.head?_dropWhile_not (· == '\n') s.toList.reverse
    rw [h] at this
    simp at this

/-! ### The pieces of a script -/

/-- What a chunk's own first export clause adds to the object that its piece returns. -/
def clausePairs (c : Chunk) : List String :=
  (c.exportClauses.head?.getD []).map fun b => pair b.newName b.name

theorem entryPiece_eq : pieceOf code lead entry entry = String.ofList
    ((parsedChunk code entry).segments.map
      (segmentText (scopeOf code lead entry) (linkedChunk code entry entry))).flatten := by
  rw [pieceOf_entry, body, linkedChunk_segments, List.flatMap_def]

theorem wrappedPiece_eq (hne : id ≠ entry) : pieceOf code lead entry id
    = wrap (nameOf code lead entry id)
        (withoutFinalNewlines (String.ofList ((parsedChunk code id).segments.map
          (segmentText (scopeOf code lead entry) (linkedChunk code entry id))).flatten))
        (objectText (clausePairs (parsedChunk code id) ++ (parsedChunk code id).statements.flatMap
          (reexportPairs (scopeOf code lead entry) (linkedChunk code entry id)))) ++ "\n" := by
  rw [pieceOf_of_ne hne, wrapped, exportObject_eq, body, linkedChunk_segments, List.flatMap_def]
  rfl

/-- **Which statements survive.**  The script is the pieces of its chunks.  A piece is made, in order,
of what stands for the segments of its chunk: code as it is, nothing for an export clause, a statement
as it is just when its source stays, and otherwise a reading of the target's object, a semicolon or
nothing.  The entry's piece is that text; a wrapped piece leaves the line ends at the end of the text
off and returns the object of its first export clause and its re-exports.  Each source that is linked
has a target with a name. -/
theorem script_of_linked_statements (code : Dictionary String) (lead entry id : String)
    (hid : id ∈ (flatOf code lead entry).consumed) :
    (flatOf code lead entry).script
      = String.join ((flatOf code lead entry).emitted.map (pieceOf code lead entry)) ∧
    (∃ texts pairs,
      List.Forall₂ (Stands code (flatOf code lead entry).names entry id)
        (parsedChunk code id).segments texts ∧
      List.Forall₂ (Returns code (flatOf code lead entry).names entry id)
        (parsedChunk code id).statements pairs ∧
      (id = entry → pieceOf code lead entry id = String.ofList texts.flatten) ∧
      (id ≠ entry → ∃ name kept ends,
        (flatOf code lead entry).names.get? id = some name ∧
        texts.flatten = kept.toList ++ List.replicate ends '\n' ∧ kept.toList.getLast? ≠ some '\n' ∧
        pieceOf code lead entry id
          = wrap name kept (objectText (clausePairs (parsedChunk code id) ++ pairs.flatten)) ++ "\n")) ∧
    (∀ text parsed source out, .statement text parsed ∈ (parsedChunk code id).segments →
      parsed.source? = some source →
      Stands code (flatOf code lead entry).names entry id (.statement text parsed) out →
        (out = text ↔ Stays code entry id source)) ∧
    ∀ source t, (linkedChunk code entry id).resolved.get? source = some t →
      ((flatOf code lead entry).names.get? t).isSome := by
  have hid := mem_consumed_iff.1 hid
  rw [names_eq]
  refine ⟨script_eq, ⟨_, _, List.forall₂_map_right_iff.2 (List.forall₂_same.2 fun _ hm =>
      stands_segmentText hid hm), List.forall₂_map_right_iff.2 (List.forall₂_same.2 fun _ hm =>
      returns_reexportPairs hid hm), ?_, ?_⟩, ?_, ?_⟩
  · rintro rfl
    exact entryPiece_eq
  · intro hne
    rw [wrappedPiece_eq hne]
    obtain ⟨⟨ends, hends⟩, hlast⟩ := withoutFinalNewlines_spec (String.ofList
      ((parsedChunk code id).segments.map
        (segmentText (scopeOf code lead entry) (linkedChunk code entry id))).flatten)
    rw [String.toList_ofList] at hends
    exact ⟨_, _, ends, names_get? (hid.resolve_left hne), hends, hlast, by rw [List.flatMap_def]⟩
  · intro text parsed source out hm hs h
    exact stands_copy_iff hm hs h
  · intro source t ht
    obtain ⟨hs, hl⟩ := resolved_get?_iff.1 ht
    rw [names_get? (target_mem_order hid (mem_targets_iff.2 ⟨source, hs, hl⟩))]
    rfl

/-- The chunks `i.js`, which imports `a.js`, and `a.js`, which ends in two line ends. -/
def trailingLines : Dictionary String :=
  .ofList [("i.js", "import{x}from\"./a.js\";\nx();\n"), ("a.js", "const x=1;export{x};\ny\n\n")]

theorem trailingLines_linked : ∃ name kept pairs,
    (flatOf trailingLines "__ns_" "i.js").names.get? "a.js" = some name ∧
    kept.toList.getLast? ≠ some '\n' ∧
    pieceOf trailingLines "__ns_" "i.js" "a.js" = wrap name kept (objectText pairs) ++ "\n" := by
  obtain ⟨_, ⟨texts, pairs, _, _, _, hwrapped⟩, _⟩ :=
    script_of_linked_statements trailingLines "__ns_" "i.js" "a.js" (by decide +kernel)
  obtain ⟨name, kept, ends, hname, _, hlast, hpiece⟩ := hwrapped (by decide)
  exact ⟨name, kept, _, hname, hlast, hpiece⟩

/-- The line ends at the end of a wrapped chunk are code, but they are not copied. -/
theorem trailingLines_not_copied :
    "a.js" ∈ (flatOf trailingLines "__ns_" "i.js").consumed ∧
    .code "\ny\n\n".toList ∈ (parsedChunk trailingLines "a.js").segments ∧
    ¬ "\ny\n\n".toList <:+: (flatOf trailingLines "__ns_" "i.js").script.toList := by
  refine ⟨?_, ?_, ?_⟩
  · decide +kernel
  · decide +kernel
  · decide +kernel

end Pagefold.Link
