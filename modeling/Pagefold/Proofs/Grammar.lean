import Pagefold.Proofs.Bindings

/-! # The grammar of statements

A statement is a keyword with a list of bindings between braces, a quoted source behind `from`, or
both, and perhaps a semicolon; blanks may stand between any two of these parts (`Shape`).  Reading
accepts just the texts of these shapes whose braces hold no closing brace, and its bindings are what the
list between them is read as (`ofText?_iff_shape`).  A list that is written out is read as the bindings
that were written (`Listed.parsed`); so every way to write a statement is read as that statement
(`statements_recognised`). -/

namespace Pagefold.Script

open Text

variable {c : Char} {name list quoted ending own s r : List Char} {source : String} {b : Binding}
  {bindings bindings' : List Binding} {st : Statement}

/-! ### Sources and endings -/

/-- A source between two equal quotes, which are not in it. -/
inductive Quoted (source : List Char) : List Char → Prop
  | double (h : '"' ∉ source) : Quoted source ('"' :: source ++ ['"'])
  | single (h : '\'' ∉ source) : Quoted source ('\'' :: source ++ ['\''])

/-- What may stand at the end of a statement: a semicolon, perhaps behind blanks, or nothing. -/
inductive Ending : List Char → Prop
  | none : Ending []
  | semicolon {gap : List Char} (hgap : Blanks gap) : Ending (gap ++ [';'])

/-- `from` and a quoted source, up to the end of the statement. -/
inductive FromClause (source : List Char) : List Char → Prop
  | mk {gap gap' quoted ending : List Char} (hgap : Blanks gap) (hgap' : Blanks gap')
      (hquoted : Quoted source quoted) (hending : Ending ending) :
      FromClause source (gap ++ ['f', 'r', 'o', 'm'] ++ gap' ++ quoted ++ ending)

theorem braced?_eq_some_iff : braced? s = some (list, r) ↔ '}' ∉ list ∧ s = '{' :: list ++ '}' :: r := by
  unfold braced?
  split
  · rw [until?_eq_some_iff, List.cons_append, List.cons.injEq, and_comm]
    simp
  · rename_i hs
    constructor
    · intro h
      cases h
    · rintro ⟨_, rfl⟩
      exact absurd rfl (hs _)

theorem quoted?_eq_some_iff {source : List Char} :
    quoted? s = some (source, r) ↔ ∃ quoted, Quoted source quoted ∧ s = quoted ++ r := by
  constructor
  · intro h
    unfold quoted? at h
    split at h
    · obtain ⟨rfl, hsource⟩ := until?_eq_some_iff.1 h
      exact ⟨_, .double hsource, by simp⟩
    · obtain ⟨rfl, hsource⟩ := until?_eq_some_iff.1 h
      exact ⟨_, .single hsource, by simp⟩
    · cases h
  · rintro ⟨_, hquoted, rfl⟩
    cases hquoted with
    | double h => exact until?_eq_some_iff.2 ⟨by simp, h⟩
    | single h => exact until?_eq_some_iff.2 ⟨by simp, h⟩

/-- A quoted text opens with its quote. -/
theorem Quoted.head {source : List Char} (h : Quoted source quoted) :
    ∃ quote rest, quoted = quote :: rest ∧ isBlank quote = false ∧ quote ≠ '{' := by
  cases h with
  | double => exact ⟨_, _, rfl, by decide, by decide⟩
  | single => exact ⟨_, _, rfl, by decide, by decide⟩

/-- The marks that statements end in. -/
def closingMarks : List Char := ['"', '\'', '}', ';']

/-- These marks are no blanks and stand in no words and no names. -/
theorem plain_of_mem_closingMarks (h : c ∈ closingMarks) :
    isBlank c = false ∧ isWordChar c = false ∧ continuesName c = false := by
  have hall : (closingMarks.all fun d => !isBlank d && !isWordChar d && !continuesName d) = true := by decide
  simpa [and_assoc] using List.all_eq_true.1 hall c h

/-- The last character of a text is a mark that statements end in. -/
def Closed (s : List Char) : Prop := ∃ d ∈ closingMarks, s.getLast? = some d

theorem Closed.append (h : Closed s) (front : List Char) : Closed (front ++ s) := by
  obtain ⟨d, hd, hlast⟩ := h
  exact ⟨d, hd, by rw [List.getLast?_append, hlast, Option.some_or]⟩

theorem Closed.append_ending (h : Closed s) (hending : Ending ending) : Closed (s ++ ending) := by
  cases hending with
  | none => rwa [List.append_nil]
  | semicolon =>
      rw [← List.append_assoc]
      exact ⟨';', by decide, List.getLast?_concat⟩

theorem Quoted.closed {source : List Char} (h : Quoted source quoted) : Closed quoted := by
  cases h with
  | double => exact ⟨'"', by decide, List.getLast?_concat⟩
  | single => exact ⟨'\'', by decide, List.getLast?_concat⟩

theorem FromClause.closed {source : List Char} (h : FromClause source own) : Closed own := by
  obtain ⟨_, _, hquoted, hending⟩ := h
  exact (hquoted.closed.append _).append_ending hending

theorem exists_ending (s : List Char) : ∃ ending, Ending ending ∧ s = ending ++ skipSemicolon s := by
  unfold skipSemicolon
  split
  · rename_i rest hskip
    obtain ⟨gap, hgap, hs⟩ := exists_blanks s
    refine ⟨gap ++ [';'], .semicolon hgap, ?_⟩
    rw [hskip] at hs
    simpa using hs
  · exact ⟨[], .none, rfl⟩

theorem Ending.skipSemicolon (h : Ending ending) : skipSemicolon ending = [] := by
  cases h with
  | none => rfl
  | semicolon hgap =>
      rw [Script.skipSemicolon, skipBlanks_append hgap, skipBlanks_cons (by decide)]
      rfl

/-- What is read as a source behind `from` is one. -/
theorem fromClause_of_read (h : fromClause? s = some (source, r)) :
    ∃ own, FromClause source.toList own ∧ s = own ++ r := by
  simp only [fromClause?, Option.bind_eq_bind, Option.bind_eq_some_iff, Prod.exists, Option.pure_def,
    Option.some.injEq, Prod.mk.injEq] at h
  obtain ⟨behind, hfrom, text, rest, hread, rfl, rfl⟩ := h
  obtain ⟨gap, hgap, hs⟩ := exists_blanks s
  obtain ⟨gap', hgap', hbehind⟩ := exists_blanks behind
  obtain ⟨quoted, hquoted, hrest⟩ := quoted?_eq_some_iff.1 hread
  obtain ⟨ending, hending, hend⟩ := exists_ending rest
  refine ⟨_, .mk hgap hgap' (by rwa [String.toList_ofList]) hending, ?_⟩
  calc s = gap ++ (['f', 'r', 'o', 'm'] ++ (gap' ++ (quoted ++ rest))) := by
        rw [← hrest, ← hbehind, List.isPrefixOf?_eq_some_iff_append_eq.1 hfrom, ← hs]
    _ = gap ++ (['f', 'r', 'o', 'm'] ++ (gap' ++ (quoted ++ (ending ++ skipSemicolon rest)))) := by
        rw [← hend]
    _ = gap ++ ['f', 'r', 'o', 'm'] ++ gap' ++ quoted ++ ending ++ skipSemicolon rest := by
        simp only [List.append_assoc]

/-- A source behind `from` is read, whatever follows it. -/
theorem FromClause.read {source : List Char} (h : FromClause source own) : ∃ ending, Ending ending ∧
    ∀ r, fromClause? (own ++ r) = some (String.ofList source, skipSemicolon (ending ++ r)) := by
  cases h with
  | @mk gap gap' quoted ending hgap hgap' hquoted hending =>
      refine ⟨ending, hending, fun r => ?_⟩
      obtain ⟨quote, rest, hhead, hblank, _⟩ := hquoted.head
      have hread : quoted? (quoted ++ (ending ++ r)) = some (source, ending ++ r) :=
        quoted?_eq_some_iff.2 ⟨quoted, hquoted, rfl⟩
      have hskip : skipBlanks (gap' ++ (quoted ++ (ending ++ r))) = quoted ++ (ending ++ r) := by
        rw [skipBlanks_append hgap', hhead, List.cons_append, skipBlanks_cons hblank]
      have hfrom : skipBlanks (gap ++ ['f', 'r', 'o', 'm'] ++ gap' ++ quoted ++ ending ++ r)
          = ['f', 'r', 'o', 'm'] ++ (gap' ++ (quoted ++ (ending ++ r))) := by
        simp only [List.append_assoc]
        rw [skipBlanks_append hgap, List.cons_append, skipBlanks_cons (by decide)]
      simp only [fromClause?, hfrom, List.isPrefixOf?_eq_some_iff_append_eq.2 rfl, hskip, hread, Option.bind_eq_bind,
        Option.bind_some, Option.pure_def]

/-! ### Braces -/

/-- A list of bindings between braces; `content` says how the list may be written. -/
inductive Braced (content : List Binding → List Char → Prop) (bindings : List Binding) : List Char → Prop
  | mk {gap list : List Char} (hgap : Blanks gap) (hlist : content bindings list) :
      Braced content bindings (gap ++ '{' :: list ++ ['}'])

theorem Braced.closed {content : List Binding → List Char → Prop} (h : Braced content bindings own) :
    Closed own := by
  obtain ⟨_, _⟩ := h
  exact ⟨'}', by decide, List.getLast?_concat⟩

theorem braced_of_read (h : braced? (skipBlanks s) = some (list, r)) :
    ∃ braced, Braced Parsed (Binding.listOf list) braced ∧ s = braced ++ r := by
  obtain ⟨gap, hgap, hs⟩ := exists_blanks s
  obtain ⟨hlist, hbraced⟩ := braced?_eq_some_iff.1 h
  refine ⟨_, .mk hgap ⟨hlist, rfl⟩, ?_⟩
  rw [hs, hbraced]
  simp

theorem Braced.read {braced : List Char} (h : Braced Parsed bindings braced) (r : List Char) :
    ∃ list, braced? (skipBlanks (braced ++ r)) = some (list, r) ∧ Binding.listOf list = bindings := by
  obtain @⟨gap, list, hgap, hlist, hbindings⟩ := h
  refine ⟨list, ?_, hbindings⟩
  have hskip : skipBlanks (gap ++ '{' :: list ++ ['}'] ++ r) = '{' :: list ++ '}' :: r := by
    rw [List.append_assoc, List.append_assoc, skipBlanks_append hgap, List.cons_append,
      skipBlanks_cons (by decide)]
    rfl
  exact braced?_eq_some_iff.2 ⟨hlist, hskip⟩

/-! ### Statements -/

abbrev importWord : List Char := ['i', 'm', 'p', 'o', 'r', 't']

abbrev exportWord : List Char := ['e', 'x', 'p', 'o', 'r', 't']

namespace Statement

/-- The four shapes of a statement; `content` says how a list of bindings may be written. -/
inductive Shape (content : List Binding → List Char → Prop) : Statement → List Char → Prop
  | namedImport {bindings : List Binding} {source : String} {braced clause : List Char}
      (hbraced : Braced content bindings braced) (hclause : FromClause source.toList clause) :
      Shape content (.namedImport bindings source) (importWord ++ braced ++ clause)
  | bareImport {source : String} {gap quoted ending : List Char} (hgap : Blanks gap)
      (hquoted : Quoted source.toList quoted) (hending : Ending ending) :
      Shape content (.bareImport source) (importWord ++ gap ++ quoted ++ ending)
  | reexport {bindings : List Binding} {source : String} {braced clause : List Char}
      (hbraced : Braced content bindings braced) (hclause : FromClause source.toList clause) :
      Shape content (.reexport bindings source) (exportWord ++ braced ++ clause)
  | exportClause {bindings : List Binding} {braced ending : List Char}
      (hbraced : Braced content bindings braced) (hending : Ending ending) :
      Shape content (.exportClause bindings) (exportWord ++ braced ++ ending)

theorem Shape.mono {content content' : List Binding → List Char → Prop}
    (hsub : ∀ bindings list, content bindings list → content' bindings list) (h : Shape content st own) :
    Shape content' st own := by
  have hbraced : ∀ {bindings braced}, Braced content bindings braced → Braced content' bindings braced := by
    rintro bindings _ ⟨hgap, hlist⟩
    exact ⟨hgap, hsub _ _ hlist⟩
  cases h with
  | namedImport h hclause => exact .namedImport (hbraced h) hclause
  | bareImport hgap hquoted hending => exact .bareImport hgap hquoted hending
  | reexport h hclause => exact .reexport (hbraced h) hclause
  | exportClause h hending => exact .exportClause (hbraced h) hending

/-! ### What is read has a shape -/

theorem read?_import (s : List Char) : read? (importWord ++ s)
    = (readNamedImport? (skipBlanks s)).or (readBareImport? (skipBlanks s)) := by
  rw [read?, List.isPrefixOf?_eq_some_iff_append_eq.2 rfl]
  exact Option.orElse_eq_or ..

theorem read?_export (s : List Char) : read? (exportWord ++ s) = readExport? (skipBlanks s) := by
  have hnot : importWord.isPrefixOf? (exportWord ++ s) = none := rfl
  rw [read?, hnot]
  dsimp only
  rw [List.isPrefixOf?_eq_some_iff_append_eq.2 rfl]

/-- A statement opens with one of the two keywords. -/
theorem keyword_of_read? {found : Statement × List Char} (h : read? s = some found) :
    (∃ rest, s = importWord ++ rest) ∨ ∃ rest, s = exportWord ++ rest := by
  unfold read? at h
  split at h
  · rename_i rest hword
    exact .inl ⟨rest, (List.isPrefixOf?_eq_some_iff_append_eq.1 hword).symm⟩
  · split at h
    · rename_i rest hword
      exact .inr ⟨rest, (List.isPrefixOf?_eq_some_iff_append_eq.1 hword).symm⟩
    · cases h

/-- What is read off the front of a text has the shape of the statement. -/
theorem shape_of_read? (h : read? s = some (st, r)) : ∃ own, Shape Parsed st own ∧ s = own ++ r := by
  rcases keyword_of_read? h with ⟨t, rfl⟩ | ⟨t, rfl⟩
  · rw [read?_import, Option.or_eq_some_iff] at h
    rcases h with h | ⟨_, h⟩
    · simp only [readNamedImport?, Option.bind_eq_bind, Option.bind_eq_some_iff, Prod.exists,
        Option.pure_def, Option.some.injEq, Prod.mk.injEq] at h
      obtain ⟨list, behind, hlist, source, rest, hclause, rfl, rfl⟩ := h
      obtain ⟨braced, hbraced, rfl⟩ := braced_of_read hlist
      obtain ⟨clause, hfrom, rfl⟩ := fromClause_of_read hclause
      exact ⟨_, .namedImport hbraced hfrom, by simp⟩
    · simp only [readBareImport?, Option.bind_eq_bind, Option.bind_eq_some_iff, Prod.exists,
        Option.pure_def, Option.some.injEq, Prod.mk.injEq] at h
      obtain ⟨source, rest, hread, rfl, rfl⟩ := h
      obtain ⟨gap, hgap, ht⟩ := exists_blanks t
      obtain ⟨quoted, hquoted, hskip⟩ := quoted?_eq_some_iff.1 hread
      obtain ⟨ending, hending, hend⟩ := exists_ending rest
      refine ⟨_, .bareImport hgap (by rwa [String.toList_ofList]) hending, ?_⟩
      calc importWord ++ t = importWord ++ (gap ++ (quoted ++ rest)) := by rw [← hskip, ← ht]
        _ = importWord ++ (gap ++ (quoted ++ (ending ++ skipSemicolon rest))) := by rw [← hend]
        _ = importWord ++ gap ++ quoted ++ ending ++ skipSemicolon rest := by
            simp only [List.append_assoc]
  · rw [read?_export] at h
    simp only [readExport?, Option.bind_eq_bind, Option.bind_eq_some_iff, Prod.exists,
      Option.pure_def] at h
    obtain ⟨list, behind, hlist, h⟩ := h
    obtain ⟨braced, hbraced, rfl⟩ := braced_of_read hlist
    split at h
    · rename_i source rest hclause
      obtain ⟨rfl, rfl⟩ := Prod.mk.inj (Option.some.inj h)
      obtain ⟨clause, hfrom, rfl⟩ := fromClause_of_read hclause
      exact ⟨_, .reexport hbraced hfrom, by simp⟩
    · obtain ⟨rfl, rfl⟩ := Prod.mk.inj (Option.some.inj h)
      obtain ⟨ending, hending, hend⟩ := exists_ending behind
      refine ⟨_, .exportClause hbraced hending, ?_⟩
      calc exportWord ++ (braced ++ behind)
          = exportWord ++ (braced ++ (ending ++ skipSemicolon behind)) := by rw [← hend]
        _ = exportWord ++ braced ++ ending ++ skipSemicolon behind := by simp only [List.append_assoc]

/-! ### What has a shape is read -/

theorem read?_namedImport {braced clause : List Char} (hbraced : Braced Parsed bindings braced)
    (hclause : FromClause source.toList clause) : ∃ ending, Ending ending ∧ ∀ r,
      read? (importWord ++ braced ++ clause ++ r)
        = some (.namedImport bindings source, skipSemicolon (ending ++ r)) := by
  obtain ⟨ending, hending, hread⟩ := hclause.read
  refine ⟨ending, hending, fun r => ?_⟩
  obtain ⟨list, hlist, rfl⟩ := hbraced.read (clause ++ r)
  have hnamed : readNamedImport? (skipBlanks (braced ++ (clause ++ r)))
      = some (.namedImport (Binding.listOf list) source, skipSemicolon (ending ++ r)) := by
    simp only [readNamedImport?, hlist, hread, Option.bind_eq_bind, Option.bind_some, Option.pure_def,
      String.ofList_toList]
  rw [List.append_assoc, List.append_assoc, read?_import, hnamed, Option.some_or]

theorem read?_bareImport {gap : List Char} (hgap : Blanks gap) (hquoted : Quoted source.toList quoted)
    (s : List Char) :
    read? (importWord ++ gap ++ quoted ++ s) = some (.bareImport source, skipSemicolon s) := by
  obtain ⟨quote, rest, rfl, hblank, hbrace⟩ := hquoted.head
  have hskip : skipBlanks (gap ++ (quote :: rest ++ s)) = quote :: rest ++ s := by
    rw [skipBlanks_append hgap, List.cons_append, skipBlanks_cons hblank]
  have hnot : braced? (quote :: rest ++ s) = none := by
    rw [Option.eq_none_iff_forall_ne_some]
    intro found h
    exact hbrace (List.cons.inj (braced?_eq_some_iff.1 h).2).1
  have hnamed : readNamedImport? (quote :: rest ++ s) = none := by
    rw [readNamedImport?, hnot]
    rfl
  have hread : quoted? (quote :: rest ++ s) = some (source.toList, s) :=
    quoted?_eq_some_iff.2 ⟨_, hquoted, rfl⟩
  have hbare : readBareImport? (quote :: rest ++ s) = some (.bareImport source, skipSemicolon s) := by
    simp only [readBareImport?, hread, Option.bind_eq_bind, Option.bind_some, Option.pure_def,
      String.ofList_toList]
  rw [List.append_assoc, List.append_assoc, read?_import, hskip, hnamed, hbare, Option.none_or]

theorem read?_reexport {braced clause : List Char} (hbraced : Braced Parsed bindings braced)
    (hclause : FromClause source.toList clause) : ∃ ending, Ending ending ∧ ∀ r,
      read? (exportWord ++ braced ++ clause ++ r)
        = some (.reexport bindings source, skipSemicolon (ending ++ r)) := by
  obtain ⟨ending, hending, hread⟩ := hclause.read
  refine ⟨ending, hending, fun r => ?_⟩
  obtain ⟨list, hlist, rfl⟩ := hbraced.read (clause ++ r)
  rw [List.append_assoc, List.append_assoc, read?_export]
  simp only [readExport?, hlist, hread, Option.bind_eq_bind, Option.bind_some, Option.pure_def,
    String.ofList_toList]

theorem read?_exportClause {braced : List Char} (hbraced : Braced Parsed bindings braced)
    (h : fromClause? s = none) :
    read? (exportWord ++ braced ++ s) = some (.exportClause bindings, skipSemicolon s) := by
  obtain ⟨list, hlist, rfl⟩ := hbraced.read s
  rw [List.append_assoc, read?_export]
  simp only [readExport?, hlist, h, Option.bind_eq_bind, Option.bind_some, Option.pure_def]

/-- The end of a statement is no `from`. -/
theorem fromClause?_ending (h : Ending ending) : fromClause? ending = none := by
  cases h with
  | none => rfl
  | semicolon hgap =>
      rw [fromClause?, skipBlanks_append hgap, skipBlanks_cons (by decide)]
      rfl

/-- A text that has a shape is read to its end. -/
theorem Shape.read (h : Shape Parsed st own) : read? own = some (st, []) := by
  cases h with
  | namedImport hbraced hclause =>
      obtain ⟨ending, hending, hread⟩ := read?_namedImport hbraced hclause
      have h := hread []
      rwa [List.append_nil, List.append_nil, hending.skipSemicolon] at h
  | bareImport hgap hquoted hending => rw [read?_bareImport hgap hquoted, hending.skipSemicolon]
  | reexport hbraced hclause =>
      obtain ⟨ending, hending, hread⟩ := read?_reexport hbraced hclause
      have h := hread []
      rwa [List.append_nil, List.append_nil, hending.skipSemicolon] at h
  | exportClause hbraced hending =>
      rw [read?_exportClause hbraced (fromClause?_ending hending), hending.skipSemicolon]

/-- Where a text has a shape, something is read whatever follows.  It may be more than the text: an
export clause takes a `from` behind it along. -/
theorem Shape.isSome_read?_append (h : Shape Parsed st own) (r : List Char) :
    (read? (own ++ r)).isSome = true := by
  cases h with
  | namedImport hbraced hclause =>
      obtain ⟨ending, _, hread⟩ := read?_namedImport hbraced hclause
      rw [hread, Option.isSome_some]
  | bareImport hgap hquoted =>
      rw [List.append_assoc _ _ r, read?_bareImport hgap hquoted, Option.isSome_some]
  | reexport hbraced hclause =>
      obtain ⟨ending, _, hread⟩ := read?_reexport hbraced hclause
      rw [hread, Option.isSome_some]
  | @exportClause _ braced ending hbraced _ =>
      rw [List.append_assoc]
      cases hfrom : fromClause? (ending ++ r) with
      | none => rw [read?_exportClause hbraced hfrom, Option.isSome_some]
      | some found =>
          obtain ⟨clause, hclause, happend⟩ := fromClause_of_read hfrom
          obtain ⟨_, _, hread⟩ := read?_reexport hbraced hclause
          rw [happend, ← List.append_assoc, hread, Option.isSome_some]

/-! ### Whole texts -/

theorem Shape.opens {content : List Binding → List Char → Prop} (h : Shape content st own) :
    ∃ c, own.head? = some c ∧ isBlank c = false := by
  cases h with
  | namedImport => exact ⟨'i', rfl, by decide⟩
  | bareImport => exact ⟨'i', rfl, by decide⟩
  | reexport => exact ⟨'e', rfl, by decide⟩
  | exportClause => exact ⟨'e', rfl, by decide⟩

theorem Shape.ne_nil {content : List Binding → List Char → Prop} (h : Shape content st own) : own ≠ [] := by
  obtain ⟨c, hc, _⟩ := h.opens
  rintro rfl
  cases hc

theorem Shape.closed {content : List Binding → List Char → Prop} (h : Shape content st own) :
    Closed own := by
  cases h with
  | namedImport _ hclause => exact hclause.closed.append _
  | bareImport _ hquoted hending => exact (hquoted.closed.append _).append_ending hending
  | reexport _ hclause => exact hclause.closed.append _
  | exportClause hbraced hending => exact (hbraced.closed.append _).append_ending hending

/-- Nothing of a statement is trimmed away. -/
theorem Shape.trim {content : List Binding → List Char → Prop} {gap gap' : List Char}
    (h : Shape content st own) (hgap : Blanks gap) (hgap' : Blanks gap') :
    Text.trim (gap ++ own ++ gap') = own := by
  obtain ⟨c, hfirst, hc⟩ := h.opens
  obtain ⟨d, hmark, hlast⟩ := h.closed
  exact trim_between hgap hgap' hfirst hlast hc (plain_of_mem_closingMarks hmark).1

/-- **What is accepted**: a text is read as a statement just when it has its shape, blanks around it
aside. -/
theorem ofText?_iff_shape {text : String} : ofText? text = some st ↔ Shape Parsed st (Text.trim text.toList) := by
  constructor
  · intro h
    unfold ofText? at h
    split at h
    · rename_i parsed hread
      obtain rfl := Option.some.inj h
      obtain ⟨own, hown, htext⟩ := shape_of_read? hread
      rwa [htext, List.append_nil]
    · cases h
  · intro h
    rw [ofText?, h.read]

/-! ### Writing statements -/

/-- The names of a statement are identifiers, and its source can be quoted. -/
def Writable (st : Statement) : Prop :=
  (∀ bindings, st.bindings? = some bindings → ∀ b ∈ bindings,
    isIdentifier b.name.toList = true ∧ isIdentifier b.newName.toList = true) ∧
  ∀ source, st.source? = some source → '"' ∉ source.toList ∨ '\'' ∉ source.toList

/-- A text is the statement as it may be written, with blanks around it. -/
def WrittenAs (st : Statement) (text : String) : Prop :=
  ∃ gap own gap', Blanks gap ∧ Blanks gap' ∧ Shape Listed st own ∧ text.toList = gap ++ own ++ gap'

theorem exists_entries
    (h : ∀ b ∈ bindings, isIdentifier b.name.toList = true ∧ isIdentifier b.newName.toList = true) :
    ∃ list, Entries bindings list := by
  have hspace : Blanks [' '] := by decide
  induction bindings with
  | nil => exact ⟨[], .none blanks_nil⟩
  | cons b rest ih =>
      obtain ⟨hname, hnewName⟩ := h b List.mem_cons_self
      have hentry := Entry.renamed hname hnewName blanks_nil hspace (by simp) hspace (by simp) blanks_nil
      obtain ⟨list, hlist⟩ := ih fun b hb => h b (List.mem_cons_of_mem _ hb)
      by_cases hrest : rest = []
      · rw [hrest]
        exact ⟨_, .one hentry⟩
      · exact ⟨_, .more hentry hrest hlist⟩

theorem exists_quoted {source : List Char} (h : '"' ∉ source ∨ '\'' ∉ source) :
    ∃ quoted, Quoted source quoted := by
  rcases h with h | h
  · exact ⟨_, .double h⟩
  · exact ⟨_, .single h⟩

theorem exists_braced
    (h : ∀ b ∈ bindings, isIdentifier b.name.toList = true ∧ isIdentifier b.newName.toList = true) :
    ∃ braced, Braced Listed bindings braced := by
  obtain ⟨list, hlist⟩ := exists_entries h
  exact ⟨_, .mk blanks_nil (.plain hlist)⟩

/-- Every statement with proper names and a source that can be quoted can be written. -/
theorem Writable.exists_text (h : Writable st) : ∃ text, WrittenAs st text := by
  obtain ⟨hnames, hsource⟩ := h
  have hclause : ∀ source, st.source? = some source → ∃ clause, FromClause source.toList clause := by
    intro source hs
    obtain ⟨quoted, hquoted⟩ := exists_quoted (hsource source hs)
    exact ⟨_, .mk blanks_nil blanks_nil hquoted .none⟩
  obtain ⟨own, hown⟩ : ∃ own, Shape Listed st own := by
    cases st with
    | namedImport bindings source =>
        obtain ⟨braced, hbraced⟩ := exists_braced (hnames bindings rfl)
        obtain ⟨clause, hclause⟩ := hclause source rfl
        exact ⟨_, .namedImport hbraced hclause⟩
    | bareImport source =>
        obtain ⟨quoted, hquoted⟩ := exists_quoted (hsource source rfl)
        exact ⟨_, .bareImport blanks_nil hquoted .none⟩
    | reexport bindings source =>
        obtain ⟨braced, hbraced⟩ := exists_braced (hnames bindings rfl)
        obtain ⟨clause, hclause⟩ := hclause source rfl
        exact ⟨_, .reexport hbraced hclause⟩
    | exportClause bindings =>
        obtain ⟨braced, hbraced⟩ := exists_braced (hnames bindings rfl)
        exact ⟨_, .exportClause hbraced .none⟩
  exact ⟨String.ofList own, [], own, [], blanks_nil, blanks_nil, hown, by simp⟩

/-- **What is written is recognised**, in whatever layout; there is a way to write every statement with
proper names and a source that can be quoted; and nothing is recognised but what has one of the four
shapes, with a list of bindings that holds no closing brace and is read as the statement's bindings. -/
theorem statements_recognised :
    (∀ st text, WrittenAs st text → ofText? text = some st) ∧
    (∀ st, Writable st → ∃ text, WrittenAs st text) ∧
    ∀ st text, ofText? text = some st ↔ Shape Parsed st (Text.trim text.toList) := by
  refine ⟨?_, fun st h => h.exists_text, fun st text => ofText?_iff_shape⟩
  rintro st text ⟨gap, own, gap', hgap, hgap', hown, htext⟩
  rw [ofText?_iff_shape, htext, hown.trim hgap hgap']
  exact hown.mono fun bindings list => Listed.parsed

/-- An import in a loose layout, with words of the language among its names and the other quotes in its
source. -/
def looseImport : String :=
  "\timport \x7b\n  as as as ,default\u2003as _d,\n  $x\n, \x7d from\u00a0'./\"a\".js'\n;\n"

/-- What `looseImport` says. -/
def looseStatement : Statement :=
  .namedImport [⟨"as", "as"⟩, ⟨"default", "_d"⟩, ⟨"$x", "$x"⟩] "./\"a\".js"

theorem writtenAs_looseImport : WrittenAs looseStatement looseImport := by
  have hfirst : Entry ⟨"as", "as"⟩ ("\n  as as as ".toList) :=
    @Entry.renamed _ "\n  ".toList " ".toList " ".toList " ".toList (by decide) (by decide) (by decide)
      (by decide) (by decide) (by decide) (by decide) (by decide)
  have hsecond : Entry ⟨"default", "_d"⟩ ("default\u2003as _d".toList) :=
    @Entry.renamed _ [] "\u2003".toList " ".toList [] (by decide) (by decide) (by decide)
      (by decide) (by decide) (by decide) (by decide) (by decide)
  have hthird : Entry ⟨"$x", "$x"⟩ ("\n  $x\n".toList) :=
    @Entry.kept _ "\n  ".toList "\n".toList (by decide) rfl (by decide) (by decide)
  have hlisted : Listed [⟨"as", "as"⟩, ⟨"default", "_d"⟩, ⟨"$x", "$x"⟩]
      ("\n  as as as ,default\u2003as _d,\n  $x\n, ".toList) :=
    @Listed.comma _ "\n  as as as ,default\u2003as _d,\n  $x\n".toList " ".toList
      (.more hfirst (by simp) (.more hsecond (by simp) (.one hthird))) (by decide)
  have hclause : FromClause "./\"a\".js".toList (" from\u00a0'./\"a\".js'\n;".toList) :=
    @FromClause.mk _ " ".toList "\u00a0".toList "'./\"a\".js'".toList "\n;".toList (by decide) (by decide)
      (.single (by decide)) (@Ending.semicolon "\n".toList (by decide))
  exact ⟨"\t".toList, _, "\n".toList, by decide, by decide,
    .namedImport (@Braced.mk _ _ " ".toList _ (by decide) hlisted) hclause, by decide⟩

theorem looseImport_recognised : WrittenAs looseStatement looseImport ∧ Writable looseStatement ∧
    ofText? looseImport = some looseStatement ∧ ∃ text, WrittenAs looseStatement text := by
  have hwritable : Writable looseStatement := by
    refine ⟨?_, ?_⟩
    · intro bindings h
      obtain rfl := Option.some.inj h
      decide
    · intro source h
      obtain rfl := Option.some.inj h
      exact .inr (by decide)
  exact ⟨writtenAs_looseImport, hwritable, statements_recognised.1 _ _ writtenAs_looseImport,
    statements_recognised.2.1 _ hwritable⟩

end Statement

end Pagefold.Script
