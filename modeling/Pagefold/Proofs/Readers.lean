import Pagefold.Page.Tag
import Pagefold.Proofs.Lists
import Pagefold.Script.Segment

/-! # What readers leave

A reader takes something off the front of a text.  What it leaves is an end of the text, so what it
took and what it leaves make up the text again.  The segments of a chunk are taken off one after the
other (`scan_induction`), hence nothing of the code is lost (`flatMap_text_scan`). -/

namespace Pagefold

namespace Text

variable {p : Char → Bool} {mark : Char} {s a b : List Char}

theorem suffix_of_until? (h : until? p s = some (a, b)) : b <:+ s := by
  obtain ⟨c, _, rfl⟩ := append_of_until? h
  exact ⟨a ++ [c], by simp⟩

/-- A text is cut at the first mark. -/
theorem until?_eq_some_iff :
    until? (· == mark) s = some (a, b) ↔ s = a ++ mark :: b ∧ mark ∉ a := by
  constructor
  · intro h
    obtain ⟨c, hc, rfl⟩ := append_of_until? h
    refine ⟨by rw [beq_iff_eq.1 hc], fun hm => ?_⟩
    simpa using not_of_mem_until? h mark hm
  · rintro ⟨rfl, ha⟩
    have hall : ∀ c ∈ a, (!(c == mark)) = true := by
      intro c hc
      rw [Bool.not_eq_true', beq_eq_false_iff_ne]
      rintro rfl
      exact ha hc
    rw [until?, List.dropWhile_append_of_pos hall, List.takeWhile_append_of_pos hall]
    simp

theorem skipBlanks_suffix (s : List Char) : skipBlanks s <:+ s := List.dropWhile_suffix isBlank

theorem suffix_of_dropCaseless? {word s r : List Char} (h : dropCaseless? word s = some r) :
    r <:+ s := by
  fun_induction dropCaseless? word s with
  | case1 s =>
      obtain rfl : s = r := Option.some.inj h
      exact List.suffix_rfl
  | case2 letter word c s hc ih => exact (ih h).trans (List.suffix_cons c s)
  | case3 letter word c s hc => cases h
  | case4 => cases h

end Text

/-! ### Statements -/

namespace Script

open Text

theorem suffix_of_isPrefixOf? {w s r : List Char} (h : w.isPrefixOf? s = some r) : r <:+ s := by
  induction w generalizing s with
  | nil =>
      obtain rfl : s = r := Option.some.inj h
      exact List.suffix_rfl
  | cons c w ih =>
      cases s with
      | nil => exact absurd h.symm (Option.some_ne_none r)
      | cons d s =>
          change (if c == d then w.isPrefixOf? s else none) = some r at h
          split at h
          · exact (ih h).trans (List.suffix_cons d s)
          · exact absurd h.symm (Option.some_ne_none r)

variable {s a r : List Char}

theorem suffix_of_braced? (h : braced? s = some (a, r)) : r <:+ s := by
  unfold braced? at h
  split at h
  · exact (suffix_of_until? h).trans (List.suffix_cons _ _)
  · cases h

theorem suffix_of_quoted? (h : quoted? s = some (a, r)) : r <:+ s := by
  unfold quoted? at h
  split at h
  · exact (suffix_of_until? h).trans (List.suffix_cons _ _)
  · exact (suffix_of_until? h).trans (List.suffix_cons _ _)
  · cases h

theorem skipSemicolon_suffix (s : List Char) : skipSemicolon s <:+ s := by
  unfold skipSemicolon
  split
  · rename_i rest h
    have hskip := skipBlanks_suffix s
    rw [h] at hskip
    exact (List.suffix_cons _ _).trans hskip
  · exact List.suffix_rfl

theorem suffix_of_fromClause? {source : String} (h : fromClause? s = some (source, r)) : r <:+ s := by
  simp only [fromClause?, Option.bind_eq_bind, Option.bind_eq_some_iff, Prod.exists, Option.pure_def,
    Option.some.injEq, Prod.mk.injEq] at h
  obtain ⟨a, ha, q, b, hq, _, rfl⟩ := h
  have hword := (suffix_of_isPrefixOf? ha).trans (skipBlanks_suffix s)
  have hquote := (suffix_of_quoted? hq).trans (skipBlanks_suffix a)
  exact (skipSemicolon_suffix b).trans (hquote.trans hword)

namespace Statement

variable {st : Statement}

theorem suffix_of_readNamedImport? (h : readNamedImport? s = some (st, r)) : r <:+ s := by
  simp only [readNamedImport?, Option.bind_eq_bind, Option.bind_eq_some_iff, Prod.exists,
    Option.pure_def, Option.some.injEq, Prod.mk.injEq] at h
  obtain ⟨_, a, ha, _, b, hb, _, rfl⟩ := h
  exact (suffix_of_fromClause? hb).trans (suffix_of_braced? ha)

theorem suffix_of_readBareImport? (h : readBareImport? s = some (st, r)) : r <:+ s := by
  simp only [readBareImport?, Option.bind_eq_bind, Option.bind_eq_some_iff, Prod.exists,
    Option.pure_def, Option.some.injEq, Prod.mk.injEq] at h
  obtain ⟨_, a, ha, _, rfl⟩ := h
  exact (skipSemicolon_suffix a).trans (suffix_of_quoted? ha)

theorem suffix_of_readExport? (h : readExport? s = some (st, r)) : r <:+ s := by
  simp only [readExport?, Option.bind_eq_bind, Option.bind_eq_some_iff, Prod.exists,
    Option.pure_def] at h
  obtain ⟨_, a, ha, h⟩ := h
  have hlist := suffix_of_braced? ha
  split at h
  · rename_i b hb
    obtain ⟨_, rfl⟩ := by simpa using h
    exact (suffix_of_fromClause? hb).trans hlist
  · obtain ⟨_, rfl⟩ := by simpa using h
    exact (skipSemicolon_suffix a).trans hlist

/-- A statement is read off the front of a text. -/
theorem suffix_of_read? (h : read? s = some (st, r)) : r <:+ s := by
  unfold read? at h
  split at h
  · rename_i a ha
    have hword := (skipBlanks_suffix a).trans (suffix_of_isPrefixOf? ha)
    rcases Option.or_eq_some_iff.1 (by simpa [HOrElse.hOrElse, OrElse.orElse] using h) with h | ⟨_, h⟩
    · exact (suffix_of_readNamedImport? h).trans hword
    · exact (suffix_of_readBareImport? h).trans hword
  · split at h
    · rename_i a ha
      have hword := (skipBlanks_suffix a).trans (suffix_of_isPrefixOf? ha)
      exact (suffix_of_readExport? h).trans hword
    · cases h

theorem ne_nil_of_read? {own : List Char} (h : read? (own ++ s) = some (st, s)) : own ≠ [] := by
  rintro rfl
  exact absurd (length_of_read? h) (Nat.lt_irrefl _)

end Statement

/-! ### Segments -/

namespace Segment

open Statement

variable {glued : Bool} {code own s : List Char} {st : Statement}

theorem flatMap_text_ofReversed (code : List Char) : (ofReversed code).flatMap text = code.reverse := by
  unfold ofReversed
  split
  · rename_i h
    simp [List.isEmpty_iff.1 h]
  · simp [text]

theorem scanFrom_of_none {c : Char} (h : glued = false → read? (c :: s) = none) :
    scanFrom glued code (c :: s) = scanFrom (isWordChar c) (c :: code) s := by
  have hnone : (if glued then none else read? (c :: s)) = none := by
    cases glued with
    | false => exact h rfl
    | true => rfl
  rw [scanFrom]
  split
  · rename_i found
    simp only [hnone] at found
    cases found
  · rfl

theorem scanFrom_of_read (h : read? (own ++ s) = some (st, s)) : scanFrom false code (own ++ s)
    = ofReversed code ++ .statement own st :: scanFrom false [] s := by
  obtain ⟨c, rest, rfl⟩ := List.exists_cons_of_ne_nil (ne_nil_of_read? h)
  have htake : (c :: rest ++ s).take ((c :: rest ++ s).length - s.length) = c :: rest := by
    rw [List.length_append, Nat.add_sub_cancel, List.take_left]
  rw [List.cons_append] at h htake ⊢
  rw [scanFrom]
  split
  · rename_i parsed behind found
    simp only [Bool.false_eq_true, h] at found
    cases found
    rw [htake]
  · rename_i hnone
    simp only [Bool.false_eq_true, h] at hnone
    cases hnone

/-- What holds at the end of a code, and holds where a statement is read or a character passed if it holds
behind, holds all along a scan. -/
theorem scan_induction {motive : Bool → List Char → List Char → Prop}
    (done : ∀ glued code, motive glued code [])
    (taken : ∀ code own s st, read? (own ++ s) = some (st, s) → motive false [] s → motive false code (own ++ s))
    (passed : ∀ glued code c s, (glued = false → read? (c :: s) = none) →
      motive (isWordChar c) (c :: code) s → motive glued code (c :: s))
    (glued : Bool) (code s : List Char) : motive glued code s := by
  induction glued, code, s using scanFrom.induct with
  | case1 glued code => exact done glued code
  | case2 glued code c r st rest hread ih =>
      cases glued with
      | true => cases hread
      | false =>
          simp only [Bool.false_eq_true, dite_false] at hread
          obtain ⟨own, hown⟩ := suffix_of_read? hread
          rw [← hown] at hread ⊢
          exact taken code own rest st hread ih
  | case3 glued code c r hread ih =>
      simp only [dite_eq_ite] at hread
      exact passed glued code c r (fun hopen => by simpa [hopen] using hread) ih

theorem flatMap_text_scanFrom (glued : Bool) (code s : List Char) :
    (scanFrom glued code s).flatMap text = code.reverse ++ s := by
  induction glued, code, s using scan_induction with
  | done glued code => rw [scanFrom, flatMap_text_ofReversed, List.append_nil]
  | taken code own s st hread ih =>
      rw [scanFrom_of_read hread, List.flatMap_append, List.flatMap_cons, flatMap_text_ofReversed, ih, text,
        List.reverse_nil, List.nil_append]
  | passed glued code c s hnone ih =>
      rw [scanFrom_of_none hnone, ih, List.reverse_cons, List.append_assoc, List.singleton_append]

/-- **No code is lost**: the segments of a chunk make up its code. -/
theorem flatMap_text_scan (code : String) : (scan code).flatMap text = code.toList := by
  rw [scan, flatMap_text_scanFrom, List.reverse_nil, List.nil_append]

end Segment

end Script

/-! ### Elements of a page -/

namespace Page

open Text

variable {word s r : List Char}

theorem suffix_of_openingTag? {attributes : List Char} (h : openingTag? word s = some (attributes, r)) :
    r <:+ s := by
  unfold openingTag? at h
  split at h
  · rename_i rest
    obtain ⟨a, ha, h⟩ := Option.bind_eq_some_iff.1 h
    have hword := (suffix_of_dropCaseless? ha).trans (List.suffix_cons '<' rest)
    split at h
    · cases h
    · exact (suffix_of_until? h).trans hword
  · cases h

theorem suffix_of_closingTag? (h : closingTag? word s = some r) : r <:+ s := by
  unfold closingTag? at h
  split at h
  · rename_i rest
    obtain ⟨a, ha, h⟩ := Option.bind_eq_some_iff.1 h
    have hword : a <:+ '<' :: '/' :: rest :=
      (suffix_of_dropCaseless? ha).trans ((List.suffix_cons _ _).trans (List.suffix_cons _ _))
    split at h
    · rename_i rest' hskip
      cases h
      have hblanks := skipBlanks_suffix a
      rw [hskip] at hblanks
      exact (List.suffix_cons _ _).trans (hblanks.trans hword)
    · cases h
  · cases h

theorem suffix_of_untilClosing? {front body : List Char}
    (h : untilClosing? word front s = some (body, r)) : r <:+ s := by
  induction s generalizing front with
  | nil => cases h
  | cons c rest ih =>
      unfold untilClosing? at h
      split at h
      · rename_i after hafter
        cases h
        exact suffix_of_closingTag? hafter
      · exact (ih h).trans (List.suffix_cons c rest)

theorem suffix_of_readScript? {element : List Char × List Char}
    (h : readScript? s = some (element, r)) : r <:+ s := by
  simp only [readScript?, Option.bind_eq_bind, Option.bind_eq_some_iff, Prod.exists, Option.pure_def,
    Option.some.injEq, Prod.mk.injEq] at h
  obtain ⟨_, a, ha, _, b, hb, _, rfl⟩ := h
  exact (suffix_of_untilClosing? hb).trans (suffix_of_openingTag? ha)

theorem suffix_of_readLink? {attributes : List Char} (h : readLink? s = some (attributes, r)) :
    r <:+ s :=
  suffix_of_openingTag? h

end Page

end Pagefold
