import Pagefold.Proofs.Bindings
import Pagefold.Proofs.Endings

/-! # Parts of references

A file lies in the folders that its path lists in front of its last name (`folders`), and what a reference
in it spells out begins there (`target_eq`).  A reference to another place is told by its opening alone:
two slashes, or a scheme and a colon (`isNonLocal_iff`).  No such opening holds a blank, so only the blanks
in front of it are trimmed away (`isNonLocal_trim_iff`). -/

namespace Pagefold

/-! ### Folders -/

namespace Path

variable {a b dir s : List Char} {l l' : List (List Char)}

theorem beq_slash_of_not_mem (h : '/' ∉ s) : ∀ c ∈ s, (c == '/') = false := by
  intro c hc
  rw [beq_eq_false_iff_ne]
  rintro rfl
  exact h hc

theorem directory?_append_cons (h : '/' ∉ b) : directory? (a ++ '/' :: b) = some a := by
  rw [directory?, Text.lastOf?_append_cons (by decide) (beq_slash_of_not_mem h)]
  rfl

theorem directory?_eq_none (h : '/' ∉ s) : directory? s = none := by
  rw [directory?, Text.lastOf?_eq_none (beq_slash_of_not_mem h)]
  rfl

/-- The segments of a path are those of its directory, if it has one, and its last name. -/
theorem splitOn_cases (s : List Char) : directory? s = none ∧ s.splitOn '/' = [fileName s] ∨
    ∃ dir, directory? s = some dir ∧ s.splitOn '/' = dir.splitOn '/' ++ [fileName s] := by
  have hname := slash_not_mem_fileName s
  have hlast : (fileName s).splitOn '/' = [fileName s] := List.splitOn_eq_singleton hname
  rcases eq_fileName_or_cut s with hs | ⟨dir, hs⟩
  · refine .inl ⟨directory?_eq_none (hs ▸ hname), ?_⟩
    conv_lhs => rw [hs, hlast]
  · refine .inr ⟨dir, ?_, ?_⟩
    · conv_lhs => rw [hs, directory?_append_cons hname]
    · conv_lhs => rw [hs, List.splitOn_append_cons_self, hlast]

theorem intercalate_append (h : l ≠ []) (h' : l' ≠ []) :
    ['/'].intercalate (l ++ l') = ['/'].intercalate l ++ '/' :: ['/'].intercalate l' := by
  obtain ⟨first, rest, rfl⟩ := List.exists_cons_of_ne_nil h'
  induction l with
  | nil => exact absurd rfl h
  | cons step l ih =>
      cases l with
      | nil => simp [List.intercalate_cons_cons]
      | cons next l =>
          have hrest := ih (List.cons_ne_nil next l)
          rw [List.cons_append] at hrest ⊢
          rw [List.cons_append, List.intercalate_cons_cons, hrest, List.intercalate_cons_cons]
          simp

theorem intercalate_concat (h : l ≠ []) (s : List Char) :
    ['/'].intercalate (l ++ [s]) = ['/'].intercalate l ++ '/' :: s := by
  rw [intercalate_append h (List.cons_ne_nil s []), List.intercalate_singleton]

end Path

namespace Link

open Text

variable {c : Char} {opening path s : List Char} {importer? : Option String}

/-- The folders in which a file lies, from the root: all segments of its path but the last one. -/
def folders (id : String) : List (List Char) := (id.toList.splitOn '/').dropLast

/-- The folders in which a reference is read: those of its importer, or none. -/
def foldersOf (importer? : Option String) : List (List Char) := importer?.elim [] folders

namespace Reference

/-- What a reference spells out: a rooted one the path behind its slash, any other its path in the folders of
the importer. -/
theorem target_eq (path : List Char) (importer? : Option String) : target path importer?
    = if path.head? = some '/' then path.tail else ['/'].intercalate (foldersOf importer? ++ [path]) := by
  unfold target
  split
  · rfl
  · rename_i hroot
    have hhead : path.head? ≠ some '/' := fun h => hroot path.tail (List.eq_cons_of_mem_head? h)
    rw [if_neg hhead]
    cases importer? with
    | none => simp [foldersOf]
    | some importer =>
        rw [Option.bind_some, foldersOf, Option.elim_some, folders]
        rcases Path.splitOn_cases importer.toList with ⟨hnone, hsplit⟩ | ⟨dir, hdir, hsplit⟩
        · rw [hnone, hsplit]
          simp
        · rw [hdir, hsplit, List.dropLast_concat, Path.intercalate_concat (List.splitOn_ne_nil _ _),
            List.intercalate_splitOn]

/-! ### References to other places -/

/-- What a reference to another place opens with: two slashes, or a scheme of two characters or more with a
colon behind it. -/
inductive Opening : List Char → Prop
  | slashes : Opening ['/', '/']
  | scheme {name : List Char} (hlong : 1 < name.length) (hname : ∀ c ∈ name, isSchemeChar c = true) :
      Opening (name ++ [':'])

theorem isSchemeChar_blanks : ∀ n ∈ Script.blankNumbers, isSchemeChar (Char.ofNat n) = false := by
  decide +kernel

theorem not_blank_of_isSchemeChar (h : isSchemeChar c = true) : isBlank c = false := by
  by_contra hc
  have hblank := isSchemeChar_blanks _ (Script.mem_blankNumbers (Bool.not_eq_false _ ▸ hc))
  rw [Char.ofNat_toNat, h] at hblank
  cases hblank

/-- An opening holds no blank, and neither mark of what follows a path. -/
theorem Opening.plain (h : Opening opening) : ∀ c ∈ opening, isBlank c = false ∧ c ≠ '?' ∧ c ≠ '#' := by
  intro c hc
  cases h with
  | slashes =>
      obtain rfl : c = '/' := by simpa using hc
      decide
  | scheme _ hname =>
      rcases List.mem_append.1 hc with hc | hc
      · refine ⟨not_blank_of_isSchemeChar (hname c hc), ?_, ?_⟩
        · rintro rfl
          exact absurd (hname _ hc) (by decide)
        · rintro rfl
          exact absurd (hname _ hc) (by decide)
      · rw [List.mem_singleton.1 hc]
        decide

/-- **A reference to another place** is one that begins with an opening. -/
theorem isNonLocal_iff : isNonLocal s = true ↔ ∃ opening, Opening opening ∧ opening <+: s := by
  unfold isNonLocal
  simp only [Bool.or_eq_true, Bool.and_eq_true, List.isPrefixOf_iff_prefix, List.contains_iff_mem,
    decide_eq_true_eq, List.all_eq_true]
  constructor
  · rintro (hslashes | ⟨hcolon, hlong, hname⟩)
    · exact ⟨_, .slashes, hslashes⟩
    · obtain ⟨front, back, rfl, hfront⟩ := List.eq_append_cons_of_mem hcolon
      have htake : (front ++ ':' :: back).takeWhile (· != ':') = front := by
        rw [List.takeWhile_append_of_pos fun c hc => by simpa using ne_of_mem_of_not_mem hc hfront]
        simp
      rw [htake] at hlong hname
      exact ⟨_, .scheme hlong hname, back, by simp⟩
  · rintro ⟨_, hopening, hs⟩
    cases hopening with
    | slashes => exact .inl hs
    | @scheme name hlong hname =>
        obtain ⟨back, rfl⟩ := hs
        have hplain : ∀ c ∈ name, (c != ':') = true := by
          intro c hc
          rw [bne_iff_ne]
          rintro rfl
          exact absurd (hname _ hc) (by decide)
        have htake : (name ++ [':'] ++ back).takeWhile (· != ':') = name := by
          rw [List.append_assoc, List.takeWhile_append_of_pos hplain]
          simp
        rw [htake]
        exact .inr ⟨by simp, hlong, hname⟩

/-- A slash before the first colon is in no scheme, so only two slashes in front count. -/
theorem isNonLocal_of_slash {front back : List Char} (hcolon : ':' ∉ front) :
    isNonLocal (front ++ '/' :: back) = ['/', '/'].isPrefixOf (front ++ '/' :: back) := by
  rw [Bool.eq_iff_iff, isNonLocal_iff, List.isPrefixOf_iff_prefix]
  constructor
  · rintro ⟨_, hopening, hs⟩
    cases hopening with
    | slashes => exact hs
    | @scheme name hlong hname =>
        exfalso
        have hslash : front ++ ['/'] <+: front ++ '/' :: back := ⟨back, by simp⟩
        rcases List.prefix_or_prefix_of_prefix hs hslash with h | h
        · have hmem : ':' ∈ front ++ ['/'] := h.subset (List.mem_append_right _ List.mem_cons_self)
          rcases List.mem_append.1 hmem with hmem | hmem
          · exact hcolon hmem
          · exact absurd hmem (by decide)
        · have hmem : '/' ∈ name ++ [':'] := h.subset (List.mem_append_right _ List.mem_cons_self)
          rcases List.mem_append.1 hmem with hmem | hmem
          · exact absurd (hname _ hmem) (by decide)
          · exact absurd hmem (by decide)
  · exact fun hs => ⟨_, .slashes, hs⟩

/-- At the end only blanks are trimmed away, so a text without blanks stays at the front. -/
theorem prefix_trimEnd_iff (hplain : ∀ c ∈ opening, isBlank c = false) :
    opening <+: trimEnd s ↔ opening <+: s := by
  have htrim : trimEnd s <+: s := by
    have hsuffix := List.dropWhile_suffix isBlank (l := s.reverse)
    rwa [← List.reverse_prefix, List.reverse_reverse] at hsuffix
  constructor
  · exact fun h => h.trans htrim
  · rintro ⟨rest, rfl⟩
    have hback : opening.reverse.dropWhile isBlank = opening.reverse := by
      cases hrev : opening.reverse with
      | nil => rfl
      | cons c back =>
          have hc := hplain c (List.mem_reverse.1 (hrev ▸ List.mem_cons_self))
          simp [hc]
    rw [trimEnd, List.reverse_append, List.dropWhile_append]
    split
    · rw [hback, List.reverse_reverse]
    · rw [List.reverse_append, List.reverse_reverse]
      exact List.prefix_append _ _

/-- What a text without blanks is at the front of, once it is trimmed. -/
theorem prefix_trim_iff (hne : opening ≠ []) (hplain : ∀ c ∈ opening, isBlank c = false) :
    opening <+: trim s ↔ ∃ gap, Blanks gap ∧ gap ++ opening <+: s := by
  rw [trim, prefix_trimEnd_iff hplain]
  constructor
  · intro h
    obtain ⟨gap, hgap, hs⟩ := exists_blanks s
    refine ⟨gap, hgap, ?_⟩
    rw [hs]
    exact (List.prefix_append_right_inj gap).2 h
  · rintro ⟨gap, hgap, rest, rfl⟩
    obtain ⟨c, more, rfl⟩ := List.exists_cons_of_ne_nil hne
    rw [List.append_assoc, skipBlanks_append hgap, List.cons_append,
      skipBlanks_cons (hplain c List.mem_cons_self), ← List.cons_append]
    exact List.prefix_append _ _

theorem Opening.ne_nil (h : Opening opening) : opening ≠ [] := by
  cases h with
  | slashes => exact List.cons_ne_nil _ _
  | scheme => exact List.append_ne_nil_of_right_ne_nil _ (List.cons_ne_nil _ _)

/-- Only the blanks in front of an opening are trimmed away. -/
theorem isNonLocal_trim_iff : isNonLocal (trim s) = true ↔
    ∃ opening gap, Opening opening ∧ Blanks gap ∧ gap ++ opening <+: s := by
  rw [isNonLocal_iff]
  constructor
  · rintro ⟨opening, hopening, hs⟩
    obtain ⟨gap, hgap, hs⟩ := (prefix_trim_iff hopening.ne_nil fun c hc => (hopening.plain c hc).1).1 hs
    exact ⟨opening, gap, hopening, hgap, hs⟩
  · rintro ⟨opening, gap, hopening, hgap, hs⟩
    exact ⟨opening, hopening,
      (prefix_trim_iff hopening.ne_nil fun c hc => (hopening.plain c hc).1).2 ⟨gap, hgap, hs⟩⟩

end Reference

end Link

end Pagefold
