import Mathlib.Data.List.Infix
import Pagefold.Proofs.Readers

/-! # Lists of bindings as they are written

A list of bindings is written entry by entry, with commas between the entries and blanks around the
words (`Listed`); `as` stands between a name and the new one, and is a name itself where it stands
elsewhere.  No name holds a blank (`not_blank_of_continuesName`), so the words of an entry are just the
ones that were written, and a list is read as the bindings that it was written from
(`Listed.parsed`). -/

namespace Pagefold

/-! ### Blanks and words -/

namespace Text

variable {mark c d : Char} {gap gap' w s a b : List Char}

/-- Nothing but blanks. -/
def Blanks (s : List Char) : Prop := ∀ c ∈ s, isBlank c = true

instance : Decidable (Blanks s) := List.decidableBAll _ s

theorem blanks_nil : Blanks [] := fun _ h => absurd h List.not_mem_nil

theorem Blanks.not_mem (h : Blanks gap) (hc : isBlank c = false) : c ∉ gap := by
  intro hm
  rw [h c hm] at hc
  cases hc

theorem skipBlanks_append (h : Blanks gap) : skipBlanks (gap ++ s) = skipBlanks s :=
  List.dropWhile_append_of_pos h

theorem skipBlanks_cons (h : isBlank c = false) : skipBlanks (c :: s) = c :: s :=
  List.dropWhile_cons_of_neg (by simp [h])

theorem exists_blanks (s : List Char) : ∃ gap, Blanks gap ∧ s = gap ++ skipBlanks s :=
  ⟨s.takeWhile isBlank, List.all_eq_true.1 List.all_takeWhile, List.takeWhile_append_dropWhile.symm⟩

/-- The blanks around a text are trimmed away, and no more. -/
theorem trim_between (hgap : Blanks gap) (hgap' : Blanks gap') (hfirst : s.head? = some c)
    (hlast : s.getLast? = some d) (hc : isBlank c = false) (hd : isBlank d = false) :
    trim (gap ++ s ++ gap') = s := by
  obtain ⟨rest, rfl⟩ : ∃ rest, s = c :: rest := ⟨s.tail, List.eq_cons_of_mem_head? hfirst⟩
  obtain ⟨front, hfront⟩ := List.getLast?_eq_some_iff.1 hlast
  have hskip : skipBlanks (gap ++ (c :: rest) ++ gap') = front ++ [d] ++ gap' := by
    rw [List.append_assoc, skipBlanks_append hgap, List.cons_append, skipBlanks_cons hc,
      ← List.cons_append, hfront]
  have hback : ∀ x ∈ gap'.reverse, isBlank x = true := fun x hx => hgap' x (List.mem_reverse.1 hx)
  rw [trim, hskip, trimEnd, List.reverse_append, List.dropWhile_append_of_pos hback, hfront]
  simp [hd]

theorem words_nil : words [] = [] := rfl

theorem words_append (h : Blanks gap) : words (gap ++ s) = words s := by
  induction gap with
  | nil => rfl
  | cons c gap ih =>
      have hc := h c List.mem_cons_self
      rw [List.cons_append, words, List.splitOnP_cons_eq_if_modifyHead, if_pos hc]
      exact ih fun x hx => h x (List.mem_cons_of_mem c hx)

theorem words_blanks (h : Blanks gap) : words gap = [] := by
  rw [← List.append_nil gap, words_append h, words_nil]

/-- A run of other characters with a blank behind it is a word. -/
theorem words_word (hne : w ≠ []) (hw : ∀ x ∈ w, isBlank x = false) (hgap : Blanks gap)
    (hgap' : gap ≠ []) : words (w ++ gap ++ s) = w :: words s := by
  obtain ⟨c, gap, rfl⟩ := List.exists_cons_of_ne_nil hgap'
  have hc := hgap c List.mem_cons_self
  rw [List.append_assoc, List.cons_append, words, List.splitOnP_append_cons_of_forall_mem hw c hc,
    List.filter_cons_of_pos (by simp [hne])]
  exact congrArg _ (words_append fun x hx => hgap x (List.mem_cons_of_mem c hx))

theorem words_last (hne : w ≠ []) (hw : ∀ x ∈ w, isBlank x = false) (hgap : Blanks gap) :
    words (w ++ gap) = [w] := by
  by_cases hnil : gap = []
  · subst hnil
    rw [List.append_nil, words, List.splitOnP_eq_singleton hw, List.filter_cons_of_pos (by simp [hne])]
    rfl
  · have h := @words_word gap w [] hne hw hgap hnil
    rwa [List.append_nil, words_nil] at h

end Text

namespace Script

open Text

variable {c : Char} {name list s : List Char} {b : Binding} {bindings : List Binding}

/-! ### Names -/

/-- The blank characters by number. -/
def blankNumbers : List Nat :=
  [9, 10, 11, 12, 13, 0x20, 0x85, 0xA0, 0x1680, 0x2000, 0x2001, 0x2002, 0x2003, 0x2004, 0x2005, 0x2006,
    0x2007, 0x2008, 0x2009, 0x200A, 0x2028, 0x2029, 0x202F, 0x205F, 0x3000]

theorem mem_blankNumbers (h : isBlank c = true) : c.toNat ∈ blankNumbers := by
  simp only [isBlank, Bool.or_eq_true, Bool.and_eq_true, decide_eq_true_eq, beq_iff_eq] at h
  simp only [blankNumbers, List.mem_cons, List.not_mem_nil, or_false]
  omega

theorem continuesName_blanks : ∀ n ∈ blankNumbers, continuesName (Char.ofNat n) = false := by
  decide +kernel

theorem not_blank_of_continuesName (h : continuesName c = true) : isBlank c = false := by
  by_contra hc
  have hblank := continuesName_blanks _ (mem_blankNumbers (Bool.not_eq_false _ ▸ hc))
  rw [Char.ofNat_toNat, h] at hblank
  cases hblank

theorem continuesName_of_opensName (h : opensName c = true) : continuesName c = true := by
  simp only [opensName, Bool.or_eq_true] at h
  simp only [continuesName, Bool.or_eq_true]
  exact h.imp_right isLetterOrNumber_of_isLetter

theorem ne_nil_of_isIdentifier (h : isIdentifier name = true) : name ≠ [] := by
  rintro rfl
  cases h

theorem continuesName_of_isIdentifier (h : isIdentifier name = true) :
    ∀ c ∈ name, continuesName c = true := by
  cases name with
  | nil => cases h
  | cons first rest =>
      rw [isIdentifier, Bool.and_eq_true, List.all_eq_true] at h
      rintro c (_ | ⟨_, hm⟩)
      · exact continuesName_of_opensName h.1
      · exact h.2 c hm

theorem not_mem_of_isIdentifier (h : isIdentifier name = true) (hc : continuesName c = false) :
    c ∉ name := by
  intro hm
  rw [continuesName_of_isIdentifier h c hm] at hc
  cases hc

/-! ### Lists of bindings -/

/-- One entry of a list: a name that is kept, or a name and the new one with `as` between them.  Blanks
may stand around each word, and must stand around `as`. -/
inductive Entry (b : Binding) : List Char → Prop
  | kept {gap gap' : List Char} (hname : isIdentifier b.name.toList = true) (hkept : b.newName = b.name)
      (hgap : Blanks gap) (hgap' : Blanks gap') : Entry b (gap ++ b.name.toList ++ gap')
  | renamed {gap before behind gap' : List Char} (hname : isIdentifier b.name.toList = true)
      (hnewName : isIdentifier b.newName.toList = true) (hgap : Blanks gap) (hbefore : Blanks before)
      (hne : before ≠ []) (hbehind : Blanks behind) (hne' : behind ≠ []) (hgap' : Blanks gap') :
      Entry b (gap ++ b.name.toList ++ before ++ ['a', 's'] ++ behind ++ b.newName.toList ++ gap')

/-- Entries in their order, with a comma between any two. -/
inductive Entries : List Binding → List Char → Prop
  | none {gap : List Char} (hgap : Blanks gap) : Entries [] gap
  | one {b : Binding} {s : List Char} (h : Entry b s) : Entries [b] s
  | more {b : Binding} {bindings : List Binding} {s rest : List Char} (h : Entry b s)
      (hne : bindings ≠ []) (hrest : Entries bindings rest) : Entries (b :: bindings) (s ++ ',' :: rest)

/-- A list of bindings as it is written between braces: the entries, perhaps with a comma behind the last
one. -/
inductive Listed (bindings : List Binding) : List Char → Prop
  | plain {s : List Char} (h : Entries bindings s) : Listed bindings s
  | comma {s gap : List Char} (h : Entries bindings s) (hgap : Blanks gap) : Listed bindings (s ++ ',' :: gap)

/-- A text without a closing brace that is read as a list of bindings. -/
def Parsed (bindings : List Binding) (list : List Char) : Prop :=
  '}' ∉ list ∧ Binding.listOf list = bindings

theorem Entry.ofWords? (h : Entry b s) : Binding.ofWords? (words s) = some b := by
  have hblank : ∀ {name : List Char}, isIdentifier name = true → ∀ c ∈ name, isBlank c = false :=
    fun hname c hc => not_blank_of_continuesName (continuesName_of_isIdentifier hname c hc)
  cases h with
  | kept hname hkept hgap hgap' =>
      rw [List.append_assoc, words_append hgap,
        words_last (ne_nil_of_isIdentifier hname) (hblank hname) hgap', Binding.ofWords?, if_pos hname,
        String.ofList_toList]
      exact congrArg (fun newName => some (Binding.mk b.name newName)) hkept.symm
  | @renamed gap before behind gap' hname hnewName hgap hbefore hne hbehind hne' hgap' =>
      have has : ∀ c ∈ ['a', 's'], isBlank c = false := by
        simp only [List.forall_mem_cons, List.not_mem_nil, false_implies, implies_true, and_true]
        decide
      have hwords : words (gap ++ b.name.toList ++ before ++ ['a', 's'] ++ behind ++ b.newName.toList ++ gap')
          = [b.name.toList, ['a', 's'], b.newName.toList] := by
        calc words (gap ++ b.name.toList ++ before ++ ['a', 's'] ++ behind ++ b.newName.toList ++ gap')
            = words (gap ++ (b.name.toList ++ before ++ (['a', 's'] ++ behind ++ (b.newName.toList ++ gap')))) := by
              simp only [List.append_assoc]
          _ = b.name.toList :: words (['a', 's'] ++ behind ++ (b.newName.toList ++ gap')) := by
              rw [words_append hgap, words_word (ne_nil_of_isIdentifier hname) (hblank hname) hbefore hne]
          _ = [b.name.toList, ['a', 's'], b.newName.toList] := by
              rw [words_word (by simp) has hbehind hne',
                words_last (ne_nil_of_isIdentifier hnewName) (hblank hnewName) hgap']
      rw [hwords, Binding.ofWords?, hname, hnewName, Bool.and_self, if_pos rfl, String.ofList_toList,
        String.ofList_toList]

/-- Only names and blanks are in an entry. -/
theorem Entry.not_mem (h : Entry b s) (hname : continuesName c = false) (hblank : isBlank c = false) :
    c ∉ s := by
  have has : c ∉ ['a', 's'] := by
    rintro (_ | ⟨_, _ | ⟨_, hm⟩⟩)
    · exact absurd hname (by decide)
    · exact absurd hname (by decide)
    · cases hm
  cases h with
  | kept hn _ hgap hgap' =>
      simp only [List.mem_append, not_or]
      exact ⟨⟨hgap.not_mem hblank, not_mem_of_isIdentifier hn hname⟩, hgap'.not_mem hblank⟩
  | renamed hn hn' hgap hbefore _ hbehind _ hgap' =>
      simp only [List.mem_append, not_or]
      exact ⟨⟨⟨⟨⟨⟨hgap.not_mem hblank, not_mem_of_isIdentifier hn hname⟩, hbefore.not_mem hblank⟩, has⟩,
        hbehind.not_mem hblank⟩, not_mem_of_isIdentifier hn' hname⟩, hgap'.not_mem hblank⟩

theorem listOf_append (s rest : List Char) :
    Binding.listOf (s ++ ',' :: rest) = Binding.listOf s ++ Binding.listOf rest := by
  rw [Binding.listOf, List.splitOn_append_cons_self, List.filterMap_append]
  rfl

theorem listOf_of_comma_not_mem (h : ',' ∉ s) : Binding.listOf s = (Binding.ofWords? (words s)).toList := by
  rw [Binding.listOf, List.splitOn_eq_singleton h]
  cases hb : Binding.ofWords? (words s) with
  | none => simp [hb]
  | some b => simp [hb]

theorem listOf_blanks {gap : List Char} (h : Blanks gap) : Binding.listOf gap = [] := by
  rw [listOf_of_comma_not_mem (h.not_mem (by decide)), words_blanks h]
  rfl

theorem Entry.listOf (h : Entry b s) : Binding.listOf s = [b] := by
  rw [listOf_of_comma_not_mem (h.not_mem (by decide) (by decide)), h.ofWords?]
  rfl

theorem Entries.parsed (h : Entries bindings s) : Parsed bindings s := by
  induction h with
  | none hgap => exact ⟨hgap.not_mem (by decide), listOf_blanks hgap⟩
  | one h => exact ⟨h.not_mem (by decide) (by decide), h.listOf⟩
  | more h _ _ ih =>
      refine ⟨?_, by rw [listOf_append, h.listOf, ih.2, List.singleton_append]⟩
      rw [List.mem_append, List.mem_cons, not_or, not_or]
      exact ⟨h.not_mem (by decide) (by decide), by decide, ih.1⟩

/-- **What is written is read**: a list that is written out is read as its bindings. -/
theorem Listed.parsed (h : Listed bindings s) : Parsed bindings s := by
  cases h with
  | plain h => exact h.parsed
  | comma h hgap =>
      refine ⟨?_, by rw [listOf_append, h.parsed.2, listOf_blanks hgap, List.append_nil]⟩
      rw [List.mem_append, List.mem_cons, not_or, not_or]
      exact ⟨h.parsed.1, by decide, hgap.not_mem (by decide)⟩

end Script

end Pagefold
