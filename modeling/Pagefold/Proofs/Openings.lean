import Pagefold.Proofs.Readers

/-! # Opening and closing tags

An opening tag is a name behind a `<`, spelled in any case, and everything up to the first `>`
(`openingTag?_eq_some_iff`); a closing tag has only blanks there (`closingTag?_eq_some_iff`).  Both end
at the first `>`, so a text that holds a `>` decides alone whether it opens with one of them, whatever
follows it (`openingTag?_append`, `closingTag?_append`).  A script element can be read where an opening
tag stands and a closing tag stands somewhere behind it (`isSome_readScript?`). -/

namespace Pagefold

open Text

namespace Text

variable {word name s r own a b blanks : List Char}

/-! ### Names -/

/-- A text is `word`, letter by letter and in any case. -/
def Spells (word name : List Char) : Prop :=
  List.Forall₂ (fun letter c => foldsTo letter c = true) word name

theorem spells_self (word : List Char) : Spells word word := by
  refine List.forall₂_same.2 fun letter _ => ?_
  simp [foldsTo]

theorem dropCaseless?_eq_some_iff :
    dropCaseless? word s = some r ↔ ∃ name, Spells word name ∧ s = name ++ r := by
  induction word generalizing s with
  | nil => simp [dropCaseless?, Spells]
  | cons letter word ih =>
      cases s with
      | nil => simp [dropCaseless?, Spells]
      | cons c s =>
          rw [dropCaseless?]
          constructor
          · intro h
            split at h
            · rename_i hc
              obtain ⟨name, hname, rfl⟩ := ih.1 h
              exact ⟨c :: name, .cons hc hname, rfl⟩
            · cases h
          · rintro ⟨name, hname, hs⟩
            cases hname with
            | cons hc hname =>
                obtain ⟨rfl, rfl⟩ := List.cons.inj hs
                rw [if_pos hc]
                exact ih.2 ⟨_, hname, rfl⟩

/-- No letter of a word stands for an angle bracket. -/
def IsPlain (word : List Char) : Prop :=
  ∀ letter ∈ word, foldsTo letter '<' = false ∧ foldsTo letter '>' = false

instance : Decidable (IsPlain word) := List.decidableBAll _ word

theorem Spells.not_mem (h : Spells word name) (hw : IsPlain word) : '<' ∉ name ∧ '>' ∉ name := by
  induction h with
  | nil => simp
  | @cons letter c word name hc _ ih =>
      obtain ⟨hopen, hclose⟩ := hw letter List.mem_cons_self
      have hrest := ih fun l hl => hw l (List.mem_cons_of_mem letter hl)
      refine ⟨?_, ?_⟩
      · rintro (_ | ⟨_, hm⟩)
        · rw [hopen] at hc
          cases hc
        · exact hrest.1 hm
      · rintro (_ | ⟨_, hm⟩)
        · rw [hclose] at hc
          cases hc
        · exact hrest.2 hm

/-! ### The first mark -/

/-- A cut at the first mark lies in whatever holds a mark. -/
theorem exists_of_mark_mem (hown : '>' ∈ own) (ha : '>' ∉ a) (h : own ++ s = a ++ '>' :: r) :
    ∃ rest, own = a ++ '>' :: rest ∧ r = rest ++ s := by
  rcases List.append_eq_append_iff.1 h with ⟨as, rfl, _⟩ | ⟨bs, rfl, hr⟩
  · exact absurd (List.mem_append_left as hown) ha
  · cases bs with
    | nil =>
        rw [List.append_nil] at hown
        exact absurd hown ha
    | cons c bs =>
        obtain ⟨rfl, rfl⟩ := List.cons.inj hr
        exact ⟨bs, rfl, rfl⟩

/-- What stands behind the first mark. -/
def behindMark (s : List Char) : List Char := (s.dropWhile (· != '>')).tail

theorem behindMark_append (ha : '>' ∉ a) : behindMark (a ++ '>' :: r) = r := by
  have hall : ∀ c ∈ a, (c != '>') = true := by
    intro c hc
    rw [bne_iff_ne]
    rintro rfl
    exact ha hc
  rw [behindMark, List.dropWhile_append_of_pos hall]
  rfl

end Text

namespace Page

variable {word name s r own attributes body : List Char}

abbrev scriptName : List Char := ['s', 'c', 'r', 'i', 'p', 't']

abbrev linkName : List Char := ['l', 'i', 'n', 'k']

theorem isPlain_scriptName : IsPlain scriptName := by decide

theorem isPlain_linkName : IsPlain linkName := by decide

/-! ### Opening tags -/

theorem openingTag?_eq_some_iff : openingTag? word s = some (attributes, r) ↔
    ∃ name, Spells word name ∧ '>' ∉ attributes ∧ attributes.head?.any isWordChar = false ∧
      s = '<' :: name ++ attributes ++ '>' :: r := by
  have hhead : ∀ l : List Char,
      (attributes ++ '>' :: l).head?.any isWordChar = attributes.head?.any isWordChar := by
    intro l
    cases attributes with
    | nil => rfl
    | cons c attributes => rfl
  constructor
  · intro h
    unfold openingTag? at h
    split at h
    · rename_i rest
      obtain ⟨m, hm, hcut⟩ := Option.bind_eq_some_iff.1 h
      obtain ⟨name, hname, rfl⟩ := dropCaseless?_eq_some_iff.1 hm
      split at hcut
      · cases hcut
      · rename_i hword
        obtain ⟨rfl, ha⟩ := until?_eq_some_iff.1 hcut
        rw [hhead] at hword
        exact ⟨name, hname, ha, by simpa using hword, by simp⟩
    · cases h
  · rintro ⟨name, hname, ha, hword, rfl⟩
    have hdrop : dropCaseless? word (name ++ (attributes ++ '>' :: r)) = some (attributes ++ '>' :: r) :=
      dropCaseless?_eq_some_iff.2 ⟨name, hname, rfl⟩
    rw [List.cons_append, List.cons_append, List.append_assoc, openingTag?, hdrop, Option.bind_eq_bind,
      Option.bind_some, hhead, hword]
    exact until?_eq_some_iff.2 ⟨rfl, ha⟩

theorem head?_of_openingTag? (h : (openingTag? word s).isSome = true) : s.head? = some '<' := by
  obtain ⟨⟨_, _⟩, h⟩ := Option.isSome_iff_exists.1 h
  obtain ⟨_, _, _, _, rfl⟩ := openingTag?_eq_some_iff.1 h
  rfl

/-- **A text with a mark** decides alone whether it opens with an opening tag. -/
theorem openingTag?_append (hw : IsPlain word) (hown : '>' ∈ own) :
    openingTag? word (own ++ s) = (openingTag? word own).map fun p => (p.1, p.2 ++ s) := by
  refine Option.ext fun ⟨attributes, r⟩ => ?_
  simp only [Option.map_eq_some_iff, Prod.exists, Prod.mk.injEq, openingTag?_eq_some_iff]
  constructor
  · rintro ⟨name, hname, ha, hword, hs⟩
    have hfront : '>' ∉ '<' :: name ++ attributes := by simp [(hname.not_mem hw).2, ha]
    obtain ⟨rest, rfl, rfl⟩ := exists_of_mark_mem hown hfront hs
    exact ⟨_, rest, ⟨name, hname, ha, hword, rfl⟩, rfl, rfl⟩
  · rintro ⟨_, rest, ⟨name, hname, ha, hword, rfl⟩, rfl, rfl⟩
    exact ⟨name, hname, ha, hword, by simp⟩

/-! ### Closing tags -/

theorem closingTag?_eq_some_iff : closingTag? word s = some r ↔
    ∃ name blanks, Spells word name ∧ (∀ c ∈ blanks, isBlank c = true) ∧
      s = '<' :: '/' :: name ++ blanks ++ '>' :: r := by
  constructor
  · intro h
    unfold closingTag? at h
    split at h
    · rename_i rest
      obtain ⟨m, hm, hmark⟩ := Option.bind_eq_some_iff.1 h
      obtain ⟨name, hname, rfl⟩ := dropCaseless?_eq_some_iff.1 hm
      split at hmark
      · rename_i rest' hskip
        cases hmark
        have hsplit : m.takeWhile isBlank ++ skipBlanks m = m := List.takeWhile_append_dropWhile
        rw [hskip] at hsplit
        refine ⟨name, m.takeWhile isBlank, hname, fun c hc => ?_, ?_⟩
        · exact List.all_eq_true.1 List.all_takeWhile c hc
        · simp [hsplit]
      · cases hmark
    · cases h
  · rintro ⟨name, blanks, hname, hblanks, rfl⟩
    have hdrop : dropCaseless? word (name ++ (blanks ++ '>' :: r)) = some (blanks ++ '>' :: r) :=
      dropCaseless?_eq_some_iff.2 ⟨name, hname, rfl⟩
    have hskip : skipBlanks (blanks ++ '>' :: r) = '>' :: r := by
      rw [skipBlanks, List.dropWhile_append_of_pos hblanks, List.dropWhile_cons_of_neg (by decide)]
    simp only [List.cons_append, List.append_assoc, closingTag?, hdrop, Option.bind_eq_bind,
      Option.bind_some, hskip]

/-- **A text with a mark** decides alone whether it opens with a closing tag. -/
theorem closingTag?_append (hw : IsPlain word) (hown : '>' ∈ own) :
    closingTag? word (own ++ s) = (closingTag? word own).map (· ++ s) := by
  refine Option.ext fun r => ?_
  simp only [Option.map_eq_some_iff, closingTag?_eq_some_iff]
  constructor
  · rintro ⟨name, blanks, hname, hblanks, hs⟩
    have hfront : '>' ∉ '<' :: '/' :: name ++ blanks := by
      have hblank : '>' ∉ blanks := fun hm => absurd (hblanks _ hm) (by decide)
      simp [(hname.not_mem hw).2, hblank]
    obtain ⟨rest, rfl, rfl⟩ := exists_of_mark_mem hown hfront hs
    exact ⟨rest, ⟨name, blanks, hname, hblanks, rfl⟩, rfl⟩
  · rintro ⟨rest, ⟨name, blanks, hname, hblanks, rfl⟩, rfl⟩
    exact ⟨name, blanks, hname, hblanks, by simp⟩

/-- Somewhere in a text a script element is closed. -/
def HasClosing (s : List Char) : Prop := ∃ u, u <:+ s ∧ (closingTag? scriptName u).isSome = true

theorem isSome_untilClosing? {front : List Char} :
    (untilClosing? scriptName front s).isSome = true ↔ HasClosing s := by
  induction s generalizing front with
  | nil => simp [untilClosing?, HasClosing, closingTag?]
  | cons c s ih =>
      unfold untilClosing? HasClosing
      simp only [List.suffix_cons_iff]
      cases hc : closingTag? scriptName (c :: s) with
      | some after => exact ⟨fun _ => ⟨_, .inl rfl, by rw [hc]; rfl⟩, fun _ => rfl⟩
      | none =>
          rw [ih, HasClosing]
          constructor
          · rintro ⟨u, hu, h⟩
            exact ⟨u, .inr hu, h⟩
          · rintro ⟨u, rfl | hu, h⟩
            · rw [hc] at h
              cases h
            · exact ⟨u, hu, h⟩

/-! ### Script elements -/

theorem readScript?_eq_some_iff : readScript? s = some ((attributes, body), r) ↔
    ∃ m, openingTag? scriptName s = some (attributes, m) ∧
      untilClosing? scriptName [] m = some (body, r) := by
  simp only [readScript?, Option.bind_eq_bind, Option.bind_eq_some_iff, Prod.exists, Option.pure_def,
    Option.some.injEq, Prod.mk.injEq]
  constructor
  · rintro ⟨_, m, hm, _, _, h, ⟨rfl, rfl⟩, rfl⟩
    exact ⟨m, hm, h⟩
  · rintro ⟨m, hm, h⟩
    exact ⟨attributes, m, hm, body, r, h, ⟨rfl, rfl⟩, rfl⟩

theorem behindMark_of_openingTag? (hw : IsPlain word) (h : openingTag? word s = some (attributes, r)) :
    behindMark s = r := by
  obtain ⟨name, hname, ha, _, rfl⟩ := openingTag?_eq_some_iff.1 h
  exact behindMark_append (by simp [(hname.not_mem hw).2, ha])

/-- **A script element is read** where it is opened and somewhere behind that closed. -/
theorem isSome_readScript? : (readScript? s).isSome = true ↔
    (openingTag? scriptName s).isSome = true ∧ HasClosing (behindMark s) := by
  simp only [Option.isSome_iff_exists, Prod.exists, readScript?_eq_some_iff]
  constructor
  · rintro ⟨attributes, body, r, m, hm, h⟩
    rw [behindMark_of_openingTag? isPlain_scriptName hm]
    exact ⟨⟨attributes, m, hm⟩, (@isSome_untilClosing? m []).1 (by rw [h]; rfl)⟩
  · rintro ⟨⟨attributes, m, hm⟩, h⟩
    rw [behindMark_of_openingTag? isPlain_scriptName hm] at h
    obtain ⟨⟨body, r⟩, h⟩ := Option.isSome_iff_exists.1 ((@isSome_untilClosing? m []).2 h)
    exact ⟨attributes, body, r, m, hm, h⟩

/-- What is read up to a closing tag ends in a mark and does not depend on what follows. -/
theorem exists_own_of_untilClosing? {front : List Char} (hw : IsPlain word)
    (h : untilClosing? word front s = some (body, r)) :
    ∃ own, s = own ++ '>' :: r ∧ ∀ r', untilClosing? word front (own ++ '>' :: r') = some (body, r') := by
  induction s generalizing front with
  | nil => cases h
  | cons c s ih =>
      unfold untilClosing? at h
      split at h
      · rename_i after hafter
        cases h
        obtain ⟨name, blanks, hname, hblanks, hs⟩ := closingTag?_eq_some_iff.1 hafter
        refine ⟨'<' :: '/' :: name ++ blanks, by rw [hs], fun r' => ?_⟩
        have hclosing : closingTag? word ('<' :: '/' :: name ++ blanks ++ '>' :: r') = some r' :=
          closingTag?_eq_some_iff.2 ⟨name, blanks, hname, hblanks, rfl⟩
        simp only [List.cons_append] at hclosing ⊢
        rw [untilClosing?, hclosing]
      · rename_i hnone
        obtain ⟨own, rfl, hown⟩ := ih h
        refine ⟨c :: own, rfl, fun r' => ?_⟩
        have hsame : ∀ l : List Char, closingTag? word (c :: (own ++ '>' :: l))
            = (closingTag? word (c :: own ++ ['>'])).map (· ++ l) := by
          intro l
          rw [← closingTag?_append hw (by simp)]
          simp
        rw [hsame, Option.map_eq_none_iff] at hnone
        rw [List.cons_append, untilClosing?, hsame, hnone]
        exact hown r'

/-- What is read for a link tag has one mark, at its end. -/
theorem exists_own_of_readLink? (h : readLink? s = some (attributes, r)) :
    ∃ own, '>' ∉ own ∧ s = own ++ '>' :: r ∧ ∀ r', readLink? (own ++ '>' :: r') = some (attributes, r') := by
  obtain ⟨name, hname, ha, hword, rfl⟩ := openingTag?_eq_some_iff.1 h
  refine ⟨'<' :: name ++ attributes, ?_, rfl, fun r' => ?_⟩
  · simp [(hname.not_mem isPlain_linkName).2, ha]
  · exact openingTag?_eq_some_iff.2 ⟨name, hname, ha, hword, rfl⟩

/-- What is read for a script element ends in a mark. -/
theorem exists_own_of_readScript? {element : List Char × List Char} (h : readScript? s = some (element, r)) :
    ∃ own, s = own ++ '>' :: r ∧ ∀ r', readScript? (own ++ '>' :: r') = some (element, r') := by
  obtain ⟨m, hm, hbody⟩ := readScript?_eq_some_iff.1 h
  obtain ⟨name, hname, ha, hword, rfl⟩ := openingTag?_eq_some_iff.1 hm
  obtain ⟨own, rfl, hown⟩ := exists_own_of_untilClosing? isPlain_scriptName hbody
  refine ⟨'<' :: name ++ element.1 ++ '>' :: own, by simp, fun r' => ?_⟩
  refine readScript?_eq_some_iff.2 ⟨own ++ '>' :: r', ?_, hown r'⟩
  exact openingTag?_eq_some_iff.2 ⟨name, hname, ha, hword, by simp⟩

/-- No text opens both with a script element and with a link tag. -/
theorem not_script_and_link (hs : (openingTag? scriptName s).isSome = true)
    (hl : (openingTag? linkName s).isSome = true) : False := by
  obtain ⟨⟨_, _⟩, hs⟩ := Option.isSome_iff_exists.1 hs
  obtain ⟨⟨_, _⟩, hl⟩ := Option.isSome_iff_exists.1 hl
  obtain ⟨_, hname, _, _, rfl⟩ := openingTag?_eq_some_iff.1 hs
  obtain ⟨_, hname', _, _, hs⟩ := openingTag?_eq_some_iff.1 hl
  cases hname with
  | cons hc _ =>
      cases hname' with
      | cons hc' _ =>
          simp only [List.cons_append, List.cons.injEq, true_and] at hs
          obtain ⟨rfl, _⟩ := hs
          simp only [foldsTo, Bool.or_eq_true, beq_iff_eq, Bool.and_eq_true] at hc
          rcases hc with ((rfl | rfl) | ⟨_, rfl⟩) | ⟨_, rfl⟩
          · exact absurd hc' (by decide)
          · exact absurd hc' (by decide)
          · exact absurd hc' (by decide)
          · exact absurd hc' (by decide)

end Page

end Pagefold
