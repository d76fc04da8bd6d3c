import Pagefold.Page.Script
import Pagefold.Proofs.Openings
import Pagefold.Proofs.Positions

/-! # Script elements read back

The attributes that are read from a tag have proper names and hold no `>` when the tag's text holds
none (`isProper_of_mem_attributesOf`).  A list of such attributes, written as it is into the opening tag
of a script element, is read back with its names and order, and with its values as they are written
between quotes (`attributesOf_texts`).  In guarded code no element is closed (`unclosed_guardClosing`).
So a script element that takes the place of a tag is read as one element, whatever follows it
(`readScript?_scriptElement`), and has no `src` (`exists_readScript?_scriptElement`). -/

namespace Pagefold.Page

open Text

variable {s r rest name value : List Char} {a : Attribute} {l : List Attribute}

/-! ### What is read -/

/-- A character in lower case is itself or a lower-case letter. -/
theorem toLower_cases (c : Char) : c.toLower = c ∨ ∃ n : Fin 26, c.toLower = Char.ofNat (97 + n) := by
  unfold Char.toLower
  split
  · rename_i h
    have hlow : 65 ≤ c.toNat ∧ c.toNat ≤ 90 := h
    refine .inr ⟨⟨c.toNat - 65, by omega⟩, ?_⟩
    have hplace : 97 + (c.toNat - 65) = (c.val + ('a'.val - 'A'.val)).toNat := by
      rw [UInt32.toNat_add]
      change _ = (c.toNat + 32) % 2 ^ 32
      omega
    dsimp only
    rw [hplace]
    exact (Char.ofNat_toNat _).symm
  · exact .inl rfl

theorem isNameChar_toLower {c : Char} (h : isNameChar c = true) :
    isNameChar c.toLower = true ∧ c.toLower.toLower = c.toLower := by
  have hletter : ∀ n : Fin 26, isNameChar (Char.ofNat (97 + n)) = true ∧
      (Char.ofNat (97 + n)).toLower = Char.ofNat (97 + n) := by
    decide
  rcases toLower_cases c with hc | ⟨n, hc⟩
  · rw [hc]
    exact ⟨h, hc⟩
  · rw [hc]
    exact hletter n

/-- A value is read off a text, with what stands before it. -/
theorem split_of_attributeValue? (h : attributeValue? s = some (value, r)) : value ⊆ s ∧ r <:+ s := by
  have hcut : ∀ {p : Char → Bool} {c : Char} {l : List Char},
      until? p l = some (value, r) → value ⊆ c :: l ∧ r <:+ c :: l := by
    intro p c l hu
    refine ⟨?_, (suffix_of_until? hu).trans (List.suffix_cons c l)⟩
    obtain ⟨d, _, rfl⟩ := append_of_until? hu
    intro x hx
    simp [hx]
  unfold attributeValue? at h
  split at h
  · exact hcut h
  · exact hcut h
  · split at h
    · cases h
    · cases h
      exact ⟨(List.takeWhile_sublist _).subset, List.dropWhile_suffix _⟩

theorem split_of_assigned? (h : assigned? s = some (value, r)) : value ⊆ s ∧ r <:+ s := by
  unfold assigned? at h
  split at h
  · rename_i l hskip
    have hl : l <:+ s := by
      have hblanks := skipBlanks_suffix s
      rw [hskip] at hblanks
      exact (List.suffix_cons _ _).trans hblanks
    obtain ⟨hvalue, hrest⟩ := split_of_attributeValue? h
    have hskipped := (skipBlanks_suffix l).trans hl
    exact ⟨fun x hx => hskipped.subset (hvalue hx), hrest.trans hskipped⟩
  · cases h

theorem suffix_of_readAttribute? (h : readAttribute? s = some (a, r)) : r <:+ s := by
  unfold readAttribute? at h
  split at h
  · cases h
  · dsimp only at h
    split at h
    · rename_i hv
      cases h
      exact (split_of_assigned? hv).2.trans (List.dropWhile_suffix _)
    · cases h
      exact List.dropWhile_suffix _

/-- The name of an attribute is of name characters in lower case, and its value has no mark. -/
structure Attribute.IsProper (a : Attribute) : Prop where
  nonempty : a.name.toList ≠ []
  chars : ∀ c ∈ a.name.toList, isNameChar c = true
  lower : ∀ c ∈ a.name.toList, c.toLower = c
  unmarked : ∀ value, a.value? = some value → '>' ∉ value.toList

theorem isProper_of_readAttribute? (hs : '>' ∉ s) (h : readAttribute? s = some (a, r)) : a.IsProper := by
  have hchars : ∀ c ∈ (s.takeWhile isNameChar).map Char.toLower,
      isNameChar c = true ∧ c.toLower = c := by
    intro c hc
    obtain ⟨d, hd, rfl⟩ := List.mem_map.1 hc
    exact isNameChar_toLower (List.all_eq_true.1 List.all_takeWhile d hd)
  unfold readAttribute? at h
  split at h
  · cases h
  · rename_i hne
    have hmap : (s.takeWhile isNameChar).map Char.toLower ≠ [] := by simpa using hne
    dsimp only at h
    split at h
    · rename_i v rest hv
      cases h
      refine ⟨?_, ?_, ?_, ?_⟩
      · rwa [String.toList_ofList]
      · rw [String.toList_ofList]
        exact fun c hc => (hchars c hc).1
      · rw [String.toList_ofList]
        exact fun c hc => (hchars c hc).2
      · intro value hvalue
        obtain rfl := Option.some.inj hvalue
        rw [String.toList_ofList]
        exact fun hm => hs ((List.dropWhile_sublist _).subset ((split_of_assigned? hv).1 hm))
    · cases h
      refine ⟨?_, ?_, ?_, ?_⟩
      · rwa [String.toList_ofList]
      · rw [String.toList_ofList]
        exact fun c hc => (hchars c hc).1
      · rw [String.toList_ofList]
        exact fun c hc => (hchars c hc).2
      · intro value hvalue
        cases hvalue

theorem isProper_of_mem_attributesOf (hs : '>' ∉ s) (h : a ∈ attributesOf s) : a.IsProper := by
  obtain ⟨o, ho, rfl⟩ := List.mem_map.1 h
  have hfound : Found readAttribute? 0 s o :=
    found_of_mem_occurrencesFrom (fun _ _ _ => suffix_of_readAttribute?) ho
  obtain ⟨front, own, back, rfl, _, _, _, hread⟩ := hfound
  refine isProper_of_readAttribute? ?_ hread
  intro hm
  exact hs (by rw [List.append_assoc]; exact List.mem_append_right front hm)

theorem mark_not_mem_of_openingTag? {word attributes : List Char}
    (h : openingTag? word s = some (attributes, r)) : '>' ∉ attributes := by
  obtain ⟨_, _, hmark, _, _⟩ := openingTag?_eq_some_iff.1 h
  exact hmark

/-- The attributes of the tags of a page are proper. -/
theorem isProper_of_mem_tags {page : String} {t : Tag} (h : t ∈ tags page) (ha : a ∈ t.attributes) :
    a.IsProper := by
  rcases List.mem_append.1 ((tags_perm page).subset h) with h | h
  · obtain ⟨o, ho, rfl⟩ := List.mem_map.1 h
    have hfound : Found readScript? 0 page.toList o :=
      found_of_mem_occurrencesFrom (fun _ _ _ => suffix_of_readScript?) ho
    obtain ⟨_, _, _, _, _, _, _, hread⟩ := hfound
    obtain ⟨_, hopen, _⟩ := readScript?_eq_some_iff.1 hread
    exact isProper_of_mem_attributesOf (mark_not_mem_of_openingTag? hopen) ha
  · obtain ⟨o, ho, rfl⟩ := List.mem_map.1 (List.mem_filter.1 h).1
    have hfound : Found readLink? 0 page.toList o :=
      found_of_mem_occurrencesFrom (fun _ _ _ => suffix_of_readLink?) ho
    obtain ⟨_, _, _, _, _, _, _, hread⟩ := hfound
    exact isProper_of_mem_attributesOf (mark_not_mem_of_openingTag? hread) ha

/-! ### What is written -/

/-- A value as it stands between double quotes. -/
def escaped (value : String) : String :=
  String.ofList (value.toList.flatMap fun c => if c == '"' then ['&', 'q', 'u', 'o', 't', ';'] else [c])

theorem quotedValue_eq (value : String) :
    (quotedValue value).toList = '"' :: (escaped value).toList ++ ['"'] := by
  simp [quotedValue, escaped]

theorem mem_escaped {c : Char} {value : String} (h : c ∈ (escaped value).toList) :
    c ≠ '"' ∧ (c ∈ value.toList ∨ c ∈ ['&', 'q', 'u', 'o', 't', ';']) := by
  rw [escaped, String.toList_ofList, List.mem_flatMap] at h
  obtain ⟨d, hd, h⟩ := h
  split at h
  · refine ⟨?_, .inr h⟩
    rintro rfl
    exact absurd h (by decide)
  · rename_i hne
    rw [List.mem_singleton] at h
    subst h
    exact ⟨by simpa using hne, .inl hd⟩

/-- An attribute as it is written, its name and its value between quotes. -/
def Attribute.written (a : Attribute) : Attribute := ⟨a.name, a.value?.map escaped⟩

/-- What follows the blank in the text of an attribute. -/
def Attribute.nameAndValue (a : Attribute) : List Char :=
  a.name.toList ++ a.value?.elim [] fun value => '=' :: (quotedValue value).toList

theorem toList_text (a : Attribute) : a.text.toList = ' ' :: a.nameAndValue := by
  unfold Attribute.text Attribute.nameAndValue
  cases a.value? with
  | none => simp
  | some value => simp

/-- A text that ends an attribute: nothing, or a blank and the next name. -/
inductive EndsAttribute : List Char → Prop
  | nil : EndsAttribute []
  | cons {c rest} (hc : isNameChar c = true) : EndsAttribute (' ' :: c :: rest)

theorem not_blank_of_isNameChar {c : Char} (h : isNameChar c = true) : isBlank c = false := by
  cases hb : isBlank c with
  | false => rfl
  | true => simp [isNameChar, hb] at h

theorem EndsAttribute.assigned? (h : EndsAttribute rest) : assigned? rest = none := by
  cases h with
  | nil => rfl
  | @cons c rest hc =>
      have hskip : skipBlanks (' ' :: c :: rest) = c :: rest := by
        rw [skipBlanks, List.dropWhile_cons_of_pos (by decide),
          List.dropWhile_cons_of_neg (by simp [not_blank_of_isNameChar hc])]
      rw [Page.assigned?, hskip]
      split
      · rename_i heq
        cases heq
        exact absurd hc (by decide)
      · rfl

theorem EndsAttribute.cut (h : EndsAttribute rest) (hname : ∀ c ∈ name, isNameChar c = true) :
    (name ++ rest).takeWhile isNameChar = name ∧ (name ++ rest).dropWhile isNameChar = rest := by
  rw [List.takeWhile_append_of_pos hname, List.dropWhile_append_of_pos hname]
  cases h with
  | nil => simp
  | cons hc => simp [show isNameChar ' ' = false by decide]

theorem readAttribute?_of_name {tail : List Char} (ha : a.IsProper)
    (htake : (a.name.toList ++ tail).takeWhile isNameChar = a.name.toList)
    (hdrop : (a.name.toList ++ tail).dropWhile isNameChar = tail) :
    readAttribute? (a.name.toList ++ tail)
      = some ((assigned? tail).elim (⟨a.name, none⟩, tail)
        fun (value, rest) => (⟨a.name, some (String.ofList value)⟩, rest)) := by
  have hlower : String.ofList (a.name.toList.map Char.toLower) = a.name := by
    rw [List.map_congr_left ha.lower, List.map_id', String.ofList_toList]
  unfold readAttribute?
  rw [htake, hdrop]
  split
  · rename_i hnil
    exact absurd hnil ha.nonempty
  · rw [hlower]
    dsimp only
    cases assigned? tail with
    | none => rfl
    | some p => rfl

theorem readAttribute?_nameAndValue (ha : a.IsProper) (h : EndsAttribute rest) :
    readAttribute? (a.nameAndValue ++ rest) = some (a.written, rest) := by
  obtain ⟨name, value?⟩ := a
  cases value? with
  | none =>
      obtain ⟨htake, hdrop⟩ := h.cut ha.chars
      rw [Attribute.nameAndValue, Option.elim_none, List.append_nil,
        readAttribute?_of_name ha htake hdrop, h.assigned?]
      rfl
  | some value =>
      have htail : ∀ l, (name.toList ++ '=' :: l).takeWhile isNameChar = name.toList ∧
          (name.toList ++ '=' :: l).dropWhile isNameChar = '=' :: l := by
        intro l
        rw [List.takeWhile_append_of_pos ha.chars, List.dropWhile_append_of_pos ha.chars,
          List.takeWhile_cons_of_neg (by decide), List.dropWhile_cons_of_neg (by decide)]
        simp
      have hassigned : assigned? ('=' :: '"' :: ((escaped value).toList ++ '"' :: rest))
          = some ((escaped value).toList, rest) := by
        have hplain : ∀ c ∈ (escaped value).toList, (!(c == '"')) = true := by
          intro c hc
          simpa using (mem_escaped hc).1
        have hcut : until? (· == '"') ((escaped value).toList ++ '"' :: rest)
            = some ((escaped value).toList, rest) := by
          rw [until?, List.dropWhile_append_of_pos hplain, List.takeWhile_append_of_pos hplain]
          simp
        have hskip : ∀ c l, isBlank c = false → skipBlanks (c :: l) = c :: l := by
          intro c l hc
          rw [skipBlanks, List.dropWhile_cons_of_neg (by simp [hc])]
        rw [Page.assigned?, hskip _ _ (by decide)]
        change attributeValue? (skipBlanks _) = _
        rw [hskip _ _ (by decide), attributeValue?, hcut]
      have htext : Attribute.nameAndValue ⟨name, some value⟩ ++ rest
          = name.toList ++ '=' :: '"' :: ((escaped value).toList ++ '"' :: rest) := by
        simp [Attribute.nameAndValue, quotedValue_eq]
      rw [htext, readAttribute?_of_name ha (htail _).1 (htail _).2, hassigned]
      simp [Attribute.written]

theorem values_texts (hl : ∀ a ∈ l, a.IsProper) (position : Nat) :
    (occurrencesFrom readAttribute? position (l.flatMap fun a => a.text.toList)).map (·.value)
      = l.map Attribute.written := by
  induction l generalizing position with
  | nil => simp [occurrencesFrom]
  | cons a l ih =>
      have ha := hl a List.mem_cons_self
      have hends : EndsAttribute (l.flatMap fun a => a.text.toList) := by
        cases l with
        | nil => exact .nil
        | cons b l =>
            have hb := hl b (by simp)
            obtain ⟨c, name, hname⟩ := List.exists_cons_of_ne_nil hb.nonempty
            rw [List.flatMap_cons, toList_text, Attribute.nameAndValue, hname]
            exact .cons (hb.chars c (by simp [hname]))
      have hne : a.nameAndValue ≠ [] := by
        intro h
        exact ha.nonempty (List.append_eq_nil_iff.1 h).1
      have hblank : ∀ s, readAttribute? (' ' :: s) = none := by
        intro s
        rw [readAttribute?, List.takeWhile_cons_of_neg (by decide)]
      rw [List.flatMap_cons, toList_text, List.cons_append, occurrencesFrom_of_none (hblank _),
        occurrencesFrom_of_some hne (readAttribute?_nameAndValue ha hends), List.map_cons, List.map_cons,
        ih fun b hb => hl b (List.mem_cons_of_mem a hb)]

/-- **Attributes that are written are read back**, with their values as they are written. -/
theorem attributesOf_texts (hl : ∀ a ∈ l, a.IsProper) :
    attributesOf (l.flatMap fun a => a.text.toList) = l.map Attribute.written :=
  values_texts hl 0

/-- No mark is written into the text of an attribute. -/
theorem mark_not_mem_text (ha : a.IsProper) : '>' ∉ a.text.toList := by
  have hname : '>' ∉ a.name.toList := fun hm => absurd (ha.chars _ hm) (by decide)
  rw [toList_text, Attribute.nameAndValue]
  cases hv : a.value? with
  | none => simp [hname]
  | some value =>
      have hvalue : '>' ∉ (escaped value).toList := by
        intro hm
        rcases (mem_escaped hm).2 with h | h
        · exact ha.unmarked value hv h
        · exact absurd h (by decide)
      simp [hname, quotedValue_eq, hvalue]

/-! ### Guarded code -/

variable {word y tail : List Char}

/-- Nowhere in a text do a `<` and a slash stand before `word`. -/
def Unclosed (word s : List Char) : Prop :=
  ∀ rest, '<' :: '/' :: rest <:+ s → dropCaseless? word rest = none

theorem guardClosingFrom_eq (front : List Char) :
    guardClosingFrom word front s = front.reverse ++ guardClosing word s := by
  induction s generalizing front with
  | nil => simp [guardClosingFrom, guardClosing]
  | cons c s ih =>
      unfold guardClosing guardClosingFrom
      split
      · rw [ih, ih ['\\', c]]
        simp
      · rw [ih, ih [c]]
        simp

/-- A guard stands behind the first character of a closing tag only. -/
theorem guardClosing_cons (c : Char) (s : List Char) :
    (c = '<' ∧ guardClosing word (c :: s) = '<' :: '\\' :: guardClosing word s) ∨
      guardClosing word (c :: s) = c :: guardClosing word s ∧
        (c = '<' → s.head? = some '/' → dropCaseless? word s.tail = none) := by
  have hstep : guardClosing word (c :: s)
      = if c == '<' && s.head? == some '/' && (dropCaseless? word s.tail).isSome then
          guardClosingFrom word ['\\', c] s
        else guardClosingFrom word [c] s := by
    rw [guardClosing, guardClosingFrom]
  rw [hstep]
  split
  · rename_i h
    rw [guardClosingFrom_eq]
    simp only [Bool.and_eq_true, beq_iff_eq] at h
    exact .inl ⟨h.1.1, by simp [h.1.1]⟩
  · rename_i h
    rw [guardClosingFrom_eq]
    refine .inr ⟨by simp, ?_⟩
    intro hc hs
    simpa [hc, hs] using h

theorem isSome_dropCaseless?_guardClosing {word' : List Char} (hw : IsPlain word')
    (h : (dropCaseless? word' (guardClosing word s)).isSome = true) :
    (dropCaseless? word' s).isSome = true := by
  induction word' generalizing s with
  | nil => rfl
  | cons letter word' ih =>
      cases s with
      | nil => exact h
      | cons c s =>
          have hrest : IsPlain word' := fun l hl => hw l (List.mem_cons_of_mem letter hl)
          rcases guardClosing_cons c s with ⟨_, hguard⟩ | ⟨hsame, _⟩
          · rw [hguard, dropCaseless?, (hw letter List.mem_cons_self).1] at h
            cases h
          · rw [hsame, dropCaseless?] at h
            rw [dropCaseless?]
            split at h
            · rename_i hc
              rw [if_pos hc]
              exact ih hrest h
            · cases h

/-- **In guarded code no element is closed.** -/
theorem unclosed_guardClosing (hw : IsPlain word) (s : List Char) : Unclosed word (guardClosing word s) := by
  induction s with
  | nil =>
      intro rest h
      cases List.suffix_nil.1 h
  | cons c s ih =>
      intro rest h
      rcases guardClosing_cons c s with ⟨_, hguard⟩ | ⟨hsame, hopen⟩
      · rw [hguard] at h
        rcases List.suffix_cons_iff.1 h with heq | h
        · cases heq
        · rcases List.suffix_cons_iff.1 h with heq | h
          · cases heq
          · exact ih rest h
      · rw [hsame] at h
        rcases List.suffix_cons_iff.1 h with heq | h
        · obtain ⟨rfl, hslash⟩ := List.cons.inj heq
          -- The slash stood there before, and a guard inside does not make up the word.
          cases s with
          | nil => cases hslash
          | cons d s =>
              rcases guardClosing_cons d s with ⟨_, hguard⟩ | ⟨hkept, _⟩
              · rw [hguard] at hslash
                cases hslash
              · rw [hkept] at hslash
                obtain ⟨rfl, rfl⟩ := List.cons.inj hslash
                have hnone := hopen rfl rfl
                by_contra hsome
                have := isSome_dropCaseless?_guardClosing hw (Option.isSome_iff_ne_none.2 hsome)
                rw [List.tail_cons] at hnone
                rw [hnone] at this
                cases this
        · exact ih rest h

theorem Unclosed.cons {c : Char} (h : Unclosed word s) (hc : c = '<' → s.head? ≠ some '/') :
    Unclosed word (c :: s) := by
  intro rest hrest
  rcases List.suffix_cons_iff.1 hrest with heq | hrest
  · obtain ⟨rfl, rfl⟩ := List.cons.inj heq
    exact absurd rfl (hc rfl)
  · exact h rest hrest

/-- A text without a `<` can stand in front. -/
theorem Unclosed.behind {front : List Char} (h : Unclosed word s) (hfront : '<' ∉ front) :
    Unclosed word (front ++ s) := by
  induction front with
  | nil => exact h
  | cons c front ih =>
      rw [List.mem_cons, not_or] at hfront
      exact (ih hfront.2).cons fun hc => absurd hc.symm hfront.1

/-- A character that neither makes up a closing tag nor stands in `word`. -/
def Parts (word : List Char) (c : Char) : Prop := c ≠ '/' ∧ ∀ letter ∈ word, foldsTo letter c = false

instance {c : Char} : Decidable (Parts word c) :=
  @instDecidableAnd _ _ inferInstance (List.decidableBAll _ word)

theorem dropCaseless?_append_of_parts {c : Char} (hc : Parts word c)
    (h : (dropCaseless? word (s ++ c :: r)).isSome = true) : (dropCaseless? word s).isSome = true := by
  induction word generalizing s with
  | nil => rfl
  | cons letter word ih =>
      cases s with
      | nil =>
          rw [List.nil_append, dropCaseless?, hc.2 letter List.mem_cons_self] at h
          cases h
      | cons d s =>
          rw [List.cons_append, dropCaseless?] at h
          rw [dropCaseless?]
          split at h
          · rename_i hd
            rw [if_pos hd]
            exact ih ⟨hc.1, fun l hl => hc.2 l (List.mem_cons_of_mem letter hl)⟩ h
          · cases h

/-- What an end of an unclosed text and more text behind it begin with. -/
theorem Unclosed.dropCaseless? {c : Char} {rest : List Char} (h : Unclosed word s) (hc : Parts word c)
    (hy : y <:+ s) (hne : y ≠ []) (heq : '<' :: '/' :: rest = y ++ c :: r) :
    dropCaseless? word rest = none := by
  obtain ⟨d, y, rfl⟩ := List.exists_cons_of_ne_nil hne
  obtain ⟨rfl, hrest⟩ := List.cons.inj heq
  cases y with
  | nil =>
      obtain ⟨rfl, _⟩ := List.cons.inj hrest
      exact absurd rfl hc.1
  | cons e y =>
      obtain ⟨rfl, rfl⟩ := List.cons.inj hrest
      by_contra hsome
      have hfound := dropCaseless?_append_of_parts hc (Option.isSome_iff_ne_none.2 hsome)
      rw [h y hy] at hfound
      cases hfound

theorem Unclosed.append {c : Char} (hs : Unclosed word s) (hc : Parts word c) (hr : Unclosed word (c :: r)) :
    Unclosed word (s ++ c :: r) := by
  intro rest hrest
  rcases Lists.suffix_append_cases hrest with h | ⟨y, hy, hne, heq⟩
  · exact hr rest h
  · exact hs.dropCaseless? hc hy hne heq

/-- Up to a closing tag that stands behind it, nothing in an unclosed text closes the element. -/
theorem untilClosing?_of_unclosed {front : List Char} (hslash : Parts word '<')
    (hs : Unclosed word s) : untilClosing? word front (s ++ ('<' :: '/' :: word ++ '>' :: r))
      = some (front.reverse ++ s, r) := by
  induction s generalizing front with
  | nil =>
      have hclosing : closingTag? word ('<' :: '/' :: word ++ '>' :: r) = some r :=
        closingTag?_eq_some_iff.2 ⟨word, [], spells_self word, by simp, by simp⟩
      rw [List.nil_append, List.append_nil]
      simp only [List.cons_append] at hclosing ⊢
      rw [untilClosing?, hclosing]
  | cons c s ih =>
      have hnone : closingTag? word (c :: (s ++ ('<' :: '/' :: word ++ '>' :: r))) = none := by
        by_contra hsome
        obtain ⟨r', hr'⟩ := Option.ne_none_iff_exists'.1 hsome
        obtain ⟨name, blanks, hname, _, heq⟩ := closingTag?_eq_some_iff.1 hr'
        have hdrop : dropCaseless? word (name ++ (blanks ++ '>' :: r')) = none :=
          hs.dropCaseless? (y := c :: s) hslash List.suffix_rfl (by simp) (by simpa using heq.symm)
        rw [dropCaseless?_eq_some_iff.2 ⟨name, hname, rfl⟩] at hdrop
        cases hdrop
      rw [List.cons_append, untilClosing?, hnone]
      dsimp only
      rw [ih fun rest hrest => hs rest (hrest.trans (List.suffix_cons c s))]
      simp

/-! ### Script elements -/

/-- The code in a section that hides it from a reader of XML. -/
theorem unclosed_cdata {code : List Char} (h : Unclosed scriptName code) :
    Unclosed scriptName ("//<![CDATA[\n".toList ++ (code ++ "\n//]]>".toList)) := by
  have hnil : Unclosed scriptName [] := fun rest hrest => by cases List.suffix_nil.1 hrest
  have hend : Unclosed scriptName ("\n//]]>".toList ++ []) := hnil.behind (by decide)
  have hcode : Unclosed scriptName (code ++ '\n' :: "//]]>".toList) := h.append (by decide) hend
  have hsection : Unclosed scriptName ('!' :: ("[CDATA[\n".toList ++ (code ++ '\n' :: "//]]>".toList))) :=
    (hcode.behind (by decide)).cons fun h => absurd h (by decide)
  have hopen : Unclosed scriptName
      ("//".toList ++ '<' :: '!' :: ("[CDATA[\n".toList ++ (code ++ '\n' :: "//]]>".toList))) :=
    (hsection.cons (by simp)).behind (by decide)
  simpa using hopen

/-- The attributes of a tag that a script element keeps. -/
def keptAttributes (t : Tag) : List Attribute :=
  t.attributes.filter fun a => !loadingAttributes.contains a.name

/-- The text of a script element. -/
def elementBody (code : String) (cdata : Bool) : String :=
  if cdata then "//<![CDATA[\n" ++ guardScript code ++ "\n//]]>" else guardScript code

theorem toList_scriptElement (t : Tag) (code : String) (cdata : Bool) :
    (scriptElement t code cdata).toList = '<' :: scriptName
      ++ ((keptAttributes t).flatMap fun a => a.text.toList)
      ++ '>' :: ((elementBody code cdata).toList ++ '<' :: '/' :: scriptName ++ ['>']) := by
  have hopen : "<script".toList = '<' :: scriptName := by decide
  have hclose : "</script>".toList = '<' :: '/' :: scriptName ++ ['>'] := by decide
  rw [scriptElement, elementBody]
  simp only [String.toList_append, String.toList_join, List.flatMap_map, hopen, hclose, keptAttributes]
  simp

theorem unclosed_elementBody (code : String) (cdata : Bool) :
    Unclosed scriptName (elementBody code cdata).toList := by
  have hguarded : Unclosed scriptName (guardScript code).toList := by
    rw [guardScript, String.toList_ofList]
    exact unclosed_guardClosing isPlain_scriptName code.toList
  unfold elementBody
  split
  · simpa using unclosed_cdata hguarded
  · exact hguarded

/-- **A script element is read back** with the attributes that it keeps and its text, whatever follows it. -/
theorem readScript?_scriptElement {t : Tag} (ht : ∀ a ∈ t.attributes, a.IsProper) (code : String)
    (cdata : Bool) (r : List Char) : readScript? ((scriptElement t code cdata).toList ++ r)
      = some (((keptAttributes t).flatMap fun a => a.text.toList, (elementBody code cdata).toList), r) := by
  refine readScript?_eq_some_iff.2
    ⟨(elementBody code cdata).toList ++ ('<' :: '/' :: scriptName ++ '>' :: r), ?_, ?_⟩
  · refine openingTag?_eq_some_iff.2 ⟨scriptName, ?_, ?_, ?_, ?_⟩
    · exact spells_self scriptName
    · intro hm
      obtain ⟨a, ha, hm⟩ := List.mem_flatMap.1 hm
      exact mark_not_mem_text (ht a (List.mem_of_mem_filter ha)) hm
    · cases keptAttributes t with
      | nil => rfl
      | cons a l =>
          rw [List.flatMap_cons, toList_text]
          rfl
    · rw [toList_scriptElement]
      simp
  · exact untilClosing?_of_unclosed (by decide) (unclosed_elementBody code cdata)

/-- What is read back of the attributes that a script element keeps. -/
theorem attributesOf_keptAttributes {t : Tag} (ht : ∀ a ∈ t.attributes, a.IsProper) :
    attributesOf ((keptAttributes t).flatMap fun a => a.text.toList)
      = (keptAttributes t).map Attribute.written :=
  attributesOf_texts fun a ha => ht a (List.mem_of_mem_filter ha)

/-- What is read back has no `src`. -/
theorem exists_readScript?_scriptElement {t : Tag} (ht : ∀ a ∈ t.attributes, a.IsProper) (code : String)
    (cdata : Bool) : ∃ element, (∀ a ∈ attributesOf element.1, a.name ≠ "src") ∧
      ∀ r, readScript? ((scriptElement t code cdata).toList ++ r) = some (element, r) := by
  refine ⟨_, ?_, readScript?_scriptElement ht code cdata⟩
  rw [attributesOf_keptAttributes ht]
  intro b hb
  obtain ⟨a, ha, rfl⟩ := List.mem_map.1 hb
  rintro hsrc
  have hname : a.name = "src" := hsrc
  have hnot := (List.mem_filter.1 ha).2
  rw [hname] at hnot
  exact absurd hnot (by decide)

end Pagefold.Page
