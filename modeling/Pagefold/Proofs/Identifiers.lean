import Pagefold.Command.Arguments
import Pagefold.Proofs.Allocation
import Pagefold.Script.Statement

/-! # Names are identifiers

What the names of wrapped chunks may open with is judged twice: in a configuration by `opensName`, and on
the command line by `readLead`, which says what is wrong.  Both let the same texts pass, and these are the
texts of the form `IsLead` (`opensName_iff`, `readLead_eq_ok_iff`).  Such an opening stays in front of every
base, as no digit has to be guarded against (`toList_baseName`), and neither what is taken from a file nor a
counter adds anything but plain characters.  So each name that is given behind it is an identifier
(`names_are_identifiers`), whatever the files are called. -/

namespace Pagefold

variable {s : List Char} {c : Char} {text lead : String}

/-! ### Openings of names -/

/-- A plain character: an ASCII letter or digit, `_` or `$`. -/
def IsPlainChar (c : Char) : Prop := c.isAlphanum = true ∨ c = '_' ∨ c = '$'

instance : Decidable (IsPlainChar c) := instDecidableOr

/-- What names may open with: plain characters, at least one, and no digit in front. -/
structure IsLead (s : List Char) : Prop where
  nonempty : s ≠ []
  plain : ∀ c ∈ s, IsPlainChar c
  start : s.head?.any Char.isDigit = false

theorem isNameChar_iff : isNameChar c = true ↔ IsPlainChar c := by
  simp [isNameChar, IsPlainChar, or_assoc]

/-- The letters by their numbers. -/
theorem isAlpha_iff_toNat :
    c.isAlpha = true ↔ (65 ≤ c.toNat ∧ c.toNat ≤ 90) ∨ 97 ≤ c.toNat ∧ c.toNat ≤ 122 := by
  change (decide (65 ≤ c.val ∧ c.val ≤ 90) || (decide (97 ≤ c.val) && decide (c.val ≤ 122))) = true ↔ _
  simp only [Bool.or_eq_true, Bool.and_eq_true, decide_eq_true_eq, UInt32.le_iff_toNat_le]
  rfl

theorem toNat_lt_of_isAlphanum (h : c.isAlphanum = true) : c.toNat < 128 := by
  rcases Bool.or_eq_true_iff.1 h with halpha | hdigit
  · have := isAlpha_iff_toNat.1 halpha
    omega
  · have hbounds : 48 ≤ c.toNat ∧ c.toNat ≤ 57 := Char.isDigit_iff_toNat.1 hdigit
    omega

theorem not_isDigit_of_isAlpha (h : c.isAlpha = true) : c.isDigit = false := by
  have hletter := isAlpha_iff_toNat.1 h
  rw [← Bool.not_eq_true]
  intro hdigit
  have hbounds : 48 ≤ c.toNat ∧ c.toNat ≤ 57 := Char.isDigit_iff_toNat.1 hdigit
  omega

/-- Plain characters may follow in an identifier. -/
theorem IsPlainChar.continuesName (h : IsPlainChar c) : Script.continuesName c = true := by
  rcases h with h | rfl | rfl
  · have hletter : Text.isLetterOrNumber c = true := by
      rw [Text.isLetterOrNumber, if_pos (toNat_lt_of_isAlphanum h), h]
    simp [Script.continuesName, hletter]
  · decide
  · decide

/-- Plain characters other than digits may open an identifier. -/
theorem IsPlainChar.opensName (h : IsPlainChar c) (hdigit : c.isDigit = false) :
    Script.opensName c = true := by
  rcases h with h | rfl | rfl
  · have halpha : c.isAlpha = true := by simpa [Char.isAlphanum, hdigit] using h
    have hletter : Text.isLetter c = true := by
      rw [Text.isLetter, if_pos (toNat_lt_of_isAlphanum h), halpha]
    simp [Script.opensName, hletter]
  · decide
  · decide

/-- The plain characters other than digits are those that a name may open with. -/
theorem opensName_singleton_iff : opensName [c] = true ↔ IsPlainChar c ∧ c.isDigit = false := by
  simp only [opensName, List.all_nil, Bool.and_true, Bool.or_eq_true, beq_iff_eq]
  constructor
  · rintro ((h | rfl) | rfl)
    · exact ⟨.inl (by simp [Char.isAlphanum, h]), not_isDigit_of_isAlpha h⟩
    · decide
    · decide
  · rintro ⟨h | h | h, hdigit⟩
    · exact .inl (.inl (by simpa [Char.isAlphanum, hdigit] using h))
    · exact .inl (.inr h)
    · exact .inr h

theorem opensName_cons (c : Char) (s : List Char) :
    opensName (c :: s) = (opensName [c] && s.all isNameChar) := by
  simp [opensName]

/-- **The check of a configuration** lets the openings of names pass. -/
theorem opensName_iff : opensName s = true ↔ IsLead s := by
  cases s with
  | nil => exact ⟨fun h => (Bool.false_ne_true h).elim, fun h => (h.nonempty rfl).elim⟩
  | cons c s =>
      rw [opensName_cons, Bool.and_eq_true, opensName_singleton_iff, List.all_eq_true]
      simp only [isNameChar_iff]
      constructor
      · rintro ⟨⟨hc, hdigit⟩, hs⟩
        exact ⟨by simp, List.forall_mem_cons.2 ⟨hc, hs⟩, hdigit⟩
      · intro h
        obtain ⟨hc, hs⟩ := List.forall_mem_cons.1 h.plain
        exact ⟨⟨hc, h.start⟩, hs⟩

/-- **The check of the command line** lets the openings of names pass, and gives them back as they are. -/
theorem readLead_eq_ok_iff :
    Command.readLead text = .ok lead ↔ lead = text ∧ IsLead text.toList := by
  rw [← opensName_iff, Command.readLead]
  cases text.toList with
  | nil => simp [opensName]
  | cons c s =>
      rw [opensName_cons]
      dsimp only
      cases opensName [c] with
      | false => simp
      | true =>
          cases hfind : s.find? (!isNameChar ·) with
          | none =>
              have hall : s.all isNameChar = true := by simpa using hfind
              rw [hall]
              constructor
              · rintro ⟨⟩
                exact ⟨rfl, rfl⟩
              · rintro ⟨rfl, _⟩
                rfl
          | some bad =>
              -- The first character that is refused keeps the whole text from being a name's opening.
              have hbad : isNameChar bad = false := by simpa using List.find?_some hfind
              have hall : s.all isNameChar = false :=
                List.all_eq_false.2 ⟨bad, List.mem_of_find?_eq_some hfind, by simp [hbad]⟩
              simp [hall]

namespace Link

variable {taken : List String} {names : Naming} {ids : List String} {id base name : String} {k : Nat}

/-! ### Bases and counters -/

/-- What a file gives to a name are plain characters. -/
theorem plain_nameBody (id : String) : ∀ c ∈ nameBody id, IsPlainChar c := by
  intro c hc
  unfold nameBody at hc
  dsimp only at hc
  split at hc
  · have hchunk : ['c', 'h', 'u', 'n', 'k'].all isNameChar = true := by decide
    exact isNameChar_iff.1 (List.all_eq_true.1 hchunk c hc)
  · obtain ⟨d, _, rfl⟩ := List.mem_map.1 hc
    split
    · rename_i hd
      exact isNameChar_iff.1 hd
    · exact .inr (.inl rfl)

/-- An opening stands in front of a base as it is. -/
theorem toList_baseName (h : IsLead lead.toList) (id : String) :
    (baseName id lead).toList = lead.toList ++ nameBody id := by
  obtain ⟨c, rest, hlead⟩ := List.exists_cons_of_ne_nil h.nonempty
  have hdigit : c.isDigit = false := by simpa [hlead] using h.start
  rw [baseName, hlead, List.cons_append]
  simp [hdigit]

theorem toList_tried_succ (base : String) (k : Nat) :
    (tried base (k + 1)).toList = base.toList ++ '_' :: Nat.toDigits 10 (k + 1) := by
  have hname : tried base (k + 1) = base ++ "_" ++ Nat.repr (k + 1) := rfl
  rw [hname, String.toList_append, String.toList_append, Nat.toList_repr, List.append_assoc]
  rfl

/-- A name with a given opening, of plain characters. -/
structure GoesOn (lead name : String) : Prop where
  opens : lead.toList <+: name.toList
  plain : ∀ c ∈ name.toList, IsPlainChar c

theorem goesOn_baseName (h : IsLead lead.toList) (id : String) : GoesOn lead (baseName id lead) := by
  have hbase := toList_baseName h id
  refine ⟨⟨nameBody id, hbase.symm⟩, fun c hc => ?_⟩
  rw [hbase, List.mem_append] at hc
  exact hc.elim (h.plain c) (plain_nameBody id c)

/-- A counter keeps the opening, and is plain. -/
theorem GoesOn.tried (h : GoesOn lead base) (k : Nat) : GoesOn lead (tried base k) := by
  cases k with
  | zero => exact h
  | succ k =>
      have hname := toList_tried_succ base k
      refine ⟨h.opens.trans ⟨_, hname.symm⟩, fun c hc => ?_⟩
      rw [hname, List.mem_append, List.mem_cons] at hc
      rcases hc with hc | rfl | hc
      · exact h.plain c hc
      · exact .inr (.inl rfl)
      · have hdigit := Nat.isDigit_of_mem_toDigits (by decide) (by decide) hc
        exact .inl (by simp [Char.isAlphanum, hdigit])

/-- The free name for a base is one of those tried. -/
theorem GoesOn.freeName (h : GoesOn lead base) (taken : List String) : GoesOn lead (freeName taken base) := by
  obtain ⟨k, hk⟩ := exists_firstFree taken.toFinset base
  rw [freeName_eq hk]
  exact h.tried k

/-- A name behind an opening is an identifier: a plain character that is no digit, and plain ones. -/
theorem GoesOn.isIdentifier (hlead : IsLead lead.toList) (h : GoesOn lead name) :
    Script.isIdentifier name.toList = true := by
  obtain ⟨c, front, hfront⟩ := List.exists_cons_of_ne_nil hlead.nonempty
  obtain ⟨rest, hname⟩ := h.opens
  rw [hfront, List.cons_append] at hname
  have hplain := h.plain
  rw [← hname, List.forall_mem_cons] at hplain
  have hdigit : c.isDigit = false := by simpa [hfront] using hlead.start
  rw [← hname, Script.isIdentifier, Bool.and_eq_true, List.all_eq_true]
  exact ⟨hplain.1.opensName hdigit, fun d hd => (hplain.2 d hd).continuesName⟩

/-! ### Namings -/

namespace Naming

/-- One more name. -/
theorem goesOn_assign (hlead : IsLead lead.toList) (h : ∀ name ∈ names.values, GoesOn lead name)
    (id : String) : ∀ name ∈ (names.assign id lead).values, GoesOn lead name := by
  unfold assign
  split
  · exact h
  · rename_i hid
    have hnew : id ∉ names.keys := fun hm => hid (Dictionary.contains_iff.2 hm)
    intro name hname
    rw [Dictionary.values, Dictionary.entries_insert _ hnew, List.map_append, List.mem_append] at hname
    rcases hname with hname | hname
    · exact h name hname
    · rw [List.mem_singleton.1 hname]
      exact (goesOn_baseName hlead id).freeName names.values

/-- **All names of a naming** go on from their opening. -/
theorem goesOn_foldl (hlead : IsLead lead.toList) (h : ∀ name ∈ names.values, GoesOn lead name) :
    ∀ name ∈ (ids.foldl (fun names id => names.assign id lead) names).values, GoesOn lead name := by
  induction ids generalizing names with
  | nil => exact h
  | cons id ids ih => exact ih (goesOn_assign hlead h id)

end Naming

/-- **Openings that are accepted make identifiers.**  The command line accepts a text as an opening of names
exactly when a configuration does, and as it is.  With such an opening every id gets a name, whatever the
ids are, and every name that is given begins with the opening, holds nothing but plain characters and is an
identifier. -/
theorem names_are_identifiers (lead : String) :
    ((∃ read, Command.readLead lead = .ok read) ↔ Pagefold.opensName lead.toList = true) ∧
    (∀ read, Command.readLead lead = .ok read → read = lead) ∧
    (Pagefold.opensName lead.toList = true → ∀ ids : List String,
      (∀ id, id ∈ (Naming.ofList ids lead).keys ↔ id ∈ ids) ∧
      ∀ name ∈ (Naming.ofList ids lead).values, lead.toList <+: name.toList ∧
        (∀ c ∈ name.toList, IsPlainChar c) ∧ Script.isIdentifier name.toList = true) := by
  refine ⟨?_, fun read h => (readLead_eq_ok_iff.1 h).1, ?_⟩
  · rw [opensName_iff]
    simp only [readLead_eq_ok_iff, exists_eq_left]
  · intro h ids
    have hlead : IsLead lead.toList := opensName_iff.1 h
    refine ⟨fun id => Naming.mem_keys_ofList, fun name hname => ?_⟩
    have hgoes : GoesOn lead name :=
      Naming.goesOn_foldl hlead (fun name hm => absurd hm List.not_mem_nil) name hname
    exact ⟨hgoes.opens, hgoes.plain, hgoes.isIdentifier hlead⟩

/-- Files of which a name can take little or nothing. -/
def oddFiles : List String := ["", "lib/", "...", "9/0.js", "\u00e9.js", "lib/\u00e9.js"]

theorem oddFiles_identifiers : Pagefold.opensName "$".toList = true ∧
    (Naming.ofList oddFiles "$").values = ["$chunk", "$chunk_1", "$__", "$0", "$_", "$__1"] ∧
    ∀ name ∈ (Naming.ofList oddFiles "$").values, Script.isIdentifier name.toList = true := by
  have hlead : Pagefold.opensName "$".toList = true := by decide
  obtain ⟨_, hnames⟩ := (names_are_identifiers "$").2.2 hlead oddFiles
  exact ⟨hlead, by decide +kernel, fun name h => (hnames name h).2.2⟩

end Link

end Pagefold
