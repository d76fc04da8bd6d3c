import Pagefold.Proofs.WrittenElements

/-! # Sections in script elements

A script element can hold its code in a section `<![CDATA[ … ]]>`, which a reader of XML takes as plain
text up to the first `]]>`.  Guarding code neither makes nor removes such an end (`places_guardClosing`),
and none arises where the code and the lines around it meet (`places_append`).  So the section has the end
that is written for it and the ones in the code, and a reader of XML sees the whole code in it exactly
when the code holds none (`sectionEnds_scriptElement`). -/

namespace Pagefold

open Text

namespace Text

variable {word pattern s r : List Char} {c : Char}

/-! ### Places of a pattern -/

/-- At how many places of a text a pattern stands. -/
def places (pattern s : List Char) : Nat := s.tails.countP (pattern.isPrefixOf ·)

theorem places_nil (h : pattern ≠ []) : places pattern [] = 0 := by
  simp [places, h]

theorem places_cons (pattern : List Char) (c : Char) (s : List Char) :
    places pattern (c :: s) = places pattern s + if pattern <+: c :: s then 1 else 0 := by
  rw [places, List.tails_cons, List.countP_cons]
  simp only [List.isPrefixOf_iff_prefix]
  rfl

/-- A pattern stands nowhere exactly in a text that does not hold it. -/
theorem places_eq_zero_iff : places pattern s = 0 ↔ ¬ pattern <:+: s := by
  simp only [places, List.countP_eq_zero, List.mem_tails, List.isPrefixOf_iff_prefix,
    List.infix_iff_prefix_suffix, not_exists, not_and]
  exact forall_congr' fun y => imp_not_comm

/-- A pattern does not reach over a character that is not in it. -/
theorem prefix_append_iff (hc : c ∉ pattern) : pattern <+: s ++ c :: r ↔ pattern <+: s := by
  constructor
  · intro h
    rcases List.prefix_or_prefix_of_prefix h (List.prefix_append s (c :: r)) with h' | ⟨rest, rfl⟩
    · exact h'
    · cases rest with
      | nil => simp
      | cons d rest =>
          have hd := (List.prefix_append_right_inj s).1 h
          obtain rfl := (List.cons_prefix_cons.1 hd).1
          simp at hc
  · exact fun h => h.trans (List.prefix_append s _)

theorem places_append (hne : pattern ≠ []) (hc : c ∉ pattern) :
    places pattern (s ++ c :: r) = places pattern s + places pattern (c :: r) := by
  induction s with
  | nil => rw [List.nil_append, places_nil hne, Nat.zero_add]
  | cons d s ih =>
      have hsame : pattern <+: d :: (s ++ c :: r) ↔ pattern <+: d :: s := prefix_append_iff (s := d :: s) hc
      rw [List.cons_append, places_cons, places_cons, ih]
      simp only [hsame]
      omega

/-- A pattern does not begin at a character that is not in it. -/
theorem places_skip (hne : pattern ≠ []) (hc : c ∉ pattern) : places pattern (c :: s) = places pattern s := by
  have hnot : ¬ pattern <+: c :: s := by
    obtain ⟨d, rest, rfl⟩ := List.exists_cons_of_ne_nil hne
    intro h
    exact hc (by simp [(List.cons_prefix_cons.1 h).1])
  rw [places_cons, if_neg hnot, Nat.add_zero]

/-! ### Patterns in guarded texts -/

theorem prefix_guardClosing_iff (hopen : '<' ∉ pattern) :
    pattern <+: guardClosing word s ↔ pattern <+: s := by
  induction pattern generalizing s with
  | nil => simp
  | cons d pattern ih =>
      rw [List.mem_cons, not_or] at hopen
      cases s with
      | nil => rfl
      | cons c s =>
          rcases @Page.guardClosing_cons word c s with ⟨rfl, hguard⟩ | ⟨hsame, _⟩
          · simp [hguard, List.cons_prefix_cons, Ne.symm hopen.1]
          · rw [hsame, List.cons_prefix_cons, List.cons_prefix_cons, ih hopen.2]

/-- **Guarding keeps a pattern** that has no part in a guard, at as many places as before. -/
theorem places_guardClosing (hne : pattern ≠ []) (hopen : '<' ∉ pattern) (hguard : '\\' ∉ pattern) :
    places pattern (guardClosing word s) = places pattern s := by
  induction s with
  | nil => rfl
  | cons c s ih =>
      rcases @Page.guardClosing_cons word c s with ⟨rfl, hsame⟩ | ⟨hsame, _⟩
      · rw [hsame, places_skip hne hopen, places_skip hne hguard, places_skip hne hopen, ih]
      · have hhead : pattern <+: c :: guardClosing word s ↔ pattern <+: c :: s := by
          rw [← hsame]
          exact prefix_guardClosing_iff hopen
        rw [hsame, places_cons, places_cons, ih]
        simp only [hhead]

end Text

namespace Page

variable {guarded : List Char} {code : String}

/-! ### Sections -/

def sectionStart : List Char := ['<', '!', '[', 'C', 'D', 'A', 'T', 'A', '[']

def sectionEnd : List Char := [']', ']', '>']

/-- What a reader of XML sees of a text that opens with a section: everything up to the first end. -/
def Shows (s shown : List Char) : Prop :=
  ∃ behind, s = sectionStart ++ shown ++ sectionEnd ++ behind ∧
    ¬ sectionEnd <:+: shown ++ sectionEnd.dropLast

/-- The text between the opening and the closing tag of a script element with a section. -/
def sectionBody (guarded : List Char) : List Char :=
  ['/', '/'] ++ sectionStart ++ ['\n'] ++ guarded ++ ['\n', '/', '/'] ++ sectionEnd

/-- In the lines around a code no end arises but the last one. -/
theorem places_sectionBody (guarded : List Char) :
    places sectionEnd (sectionBody guarded) = places sectionEnd guarded + 1 := by
  have hne : sectionEnd ≠ [] := by decide
  have hline : '\n' ∉ sectionEnd := by decide
  have hfront : places sectionEnd (['/', '/'] ++ sectionStart) = 0 := by decide
  have hend : places sectionEnd ('\n' :: '/' :: '/' :: sectionEnd) = 1 := by decide
  have hsplit : sectionBody guarded
      = (['/', '/'] ++ sectionStart) ++ '\n' :: (guarded ++ '\n' :: '/' :: '/' :: sectionEnd) := by
    simp [sectionBody]
  rw [hsplit, places_append hne hline, places_skip hne hline, places_append hne hline, hfront, hend,
    Nat.zero_add]

/-- The section shows all of its lines exactly when there is no end in the code. -/
theorem shows_iff : Shows (sectionStart ++ ['\n'] ++ guarded ++ ['\n', '/', '/'] ++ sectionEnd)
    (['\n'] ++ guarded ++ ['\n', '/', '/']) ↔ ¬ sectionEnd <:+: guarded := by
  have hne : sectionEnd ≠ [] := by decide
  have hline : '\n' ∉ sectionEnd := by decide
  have hend : places sectionEnd ('\n' :: '/' :: '/' :: sectionEnd.dropLast) = 0 := by decide
  have hsplit : ['\n'] ++ guarded ++ ['\n', '/', '/'] ++ sectionEnd.dropLast
      = '\n' :: (guarded ++ '\n' :: '/' :: '/' :: sectionEnd.dropLast) := by
    simp
  have hlines : places sectionEnd (['\n'] ++ guarded ++ ['\n', '/', '/'] ++ sectionEnd.dropLast)
      = places sectionEnd guarded := by
    rw [hsplit, places_skip hne hline, places_append hne hline, hend, Nat.add_zero]
  rw [← places_eq_zero_iff, ← hlines, places_eq_zero_iff]
  constructor
  · rintro ⟨_, _, h⟩
    exact h
  · intro h
    exact ⟨[], by simp, h⟩

theorem toList_elementBody_cdata (code : String) :
    (elementBody code true).toList = sectionBody (guardClosing scriptName code.toList) := by
  have hopen : "//<![CDATA[\n".toList = ['/', '/'] ++ sectionStart ++ ['\n'] := by decide +kernel
  have hclose : "\n//]]>".toList = ['\n', '/', '/'] ++ sectionEnd := by decide +kernel
  rw [elementBody, if_pos rfl, String.toList_append, String.toList_append, hopen, hclose, guardScript,
    String.toList_ofList, sectionBody, List.append_assoc _ ['\n', '/', '/']]

/-- **The ends of a section.**  Between the opening and the closing tag of a script element with a section
stand the two lines of the section and the guarded code between them, whatever the tag is.  There `]]>`
stands once for the section and once for each time it stands in the code; so it stands there just once,
and a reader of XML sees the whole code, exactly when the code does not hold it. -/
theorem sectionEnds_scriptElement (t : Tag) (code : String) :
    ∃ guarded, Guarded scriptName code.toList guarded ∧
      (scriptElement t code true).toList
        = '<' :: scriptName ++ ((keptAttributes t).flatMap fun a => a.text.toList)
          ++ '>' :: (sectionBody guarded ++ '<' :: '/' :: scriptName ++ ['>']) ∧
      places sectionEnd (sectionBody guarded) = places sectionEnd code.toList + 1 ∧
      (places sectionEnd (sectionBody guarded) = 1 ↔ ¬ sectionEnd <:+: code.toList) ∧
      (Shows (sectionStart ++ ['\n'] ++ guarded ++ ['\n', '/', '/'] ++ sectionEnd)
        (['\n'] ++ guarded ++ ['\n', '/', '/']) ↔ ¬ sectionEnd <:+: code.toList) := by
  have hkept : places sectionEnd (guardClosing scriptName code.toList) = places sectionEnd code.toList :=
    places_guardClosing (by decide) (by decide) (by decide)
  have hcount := places_sectionBody (guardClosing scriptName code.toList)
  rw [hkept] at hcount
  refine ⟨guardClosing scriptName code.toList, guarded_guardClosing isPlain_scriptName _, ?_, hcount, ?_, ?_⟩
  · rw [toList_scriptElement, toList_elementBody_cdata]
  · rw [hcount, ← places_eq_zero_iff]
    omega
  · rw [shows_iff, ← places_eq_zero_iff, hkept, places_eq_zero_iff]

/-- Two brackets and a comparison in the code end the section early. -/
theorem comparison_ends_section :
    scriptElement ⟨.script, 0, 0, [], ""⟩ "a[b[0]]>c" true
      = "<script>" ++ String.ofList (sectionBody "a[b[0]]>c".toList) ++ "</script>" ∧
    places sectionEnd (sectionBody "a[b[0]]>c".toList) = 2 ∧
    Shows (sectionStart ++ ['\n'] ++ "a[b[0]]>c".toList ++ ['\n', '/', '/'] ++ sectionEnd) "\na[b[0".toList :=
  ⟨by decide +kernel, by decide +kernel, "c\n//]]>".toList, by decide +kernel, by decide +kernel⟩

end Page

end Pagefold
