import Pagefold.Page.Stylesheet
import Pagefold.Proofs.WrittenElements

/-! # A style element is closed once

Guarding leaves no closing tag in a stylesheet, but one could come about where the stylesheet meets the tags
around it.  None does: the opening tag brings no slash, and what a stylesheet ends with cannot go on with the
`<` of the closing tag.  So in a style element a closing tag begins at one place only, the last one
(`styleElement_closed_once`). -/

namespace Pagefold.Page

open Text

variable {word s back : List Char}

/-! ### Closing tags -/

/-- The closing tag of the element `word`. -/
def closing (word : List Char) : List Char := '<' :: '/' :: word ++ ['>']

theorem beginsClosing_closing (word : List Char) : BeginsClosing word (closing word) :=
  ⟨word, ['>'], spells_self word, rfl⟩

/-- A closing tag behind an unclosed text is the only one. -/
theorem beginsClosing_iff_of_unclosed (hs : Unclosed word s) (hword : Parts word '<') (hopen : '<' ∉ word)
    (hback : back <:+ s ++ closing word) : BeginsClosing word back ↔ back = closing word := by
  constructor
  · intro hbegins
    rcases Lists.suffix_append_cases hback with hback | ⟨y, hy, hne, rfl⟩
    · rcases List.suffix_cons_iff.1 hback with rfl | hinner
      · rfl
      · -- There is no second `<` in a closing tag.
        obtain ⟨name, rest, _, rfl⟩ := hbegins
        have hmem : '<' ∈ '/' :: word ++ ['>'] := hinner.subset List.mem_cons_self
        simp [hopen] at hmem
    · obtain ⟨name, rest, hname, heq⟩ := hbegins
      have hnone : dropCaseless? word (name ++ rest) = none := hs.dropCaseless? hword hy hne heq.symm
      rw [dropCaseless?_eq_some_iff.2 ⟨name, hname, rfl⟩] at hnone
      cases hnone
  · rintro rfl
    exact beginsClosing_closing word

/-! ### Style elements -/

/-- The name of the element that a stylesheet goes into. -/
def styleName : List Char := ['s', 't', 'y', 'l', 'e']

theorem toList_styleElement (css : String) : (styleElement css).toList
    = '<' :: styleName ++ ['>'] ++ guardClosing styleName css.toList ++ closing styleName := by
  have hopen : "<style>".toList = '<' :: styleName ++ ['>'] := by decide
  have hclose : "</style>".toList = closing styleName := by decide
  rw [styleElement, String.toList_append, String.toList_append, hopen, hclose, String.toList_ofList]
  rfl

/-- **A style element is closed once.**  Between its tags stands the guarded stylesheet, which has a backslash
more behind the `<` of each closing tag, and the only closing tag of the element is the last one, in whatever
case its name may be spelled. -/
theorem styleElement_closed_once (css : String) : ∃ guarded, Guarded styleName css.toList guarded ∧
    (styleElement css).toList = '<' :: styleName ++ ['>'] ++ guarded ++ closing styleName ∧
    ∀ back, back <:+ (styleElement css).toList →
      (BeginsClosing styleName back ↔ back = closing styleName) := by
  have hplain : IsPlain styleName := by decide
  refine ⟨_, guarded_guardClosing hplain css.toList, toList_styleElement css, fun back hback => ?_⟩
  have hbehind : Unclosed styleName (styleName ++ ['>'] ++ guardClosing styleName css.toList) :=
    (unclosed_guardClosing hplain css.toList).behind (by decide)
  have hfront : Unclosed styleName ('<' :: (styleName ++ ['>'] ++ guardClosing styleName css.toList)) :=
    hbehind.cons fun _ => by simp [styleName]
  rw [toList_styleElement] at hback
  exact beginsClosing_iff_of_unclosed hfront (by decide) (by decide) hback

/-- A long s is a letter of the name, and it stays as it is. -/
example : styleElement "</ſTyle" = "<style><\\/ſTyle</style>" := by decide +kernel

end Pagefold.Page
