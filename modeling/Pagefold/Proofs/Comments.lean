import Mathlib.Data.List.Infix
import Pagefold.Page.Stylesheet

/-! # Comments of a stylesheet

`labelled` reads a stylesheet character by character and tells of each whether it is part of the code, of a
string or of a comment.  Stripping, which jumps over strings and comments, keeps just the characters that are
no part of a comment (`stripComments_eq`).

A slash and an asterisk of the code that nothing but comments stood between come to stand side by side, and
then open a comment (`hasComment_kept_iff`).  That is the only way in which a comment gets into a stripped
stylesheet, so without it stripping again changes nothing (`stripped_again_iff`). -/

namespace Pagefold.Page

/-! ### Regions -/

/-- What a character of a stylesheet is part of. -/
inductive Region where
  | code
  | string (quote : Char)
  | comment
deriving DecidableEq, Repr

variable {r : Region} {s : List Char} {c quote : Char}

/-- The region behind a character of code. -/
def Region.behind (c : Char) : Region := if c = '"' ∨ c = '\'' then .string c else .code

/-- The characters of a text that begins in a region, each with the region that it is part of.  The quote
that opens a string is code.  A backslash in a string takes the next character with it, and a comment ends
at the first `*/` behind its opening. -/
def labelled : Region → List Char → List (Region × Char)
  | _, [] => []
  | .code, '/' :: '*' :: s => (.comment, '/') :: (.comment, '*') :: labelled .comment s
  | .code, c :: s => (.code, c) :: labelled (.behind c) s
  | .string quote, '\\' :: c :: s =>
    (.string quote, '\\') :: (.string quote, c) :: labelled (.string quote) s
  | .string quote, c :: s => (.string quote, c) :: labelled (if c = quote then .code else .string quote) s
  | .comment, '*' :: '/' :: s => (.comment, '*') :: (.comment, '/') :: labelled .code s
  | .comment, c :: s => (.comment, c) :: labelled .comment s

/-- The characters that are no part of a comment. -/
def kept (r : Region) (s : List Char) : List Char :=
  ((labelled r s).filter fun x => x.1 ≠ .comment).map (·.2)

/-- Every character gets a label. -/
theorem map_snd_labelled (r : Region) (s : List Char) : (labelled r s).map (·.2) = s := by
  fun_induction labelled r s <;> simp_all

@[simp] theorem kept_nil (r : Region) : kept r [] = [] := by simp [kept, labelled]

theorem kept_opening (s : List Char) : kept .code ('/' :: '*' :: s) = kept .comment s := by
  simp [kept, labelled]

theorem kept_code (h : ∀ rest, c = '/' → s = '*' :: rest → False) :
    kept .code (c :: s) = c :: kept (.behind c) s := by
  simp [kept, labelled.eq_3 _ _ h]

theorem kept_escape (quote c : Char) (s : List Char) :
    kept (.string quote) ('\\' :: c :: s) = '\\' :: c :: kept (.string quote) s := by
  simp [kept, labelled]

theorem kept_string (h : ∀ c' rest, c = '\\' → s = c' :: rest → False) :
    kept (.string quote) (c :: s) = c :: kept (if c = quote then .code else .string quote) s := by
  simp [kept, labelled.eq_5 _ _ _ h]

theorem kept_closing (s : List Char) : kept .comment ('*' :: '/' :: s) = kept .code s := by
  simp [kept, labelled]

theorem kept_comment (h : ∀ rest, c = '*' → s = '/' :: rest → False) :
    kept .comment (c :: s) = kept .comment s := by
  simp [kept, labelled.eq_7 _ _ h]

/-! ### Stripping -/

/-- Strings are jumped over and kept. -/
theorem passString_kept (quote : Char) (front s : List Char) :
    (passString quote front s).1.reverse ++ kept .code (passString quote front s).2
      = front.reverse ++ kept (.string quote) s := by
  fun_induction passString quote front s with
  | case1 => rfl
  | case2 front c rest ih => rw [ih, kept_escape]; simp
  | case3 front c rest h hquote =>
      rw [kept_string h, if_pos (beq_iff_eq.1 hquote)]
      simp
  | case4 front c rest h hquote ih =>
      rw [ih, kept_string h, if_neg (by simpa using hquote)]
      simp

/-- Comments are jumped over. -/
theorem kept_afterComment (s : List Char) : kept .code (afterComment s) = kept .comment s := by
  fun_induction afterComment s with
  | case1 rest => rw [kept_closing]
  | case2 c rest h ih => rw [ih, kept_comment h]
  | case3 => rfl

theorem stripCommentsFrom_eq (front s : List Char) :
    stripCommentsFrom front s = front.reverse ++ kept .code s := by
  fun_induction stripCommentsFrom front s with
  | case1 => simp
  | case2 front rest ih => rw [ih, kept_afterComment, kept_opening]
  | case3 front c rest h hquote ih =>
      have hbehind : Region.behind c = .string c := if_pos (by simpa using hquote)
      rw [ih, passString_kept, kept_code h, hbehind]
      simp
  | case4 front c rest h hquote ih =>
      have hbehind : Region.behind c = .code := if_neg (by simpa using hquote)
      rw [ih, kept_code h, hbehind]
      simp

/-- **What stripping keeps**: all that is no part of a comment. -/
theorem stripComments_eq (css : String) : stripComments css = String.ofList (kept .code css.toList) := by
  rw [stripComments, stripCommentsFrom_eq]
  rfl

/-! ### Comments that arise -/

/-- Some character of a text is part of a comment. -/
def HasComment (r : Region) (s : List Char) : Prop := ∃ x ∈ labelled r s, x.1 = .comment

/-- Between a slash and an asterisk of the code stand comments only. -/
def Fuses (l : List (Region × Char)) : Prop :=
  ∃ front between back, l = front ++ (.code, '/') :: (between ++ (.code, '*') :: back) ∧
    ∀ x ∈ between, x.1 = .comment

theorem fuses_cons_iff {x : Region × Char} {l : List (Region × Char)} : Fuses (x :: l) ↔
    x = (.code, '/') ∧ (∃ between back, l = between ++ (.code, '*') :: back ∧ ∀ y ∈ between, y.1 = .comment) ∨
      Fuses l := by
  constructor
  · rintro ⟨front, between, back, hl, hbetween⟩
    cases front with
    | nil =>
        obtain ⟨rfl, rfl⟩ := List.cons.inj hl
        exact .inl ⟨rfl, between, back, rfl, hbetween⟩
    | cons y front =>
        obtain ⟨rfl, rfl⟩ := List.cons.inj hl
        exact .inr ⟨front, between, back, rfl, hbetween⟩
  · rintro (⟨rfl, between, back, rfl, hbetween⟩ | ⟨front, between, back, rfl, hbetween⟩)
    · exact ⟨[], between, back, rfl, hbetween⟩
    · exact ⟨x :: front, between, back, rfl, hbetween⟩

/-- Behind code and comments, what comes first is code. -/
theorem code_of_find? {x : Region × Char} (hr : r = .code ∨ r = .comment)
    (h : (labelled r s).find? (fun x => x.1 ≠ .comment) = some x) : x.1 = .code := by
  fun_induction labelled r s with
  | case1 => cases h
  | case2 s ih => exact ih (.inr rfl) (by simpa using h)
  | case3 c s _ =>
      obtain rfl : (Region.code, c) = x := by simpa using h
      rfl
  | case4 | case5 => simp at hr
  | case6 s ih => exact ih (.inl rfl) (by simpa using h)
  | case7 c s _ ih => exact ih (.inr rfl) (by simpa using h)

/-- What is kept of code begins with an asterisk where comments at most stand in front of one. -/
theorem head?_kept_iff : (kept .code s).head? = some '*' ↔
    ∃ between back, labelled .code s = between ++ (.code, '*') :: back ∧ ∀ x ∈ between, x.1 = .comment := by
  rw [kept, List.head?_map, List.head?_filter]
  constructor
  · intro h
    obtain ⟨⟨region, d⟩, hfind, rfl⟩ := Option.map_eq_some_iff.1 h
    obtain rfl : region = .code := code_of_find? (.inl rfl) hfind
    obtain ⟨_, between, back, hl, hbetween⟩ := List.find?_eq_some_iff_append.1 hfind
    exact ⟨between, back, hl, fun x hx => by simpa using hbetween x hx⟩
  · rintro ⟨between, back, hl, hbetween⟩
    have hfind : (labelled .code s).find? (fun x => x.1 ≠ .comment) = some (.code, '*') :=
      List.find?_eq_some_iff_append.2
        ⟨by simp, between, back, hl, fun x hx => by simpa using hbetween x hx⟩
    rw [hfind]
    rfl

/-- The region in which the text that is kept goes on. -/
def Region.again : Region → Region
  | comment => code
  | r => r

theorem Region.again_behind (c : Char) : (behind c).again = behind c := by
  unfold behind
  split <;> rfl

theorem not_hasComment_nil (r : Region) : ¬ HasComment r [] := by simp [HasComment, labelled]

theorem not_fuses_nil : ¬ Fuses [] := by
  rintro ⟨front, between, back, hl, _⟩
  simp at hl

theorem fuses_cons_of_ne {x : Region × Char} {l : List (Region × Char)} (hx : x.1 ≠ .code) :
    Fuses (x :: l) ↔ Fuses l := by
  rw [fuses_cons_iff, or_iff_right]
  rintro ⟨rfl, _⟩
  exact hx rfl

/-- A character that opens no comment is code, and no part of one. -/
theorem hasComment_code (h : ∀ rest, c = '/' → s = '*' :: rest → False) :
    HasComment .code (c :: s) ↔ HasComment (.behind c) s := by
  simp [HasComment, labelled.eq_3 _ _ h]

theorem hasComment_string (h : ∀ c' rest, c = '\\' → s = c' :: rest → False) :
    HasComment (.string quote) (c :: s) ↔ HasComment (if c = quote then .code else .string quote) s := by
  simp [HasComment, labelled.eq_5 _ _ _ h]

/-- **Where comments arise**: what is kept of a text has a comment exactly where a slash and an asterisk
fuse. -/
theorem hasComment_kept_iff (r : Region) (s : List Char) :
    HasComment r.again (kept r s) ↔ Fuses (labelled r s) := by
  fun_induction labelled r s with
  | case1 r => simp [not_hasComment_nil, not_fuses_nil]
  | case2 s ih =>
      rw [kept_opening, fuses_cons_of_ne (by simp), fuses_cons_of_ne (by simp)]
      exact ih
  | case3 c s h ih =>
      rw [kept_code h, fuses_cons_iff]
      by_cases hfuse : c = '/' ∧ (kept (.behind c) s).head? = some '*'
      · obtain ⟨rfl, hhead⟩ := hfuse
        obtain ⟨rest, hrest⟩ := List.head?_eq_some_iff.1 hhead
        have hopens : HasComment .code ('/' :: '*' :: rest) := ⟨(.comment, '/'), by simp [labelled], rfl⟩
        rw [hrest]
        exact iff_of_true hopens (.inl ⟨rfl, head?_kept_iff.1 hhead⟩)
      · have hapart : ∀ rest, c = '/' → kept (.behind c) s = '*' :: rest → False :=
          fun rest hc hrest => hfuse ⟨hc, by rw [hrest]; rfl⟩
        rw [Region.again_behind] at ih
        rw [or_iff_right, ← ih]
        · exact hasComment_code hapart
        · rintro ⟨hx, hfused⟩
          obtain rfl : c = '/' := congrArg Prod.snd hx
          exact hfuse ⟨rfl, head?_kept_iff.2 hfused⟩
  | case4 quote c s ih =>
      rw [kept_escape, fuses_cons_of_ne (by simp), fuses_cons_of_ne (by simp), ← ih]
      simp [HasComment, Region.again, labelled]
  | case5 quote c s h ih =>
      have hlast : ∀ c' rest, c = '\\' →
          kept (if c = quote then .code else .string quote) s = c' :: rest → False := by
        intro c' rest hc hrest
        cases s with
        | nil => simp at hrest
        | cons d s => exact h d s hc rfl
      have hagain : (if c = quote then Region.code else .string quote).again
          = if c = quote then .code else .string quote := by
        split <;> rfl
      rw [hagain] at ih
      rw [kept_string h, fuses_cons_of_ne (by simp), ← ih]
      exact hasComment_string hlast
  | case6 s ih =>
      rw [kept_closing, fuses_cons_of_ne (by simp), fuses_cons_of_ne (by simp)]
      exact ih
  | case7 c s h ih =>
      rw [kept_comment h, fuses_cons_of_ne (by simp)]
      exact ih

/-- All is kept of a text without comments, and of no other one. -/
theorem kept_eq_self_iff : kept r s = s ↔ ¬ HasComment r s := by
  have hsplit : kept r s = s ↔ (labelled r s).filter (fun x => x.1 ≠ .comment) = labelled r s := by
    constructor
    · intro h
      refine List.filter_sublist.eq_of_length ?_
      have hlength := congrArg List.length h
      rw [kept, List.length_map] at hlength
      rw [hlength, ← congrArg List.length (map_snd_labelled r s), List.length_map]
    · intro h
      rw [kept, h, map_snd_labelled]
  rw [hsplit, List.filter_eq_self]
  simp only [HasComment, not_exists, not_and, decide_eq_true_eq, ne_eq]

/-- **Stripping again**: a stripped stylesheet has a comment, and stripping it again changes it, exactly
where a slash and an asterisk of the code fuse in the stylesheet. -/
theorem stripped_again_iff (css : String) :
    (HasComment .code (stripComments css).toList ↔ Fuses (labelled .code css.toList)) ∧
      (stripComments (stripComments css) = stripComments css ↔ ¬ Fuses (labelled .code css.toList)) := by
  have hcomment : HasComment .code (stripComments css).toList ↔ Fuses (labelled .code css.toList) := by
    rw [stripComments_eq, String.toList_ofList]
    exact hasComment_kept_iff .code css.toList
  refine ⟨hcomment, ?_⟩
  rw [← hcomment, ← kept_eq_self_iff, stripComments_eq (stripComments css), ← String.toList_inj,
    String.toList_ofList]

/-- Two slashes, an empty comment, and what was no comment behind it. -/
theorem fusedSlash_opens :
    stripComments "//**/*x*/" = "/*x*/" ∧ stripComments (stripComments "//**/*x*/") = "" := by
  decide +kernel

end Pagefold.Page
