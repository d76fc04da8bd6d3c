import Mathlib.Data.List.Infix
import Pagefold.Build.Disk
import Pagefold.Proofs.Bytes

/-! # Reduced paths

The text of a path and its steps say the same once the path is reduced: the steps of `ofSteps rooted l`
are `l` again (`steps_ofSteps`).  A reduced path first climbs and then goes down by names, and one from
the root does not climb (`isReduced_reduced`); steps of that form are not reduced any further
(`IsReduced.foldl_walk`), so reducing twice is reducing once (`clean_clean`), and what is reduced has no
more bytes (`byteSize_clean_le`).  By names alone a path and the reduced path lead to the same place, from
wherever they are followed (`resolve_reducedPath`). -/

namespace Pagefold

namespace Path

open Text

variable {a b s step : List Char} {l back : List (List Char)} {rooted : Bool}

/-! ### Steps and texts -/

/-- The step to the directory above. -/
abbrev up : List Char := ['.', '.']

/-- A step that counts: not empty, not `.`, and without slashes. -/
structure IsStep (step : List Char) : Prop where
  ne_nil : step ≠ []
  ne_dot : step ≠ ['.']
  no_slash : '/' ∉ step

/-- A step down. -/
structure IsName (step : List Char) : Prop extends IsStep step where
  ne_up : step ≠ up

theorem IsStep.eq_up_or_isName (h : IsStep step) : step = up ∨ IsName step := by
  by_cases hup : step = up
  · exact .inl hup
  · exact .inr ⟨h, hup⟩

theorem IsStep.ne_root (h : IsStep step) : step ≠ ['/'] := by
  rintro rfl
  exact h.no_slash List.mem_cons_self

theorem no_slash_of_mem_splitOn (h : step ∈ s.splitOn '/') : '/' ∉ step := by
  induction s generalizing step with
  | nil =>
      rw [List.splitOn_nil, List.mem_singleton] at h
      simp [h]
  | cons c s ih =>
      rw [List.splitOn_cons_eq_if_modifyHead] at h
      split at h
      · rcases List.mem_cons.1 h with rfl | h
        · exact List.not_mem_nil
        · exact ih h
      · rename_i hc
        cases hsplit : s.splitOn '/' with
        | nil => exact absurd hsplit (List.splitOn_ne_nil _ _)
        | cons first rest =>
            rw [hsplit] at h ih
            rcases List.mem_cons.1 h with rfl | h
            · have hfirst := ih List.mem_cons_self
              rw [List.mem_cons, not_or]
              exact ⟨fun he => hc (by simp [← he]), hfirst⟩
            · exact ih (List.mem_cons_of_mem _ h)

theorem isStep_of_mem_steps (h : step ∈ steps s) : IsStep step := by
  obtain ⟨hsplit, hkept⟩ := List.mem_filter.1 h
  rw [Bool.and_eq_true, Bool.not_eq_true', bne_iff_ne] at hkept
  exact ⟨by simpa using hkept.1, hkept.2, no_slash_of_mem_splitOn hsplit⟩

theorem steps_append_cons (a b : List Char) : steps (a ++ '/' :: b) = steps a ++ steps b := by
  rw [steps, List.splitOn_append_cons_self, List.filter_append]
  rfl

theorem splitOn_intercalate (h : ∀ step ∈ l, IsStep step) (hne : l ≠ []) :
    (['/'].intercalate l).splitOn '/' = l :=
  List.splitOn_intercalate '/' (fun step hstep => (h step hstep).no_slash) hne

theorem steps_intercalate (h : ∀ step ∈ l, IsStep step) : steps (['/'].intercalate l) = l := by
  cases l with
  | nil => rfl
  | cons first rest =>
      rw [steps, splitOn_intercalate h (List.cons_ne_nil _ _), List.filter_eq_self]
      intro step hstep
      simp [(h step hstep).ne_nil, (h step hstep).ne_dot]

theorem steps_ofSteps (h : ∀ step ∈ l, IsStep step) : steps (ofSteps rooted l) = l := by
  unfold ofSteps
  split
  · rw [← List.nil_append ('/' :: _), steps_append_cons, steps_intercalate h]
    rfl
  · split
    · rename_i hempty
      rw [List.isEmpty_iff.1 hempty]
      rfl
    · exact steps_intercalate h

theorem isRooted_intercalate (h : ∀ step ∈ l, IsStep step) : isRooted (['/'].intercalate l) = false := by
  cases l with
  | nil => rfl
  | cons first rest =>
      have hfirst := h first List.mem_cons_self
      cases first with
      | nil => exact absurd rfl hfirst.ne_nil
      | cons c first =>
          have hc : c ≠ '/' := fun he => hfirst.no_slash (by simp [he])
          cases rest with
          | nil => simpa [isRooted] using hc
          | cons next rest => simpa [isRooted, List.intercalate] using hc

theorem isRooted_ofSteps (h : ∀ step ∈ l, IsStep step) : isRooted (ofSteps rooted l) = rooted := by
  unfold ofSteps
  cases rooted with
  | true => rfl
  | false =>
      rw [if_neg (by simp)]
      split
      · rfl
      · exact isRooted_intercalate h

/-- The parts of a path from its steps.  Only a relative path without steps has the part `.`. -/
theorem parts_ofSteps (h : ∀ step ∈ l, IsStep step) :
    parts (ofSteps rooted l) = if rooted then ['/'] :: l else if l = [] then [['.']] else l := by
  rw [parts, isRooted_ofSteps h, steps_ofSteps h]
  cases rooted with
  | true => rfl
  | false =>
      by_cases hl : l = []
      · subst hl
        rfl
      · have htext : ofSteps false l = ['/'].intercalate l := by
          rw [ofSteps, if_neg (by simp), if_neg (by simpa using hl)]
        have hsplit := splitOn_intercalate h hl
        have hnot : ['.'] ∉ l := fun hdot => (h _ hdot).ne_dot rfl
        -- A leading `.` would be the first step.
        have hdot : ¬ (['/'].intercalate l = ['.'] ∨ ['.', '/'] <+: ['/'].intercalate l) := by
          rintro (hdot | ⟨rest, hdot⟩)
          · rw [hdot] at hsplit
            exact hnot (hsplit ▸ List.mem_cons_self)
          · rw [← hdot, show ['.', '/'] ++ rest = ['.'] ++ '/' :: rest from rfl,
              List.splitOn_append_cons_self] at hsplit
            exact hnot (hsplit ▸ List.mem_append_left _ List.mem_cons_self)
        rw [htext]
        simpa [hl] using hdot

theorem suffix_intercalate (sep name : List Char) (steps : List (List Char)) :
    name <:+ sep.intercalate (steps ++ [name]) := by
  induction steps with
  | nil => simp
  | cons step steps ih =>
      refine ih.trans ⟨step ++ sep, ?_⟩
      cases steps with
      | nil => simp [List.intercalate]
      | cons next steps => simp [List.intercalate]

theorem mem_intercalate {c : Char} (h : c ∈ ['/'].intercalate l) : c = '/' ∨ ∃ step ∈ l, c ∈ step := by
  induction l with
  | nil => cases h
  | cons step l ih =>
      cases l with
      | nil => exact .inr ⟨step, List.mem_cons_self, by simpa using h⟩
      | cons next rest =>
          rw [List.intercalate_cons_cons, List.append_assoc, List.mem_append, List.singleton_append,
            List.mem_cons] at h
          rcases h with h | rfl | h
          · exact .inr ⟨step, List.mem_cons_self, h⟩
          · exact .inl rfl
          · exact (ih h).imp_right fun ⟨x, hx, hc⟩ => ⟨x, List.mem_cons_of_mem _ hx, hc⟩

theorem mem_ofSteps {c : Char} (h : c ∈ ofSteps rooted l) : c = '/' ∨ c = '.' ∨ ∃ step ∈ l, c ∈ step := by
  unfold ofSteps at h
  split at h
  · rcases List.mem_cons.1 h with rfl | h
    · exact .inl rfl
    · exact (mem_intercalate h).imp_right .inr
  · split at h
    · exact .inr (.inl (List.mem_singleton.1 h))
    · exact (mem_intercalate h).imp_right .inr

/-- The text of steps does not end in a slash. -/
theorem getLast?_ofSteps_ne (h : ∀ step ∈ l, IsStep step) (hl : l ≠ []) :
    (ofSteps rooted l).getLast? ≠ some '/' := by
  obtain ⟨front, last, rfl⟩ := l.eq_nil_or_concat'.resolve_left hl
  have hlast := h last (List.mem_append_right _ List.mem_cons_self)
  have hsuffix : last <:+ ofSteps rooted (front ++ [last]) := by
    have hend := suffix_intercalate ['/'] last front
    unfold ofSteps
    split
    · exact hend.trans (List.suffix_cons _ _)
    · rw [if_neg (by simp)]
      exact hend
  obtain ⟨before, hbefore⟩ := hsuffix
  rw [← hbefore, List.getLast?_append_of_ne_nil _ hlast.ne_nil]
  intro hslash
  exact hlast.no_slash (List.mem_of_getLast? hslash)

/-- The text of steps is cut at its slashes into the steps.  In front of the first slash of a rooted path
stands nothing. -/
theorem splitOn_ofSteps (h : ∀ step ∈ l, IsStep step) : (ofSteps rooted l).splitOn '/'
    = if l = [] then (if rooted then [[], []] else [['.']]) else (if rooted then [] :: l else l) := by
  unfold ofSteps
  by_cases hl : l = []
  · subst hl
    cases rooted with
    | true => decide
    | false => decide
  · rw [if_neg hl]
    cases rooted with
    | true =>
        have hsplit := List.splitOn_append_cons_self (a := '/') [] (['/'].intercalate l)
        rw [splitOn_intercalate h hl] at hsplit
        exact hsplit
    | false =>
        rw [if_neg Bool.false_ne_true, if_neg (by simpa using hl), if_neg Bool.false_ne_true]
        exact splitOn_intercalate h hl

/-! ### Joined paths -/

theorem isRooted_join (a b : List Char) : isRooted (join a b) = (isRooted b || isRooted a) := by
  unfold join
  cases hb : isRooted b with
  | true => simp [hb]
  | false =>
      cases a with
      | nil => simpa [isRooted] using hb
      | cons c a =>
          rw [if_neg (by simp)]
          split <;> rfl

theorem steps_join (h : isRooted b = false) : steps (join a b) = steps a ++ steps b := by
  unfold join
  by_cases ha : a = []
  · subst ha
    simp [steps]
  · rw [if_neg (by simp [h, ha])]
    split
    · rename_i hlast
      obtain ⟨front, rfl⟩ := List.getLast?_eq_some_iff.1 (by simpa using hlast)
      rw [List.append_assoc, List.singleton_append, steps_append_cons, steps_append_cons]
      simp [steps]
    · exact steps_append_cons a b

/-! ### Reduced steps -/

/-- Steps that first climb and then go down by names.  From the root there is nothing to climb. -/
def IsReduced (rooted : Bool) (l : List (List Char)) : Prop :=
  ∃ climbs names, l = List.replicate climbs up ++ names ∧ (∀ name ∈ names, IsName name) ∧
    (rooted = true → climbs = 0)

theorem isStep_up : IsStep up := ⟨by decide, by decide, by decide⟩

theorem IsReduced.isStep (h : IsReduced rooted l) : ∀ step ∈ l, IsStep step := by
  obtain ⟨climbs, names, rfl, hnames, _⟩ := h
  intro step hstep
  rcases List.mem_append.1 hstep with hstep | hstep
  · rw [(List.mem_replicate.1 hstep).2]
    exact isStep_up
  · exact (hnames step hstep).toIsStep

theorem IsReduced.relative (h : IsReduced rooted l) : IsReduced false l := by
  obtain ⟨climbs, names, hl, hnames, _⟩ := h
  exact ⟨climbs, names, hl, hnames, by simp⟩

/-- Names can be put behind reduced steps. -/
theorem IsReduced.append_names {rest : List (List Char)} (h : IsReduced rooted l) (hrest : ∀ name ∈ rest, IsName name) :
    IsReduced rooted (l ++ rest) := by
  obtain ⟨climbs, names, rfl, hnames, hrooted⟩ := h
  refine ⟨climbs, names ++ rest, List.append_assoc _ _ _, fun x hx => ?_, hrooted⟩
  rcases List.mem_append.1 hx with hx | hx
  · exact hnames x hx
  · exact hrest x hx

theorem walk_of_ne (h : step ≠ up) : walk rooted back step = step :: back :=
  if_neg (by simpa using h)

theorem walk_up_nil : walk rooted [] up = if rooted then [] else [up] := rfl

theorem walk_up_up : walk rooted (up :: back) up = up :: up :: back := rfl

theorem walk_up_of_ne (h : step ≠ up) : walk rooted (step :: back) up = back := by
  rw [walk, if_pos (by simp)]
  exact if_neg (by simpa using h)

/-- One step leaves reduced steps reduced. -/
theorem IsReduced.walk (h : IsReduced rooted back.reverse) (hstep : IsStep step) :
    IsReduced rooted (walk rooted back step).reverse := by
  obtain ⟨climbs, names, hback, hnames, hrooted⟩ := h
  rcases hstep.eq_up_or_isName with rfl | hname
  · rcases names.eq_nil_or_concat with rfl | ⟨names, name, rfl⟩
    · rw [List.append_nil, List.reverse_eq_iff, List.reverse_replicate] at hback
      subst hback
      cases climbs with
      | zero =>
          rw [List.replicate_zero, walk_up_nil]
          cases rooted with
          | true => exact ⟨0, [], rfl, by simp, by simp⟩
          | false => exact ⟨1, [], rfl, by simp, by simp⟩
      | succ n =>
          rw [List.replicate_succ, walk_up_up, ← List.replicate_succ, ← List.replicate_succ,
            List.reverse_replicate]
          exact ⟨n + 2, [], by simp, by simp, fun hr => absurd (hrooted hr) (by simp)⟩
    · rw [List.concat_eq_append] at hback hnames
      rw [← List.append_assoc, List.reverse_eq_iff, List.reverse_append] at hback
      subst hback
      have hne := (hnames name (by simp)).ne_up
      rw [List.reverse_singleton, List.singleton_append, walk_up_of_ne hne, List.reverse_reverse]
      exact ⟨climbs, names, rfl, fun x hx => hnames x (List.mem_append_left _ hx), hrooted⟩
  · rw [walk_of_ne hname.ne_up, List.reverse_cons, hback, List.append_assoc]
    refine ⟨climbs, names ++ [step], rfl, fun x hx => ?_, hrooted⟩
    rcases List.mem_append.1 hx with hx | hx
    · exact hnames x hx
    · rw [List.mem_singleton.1 hx]
      exact hname

theorem IsReduced.foldl (h : IsReduced rooted back.reverse) (hl : ∀ step ∈ l, IsStep step) :
    IsReduced rooted (l.foldl (Path.walk rooted) back).reverse := by
  induction l generalizing back with
  | nil => exact h
  | cons step l ih =>
      exact ih (h.walk (hl step List.mem_cons_self)) fun x hx => hl x (List.mem_cons_of_mem _ hx)

/-- **The form of a reduced path.** -/
theorem isReduced_reduced (s : List Char) : IsReduced (isRooted s) (reduced s) :=
  IsReduced.foldl ⟨0, [], rfl, by simp, by simp⟩ fun _ => isStep_of_mem_steps

theorem foldl_walk_climbs (n m : Nat) :
    (List.replicate n up).foldl (walk false) (List.replicate m up) = List.replicate (n + m) up := by
  induction n generalizing m with
  | zero => rw [Nat.zero_add, List.replicate_zero, List.foldl_nil]
  | succ n ih =>
      have hwalk : walk false (List.replicate m up) up = List.replicate (m + 1) up := by
        cases m with
        | zero => rfl
        | succ m => rfl
      rw [List.replicate_succ, List.foldl_cons, hwalk, ih]
      congr 1
      omega

theorem foldl_walk_names (h : ∀ name ∈ l, IsName name) : l.foldl (walk rooted) back = l.reverse ++ back := by
  induction l generalizing back with
  | nil => rfl
  | cons name l ih =>
      rw [List.foldl_cons, walk_of_ne (h name List.mem_cons_self).ne_up,
        ih fun x hx => h x (List.mem_cons_of_mem _ hx)]
      simp

/-- Reduced steps stay as they are. -/
theorem IsReduced.foldl_walk (h : IsReduced rooted l) : l.foldl (Path.walk rooted) [] = l.reverse := by
  obtain ⟨climbs, names, rfl, hnames, hrooted⟩ := h
  have hclimbs : (List.replicate climbs up).foldl (Path.walk rooted) [] = List.replicate climbs up := by
    cases rooted with
    | true => rw [hrooted rfl]; rfl
    | false => exact foldl_walk_climbs climbs 0
  rw [List.foldl_append, hclimbs, foldl_walk_names hnames, List.reverse_append, List.reverse_replicate]

/-- What comes behind some reduced steps goes down, or the whole has only climbed so far. -/
theorem IsReduced.append_cases {rest : List (List Char)} (h : IsReduced rooted (l ++ rest)) :
    (∀ step ∈ rest, IsName step) ∨ (rooted = false ∧ (∀ step ∈ l, step = up) ∧ rest.head? = some up) := by
  obtain ⟨climbs, names, happend, hnames, hrooted⟩ := h
  rcases List.append_eq_append_iff.1 happend with ⟨between, hclimbs, rfl⟩ | ⟨between, rfl, rfl⟩
  · have hup : ∀ step ∈ l ++ between, step = up := by
      rw [← hclimbs]
      exact fun step hstep => (List.mem_replicate.1 hstep).2
    cases between with
    | nil => exact .inl hnames
    | cons step between =>
        refine .inr ⟨?_, fun x hx => hup x (List.mem_append_left _ hx), ?_⟩
        · rw [← Bool.not_eq_true]
          intro hr
          rw [hrooted hr] at hclimbs
          simp at hclimbs
        · rw [List.cons_append, List.head?_cons, hup step (by simp)]
  · exact .inl fun step hstep => hnames step (List.mem_append_right _ hstep)

/-! ### Reduced texts -/

@[simp] theorem steps_clean (s : List Char) : steps (clean s) = reduced s :=
  steps_ofSteps (isReduced_reduced s).isStep

@[simp] theorem isRooted_clean (s : List Char) : isRooted (clean s) = isRooted s :=
  isRooted_ofSteps (isReduced_reduced s).isStep

@[simp] theorem reduced_clean (s : List Char) : reduced (clean s) = reduced s := by
  rw [reduced, isRooted_clean, steps_clean, (isReduced_reduced s).foldl_walk, List.reverse_reverse]

theorem clean_clean (s : List Char) : clean (clean s) = clean s := by
  rw [clean, isRooted_clean, reduced_clean, clean]

theorem parts_clean (s : List Char) : parts (clean s)
    = if isRooted s then ['/'] :: reduced s else if reduced s = [] then [['.']] else reduced s :=
  parts_ofSteps (isReduced_reduced s).isStep

/-- No step of a reduced path can be taken for the root or for `.`. -/
theorem ne_of_mem_reduced (h : step ∈ reduced s) : step ≠ ['/'] ∧ step ≠ ['.'] := by
  have hstep := (isReduced_reduced s).isStep step h
  exact ⟨hstep.ne_root, hstep.ne_dot⟩

theorem root_mem_parts_clean_iff : ['/'] ∈ parts (clean s) ↔ isRooted s = true := by
  rw [parts_clean]
  cases isRooted s with
  | true => simp
  | false =>
      by_cases hs : reduced s = []
      · simp [hs]
      · simpa [hs] using fun h => (ne_of_mem_reduced h).1 rfl

theorem parts_clean_of_relative (h : isRooted s = false) (hs : reduced s ≠ []) :
    parts (clean s) = reduced s := by
  rw [parts_clean, h, if_neg (by simp), if_neg hs]

theorem dot_mem_parts_clean_iff (h : isRooted s = false) :
    ['.'] ∈ parts (clean s) ↔ reduced s = [] := by
  constructor
  · intro hdot
    by_contra hs
    rw [parts_clean_of_relative h hs] at hdot
    exact (ne_of_mem_reduced hdot).2 rfl
  · intro hs
    simp [parts_clean, h, hs]

theorem parts_clean_ne_nil (s : List Char) : parts (clean s) ≠ [] := by
  intro h
  rw [parts_clean] at h
  split at h
  · cases h
  · split at h
    · cases h
    · contradiction

/-- Names in a path that is joined to another one come behind the reduced steps. -/
theorem reduced_join_names (hb : isRooted b = false) (h : ∀ name ∈ steps b, IsName name) :
    reduced (join a b) = reduced a ++ steps b := by
  rw [reduced, isRooted_join, hb, Bool.false_or, steps_join hb, List.foldl_append, foldl_walk_names h,
    List.reverse_append, List.reverse_reverse]
  rfl

theorem clean_join_names (hb : isRooted b = false) (h : ∀ name ∈ steps b, IsName name) :
    clean (join a b) = ofSteps (isRooted a) (reduced a ++ steps b) := by
  rw [clean, isRooted_join, hb, Bool.false_or, reduced_join_names hb h]

/-- Parts are written as the steps that they are. -/
theorem ofParts_eq (h : ∀ step ∈ l, IsStep step) (hl : l ≠ []) : ofParts l = ofSteps false l := by
  rw [ofSteps, if_neg Bool.false_ne_true, if_neg (by simpa using hl)]
  unfold ofParts
  split
  · exact absurd rfl (h _ List.mem_cons_self).ne_root
  · rfl

theorem ofParts_parts_ofSteps (h : ∀ step ∈ l, IsStep step) :
    ofParts (parts (ofSteps rooted l)) = ofSteps rooted l := by
  rw [parts_ofSteps h]
  cases rooted with
  | true => rfl
  | false =>
      by_cases hl : l = []
      · rw [hl]
        rfl
      · rw [if_neg Bool.false_ne_true, if_neg hl, ofParts_eq h hl]

/-- The path of the directory in which a reduced path lies. -/
theorem parent?_ofSteps (h : ∀ step ∈ l, IsStep step) (hl : l ≠ []) (hparent : rooted = true ∨ l.dropLast ≠ []) :
    parent? (ofSteps rooted l) = some (ofSteps rooted l.dropLast) := by
  unfold parent?
  dsimp only
  rw [parts_ofSteps h]
  cases rooted with
  | true =>
      rw [if_pos rfl, if_neg (by simpa using hl), List.dropLast_cons_of_ne_nil hl]
      rfl
  | false =>
      have hparent : l.dropLast ≠ [] := hparent.resolve_left Bool.false_ne_true
      have hnot : ¬ (l.isEmpty || l == [['/']]) = true := by
        rw [Bool.or_eq_true, List.isEmpty_iff, beq_iff_eq, not_or]
        refine ⟨hl, ?_⟩
        rintro rfl
        exact hparent rfl
      rw [if_neg Bool.false_ne_true, if_neg hl, if_neg hnot,
        ofParts_eq (fun x hx => h x (List.dropLast_subset l hx)) hparent]

/-! ### Sizes -/

/-- How many bytes steps take with a slash behind each. -/
def weight : List (List Char) → Nat
  | [] => 0
  | step :: rest => byteSize step + 1 + weight rest

@[simp] theorem weight_nil : weight [] = 0 := rfl

@[simp] theorem weight_cons (step : List Char) (l : List (List Char)) :
    weight (step :: l) = byteSize step + 1 + weight l := rfl

@[simp] theorem weight_append (l l' : List (List Char)) : weight (l ++ l') = weight l + weight l' := by
  induction l with
  | nil => simp
  | cons step l ih =>
      rw [List.cons_append, weight_cons, weight_cons, ih]
      omega

theorem byteSize_intercalate (h : l ≠ []) : byteSize (['/'].intercalate l) + 1 = weight l := by
  induction l with
  | nil => exact absurd rfl h
  | cons step l ih =>
      cases l with
      | nil => simp
      | cons next rest =>
          have hrest := ih (List.cons_ne_nil next rest)
          have hslash : ('/' : Char).utf8Size = 1 := by decide
          rw [List.intercalate_cons_cons, byteSize_append, byteSize_append, byteSize_cons, byteSize_nil, hslash]
          rw [weight_cons]
          omega

theorem weight_splitOn (s : List Char) : weight (s.splitOn '/') = byteSize s + 1 := by
  rw [← byteSize_intercalate (List.splitOn_ne_nil _ _), List.intercalate_splitOn]

theorem weight_filter_le (p : List Char → Bool) (l : List (List Char)) : weight (l.filter p) ≤ weight l := by
  induction l with
  | nil => exact Nat.le_refl _
  | cons step l ih =>
      rw [List.filter_cons]
      split
      · simp only [weight_cons]
        omega
      · simp only [weight_cons]
        omega

/-- The slash at the front of a rooted path is behind no step. -/
theorem weight_steps_le (s : List Char) : weight (steps s) ≤ byteSize s + if isRooted s then 0 else 1 := by
  cases hs : isRooted s with
  | false =>
      have hsplit := weight_filter_le (fun step => !step.isEmpty && step != ['.']) (s.splitOn '/')
      rw [weight_splitOn] at hsplit
      exact hsplit
  | true =>
      obtain ⟨rest, rfl⟩ : ∃ rest, s = '/' :: rest := by
        cases s with
        | nil => cases hs
        | cons c rest =>
            obtain rfl : c = '/' := by simpa [isRooted] using hs
            exact ⟨rest, rfl⟩
      have hsplit := weight_filter_le (fun step => !step.isEmpty && step != ['.']) (rest.splitOn '/')
      have hslash : ('/' : Char).utf8Size = 1 := by decide
      have hrest : steps ('/' :: rest) = steps rest := steps_append_cons [] rest
      rw [weight_splitOn] at hsplit
      rw [hrest, byteSize_cons, hslash, if_pos rfl]
      unfold steps
      omega

theorem weight_walk_le (rooted : Bool) (back : List (List Char)) (step : List Char) :
    weight (walk rooted back step) ≤ weight back + (byteSize step + 1) := by
  unfold walk
  split
  · split
    · split
      · exact Nat.zero_le _
      · simp
    · split
      · simp only [weight_cons]
        omega
      · simp only [weight_cons]
        omega
  · simp only [weight_cons]
    omega

theorem weight_foldl_walk_le (rooted : Bool) (back l : List (List Char)) :
    weight (l.foldl (walk rooted) back) ≤ weight back + weight l := by
  induction l generalizing back with
  | nil => exact Nat.le_refl _
  | cons step l ih =>
      have hstep := weight_walk_le rooted back step
      have hrest := ih (walk rooted back step)
      rw [List.foldl_cons, weight_cons]
      omega

theorem weight_reverse (l : List (List Char)) : weight l.reverse = weight l := by
  induction l with
  | nil => rfl
  | cons step l ih =>
      rw [List.reverse_cons, weight_append, weight_cons, weight_cons, weight_nil, ih]
      omega

theorem weight_reduced_le (s : List Char) : weight (reduced s) ≤ weight (steps s) := by
  have h := weight_foldl_walk_le (isRooted s) [] (steps s)
  rw [weight_nil, Nat.zero_add] at h
  rwa [reduced, weight_reverse]

theorem byteSize_ofSteps (rooted : Bool) (h : l ≠ []) :
    byteSize (ofSteps rooted l) + (if rooted then 0 else 1) = weight l := by
  have hslash : ('/' : Char).utf8Size = 1 := by decide
  have hsteps := byteSize_intercalate h
  unfold ofSteps
  cases rooted with
  | true =>
      rw [if_pos rfl, byteSize_cons, hslash, if_pos rfl]
      omega
  | false =>
      rw [if_neg Bool.false_ne_true, if_neg (by simpa using h)]
      exact hsteps

theorem byteSize_ofSteps_nil (rooted : Bool) : byteSize (ofSteps rooted []) = 1 := by
  cases rooted with
  | true => decide
  | false => decide

/-- **A reduced path is no longer.** -/
theorem byteSize_clean_le (h : s ≠ []) : byteSize (clean s) ≤ byteSize s := by
  unfold clean
  by_cases hl : reduced s = []
  · rw [hl, byteSize_ofSteps_nil]
    exact byteSize_pos h
  · have hsize := byteSize_ofSteps (isRooted s) hl
    have hreduced := weight_reduced_le s
    have hsteps := weight_steps_le s
    omega

theorem ofSteps_ne_nil (h : ∀ step ∈ l, IsStep step) : ofSteps rooted l ≠ [] := by
  intro hnil
  have hsteps : steps (ofSteps rooted l) = l := steps_ofSteps h
  rw [hnil] at hsteps
  have hl : l = [] := hsteps.symm
  subst hl
  cases rooted with
  | true => cases hnil
  | false => cases hnil

/-- A path with fewer steps is no longer. -/
theorem byteSize_ofSteps_le {l' : List (List Char)} (h : l' <+: l) (hl : ∀ step ∈ l, IsStep step) :
    byteSize (ofSteps rooted l') ≤ byteSize (ofSteps rooted l) := by
  by_cases hne : l' = []
  · rw [hne, byteSize_ofSteps_nil]
    exact byteSize_pos (ofSteps_ne_nil hl)
  · obtain ⟨rest, rfl⟩ := h
    have hfront := byteSize_ofSteps rooted hne
    have hwhole := byteSize_ofSteps rooted (List.append_ne_nil_of_left_ne_nil hne rest)
    rw [weight_append] at hwhole
    omega

end Path

/-! ### Places by name alone -/

namespace Place

open Pagefold.Path

variable {current : Place} {l back : List (List Char)} {rooted : Bool}

/-- One step further, by its name alone. -/
def next (place : Place) (step : List Char) : Place :=
  if step = up then place.dropLast else place ++ [String.ofList step]

/-- Where steps lead by their names alone. -/
def along (place : Place) (steps : List (List Char)) : Place := steps.foldl next place

/-- The place that a path names in the directory `current`. -/
def resolve (current : Place) (path : String) : Place :=
  along (if isRooted path.toList then [] else current) (steps path.toList)

/-- The place lies in the directory, or further down. -/
def Below (directory place : Place) : Prop := directory <+: place ∧ directory ≠ place

instance {directory place : Place} : Decidable (Below directory place) := inferInstanceAs (Decidable (_ ∧ _))

theorem along_append (place : Place) (l l' : List (List Char)) :
    along place (l ++ l') = along (along place l) l' :=
  List.foldl_append

theorem along_concat (place : Place) (l : List (List Char)) (step : List Char) :
    along place (l ++ [step]) = next (along place l) step :=
  along_append place l [step]

theorem along_climbs (place : Place) (n : Nat) :
    along place (List.replicate n up) = place.take (place.length - n) := by
  induction n with
  | zero => simp [along]
  | succ n ih =>
      rw [List.replicate_succ', along_concat, ih, next, if_pos rfl, List.dropLast_eq_take, List.take_take,
        List.length_take]
      congr 1
      omega

theorem along_names (place : Place) (h : ∀ name ∈ l, IsName name) :
    along place l = place ++ l.map String.ofList := by
  induction l generalizing place with
  | nil => simp [along]
  | cons name l ih =>
      show along (next place name) l = _
      rw [next, if_neg (h name List.mem_cons_self).ne_up, ih _ fun x hx => h x (List.mem_cons_of_mem _ hx)]
      simp

/-- On the way of reduced steps one is above the start, or above the end. -/
theorem along_front {front : List (List Char)} (hl : IsReduced rooted l) (hfront : front <+: l) (start : Place) :
    along start front <+: start ∨ ∃ more, along start l = along start front ++ more ∧ (front ≠ l → more ≠ []) := by
  obtain ⟨climbs, names, rfl, hnames, _⟩ := hl
  obtain ⟨rest, hrest⟩ := hfront
  rcases List.append_eq_append_iff.1 hrest with ⟨between, hclimbs, _⟩ | ⟨between, rfl, rfl⟩
  · refine .inl ?_
    have hup : ∀ step ∈ front, step = up := by
      intro step hstep
      have hmem : step ∈ List.replicate climbs up := hclimbs ▸ List.mem_append_left _ hstep
      exact (List.mem_replicate.1 hmem).2
    rw [List.eq_replicate_of_mem hup, along_climbs]
    exact List.take_prefix _ _
  · refine .inr ⟨rest.map String.ofList, ?_, fun hne => ?_⟩
    · rw [along_append, along_names _ hnames, along_append,
        along_names _ fun x hx => hnames x (List.mem_append_left _ hx), List.map_append, List.append_assoc]
    · rintro hnone
      rw [List.map_eq_nil_iff] at hnone
      exact hne (by rw [hnone, List.append_nil])

/-- One step by name alone, after the steps taken so far are reduced. -/
theorem along_walk {start : Place} (hstart : rooted = true → start = []) (step : List Char) :
    along start (walk rooted back step).reverse = next (along start back.reverse) step := by
  by_cases hstep : step = up
  · subst hstep
    cases back with
    | nil =>
        cases rooted with
        | true =>
            rw [hstart rfl]
            rfl
        | false => rfl
    | cons last back =>
        by_cases hlast : last = up
        · subst hlast
          rw [walk_up_up, List.reverse_cons, along_concat]
        · rw [walk_up_of_ne hlast, List.reverse_cons, along_concat, next, if_pos rfl, next, if_neg hlast,
            List.dropLast_concat]
  · rw [walk_of_ne hstep, List.reverse_cons, along_concat]

theorem along_foldl_walk {start : Place} (hstart : rooted = true → start = []) :
    along start (l.foldl (walk rooted) back).reverse = along (along start back.reverse) l := by
  induction l generalizing back with
  | nil => rfl
  | cons step l ih =>
      rw [List.foldl_cons, ih, along_walk hstart]
      rfl

theorem along_reduced (current : Place) (s : List Char) :
    along (if isRooted s then [] else current) (reduced s)
      = along (if isRooted s then [] else current) (steps s) := by
  rw [reduced, along_foldl_walk fun h => if_pos h]
  rfl

/-- The place that a reduced path names, by the steps that are left. -/
theorem resolve_clean (current : Place) (s : List Char) : resolve current (String.ofList (clean s))
    = along (if isRooted s then [] else current) (reduced s) := by
  rw [resolve, String.toList_ofList, isRooted_clean, steps_clean]

/-- **A path and the reduced path** name the same place. -/
theorem resolve_reducedPath (current : Place) (path : String) :
    resolve current (reducedPath path) = resolve current path := by
  rw [reducedPath, resolve_clean, along_reduced]
  rfl

end Place

end Pagefold
