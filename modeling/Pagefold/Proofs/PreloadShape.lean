import Mathlib.Data.List.DropRight
import Pagefold.Proofs.Bindings
import Pagefold.Proofs.Braces
import Pagefold.Proofs.ByteScan

/-! # What a preload call is made of

Feature tests, openers and ends of calls are texts of a certain shape (`IsTest`, `IsOpener`, `EndsCall`),
and the readers read just these.  A code has one last opener in front of its first feature test
(`OpensLast.unique`).  It is cut if the body that opens there ends behind the test and is called at once:
then the code is that of a `Preload`, which names the parts of a code around its preload call
(`stripPreload?_iff`), and otherwise it is left as it is. -/

namespace Pagefold.Page

open Text

variable {s r own before after : List Char} {c mark : Char}

/-! ### Tests and openers -/

def IsQuote (c : Char) : Prop := c = '"' ∨ c = '\''

/-- A feature test: blanks may stand around the string. -/
def IsTest (own : List Char) : Prop :=
  ∃ a b q q', Blanks a ∧ Blanks b ∧ IsQuote q ∧ IsQuote q' ∧
    own = "document.createElement(".toList ++ a ++ q :: "link".toList ++ q' :: b ++ ").relList".toList

/-- The head of a function, with what stands for its name up to the first parenthesis and all that
follows up to the first closing one. -/
def IsFunctionHead (own : List Char) : Prop :=
  ∃ name parameters, name.head?.any isWordChar = false ∧ '(' ∉ name ∧ ')' ∉ parameters ∧
    own = "function".toList ++ name ++ '(' :: parameters ++ [')']

/-- The head of an arrow without parameters. -/
def IsArrowHead (own : List Char) : Prop :=
  ∃ a b, Blanks a ∧ Blanks b ∧ own = '(' :: a ++ ')' :: b ++ "=>".toList

/-- What opens the body of a function in parentheses. -/
def IsOpener (own : List Char) : Prop :=
  ∃ a head b, Blanks a ∧ Blanks b ∧ (IsFunctionHead head ∨ IsArrowHead head) ∧
    own = '(' :: a ++ head ++ b ++ ['\x7b']

/-- What closes and calls a function whose body has ended, in front of `after`: blanks may stand before
the parentheses, and all spaces and tabs that follow belong to the call, and a semicolon behind them. -/
def EndsCall (ending after : List Char) : Prop :=
  ∃ a b c spaces, Blanks a ∧ Blanks b ∧ Blanks c ∧ (∀ x ∈ spaces, x = ' ' ∨ x = '\t') ∧
    (ending = a ++ ')' :: b ++ '(' :: c ++ ')' :: spaces ++ [';'] ∨
      ending = a ++ ')' :: b ++ '(' :: c ++ ')' :: spaces ∧ ∀ x ∈ after.head?, x ≠ ' ' ∧ x ≠ '\t' ∧ x ≠ ';')

/-! ### What is read -/

theorem skipBlanks_eq_cons_iff (hc : isBlank c = false) :
    skipBlanks s = c :: r ↔ ∃ gap, Blanks gap ∧ s = gap ++ c :: r := by
  constructor
  · intro h
    obtain ⟨gap, hgap, hs⟩ := exists_blanks s
    exact ⟨gap, hgap, by rw [← h]; exact hs⟩
  · rintro ⟨gap, hgap, rfl⟩
    rw [skipBlanks_append hgap, skipBlanks_cons hc]

theorem dropMark?_iff (hmark : isBlank mark = false) :
    dropMark? mark s = some r ↔ ∃ gap, Blanks gap ∧ s = gap ++ mark :: r :=
  dropMark?_eq_some_iff.trans (skipBlanks_eq_cons_iff hmark)

/-- A word behind blanks. -/
theorem isPrefixOf?_skipBlanks_iff {word : List Char} (hne : word ≠ [])
    (hword : word.head?.any isBlank = false) :
    word.isPrefixOf? (skipBlanks s) = some r ↔ ∃ gap, Blanks gap ∧ s = gap ++ (word ++ r) := by
  obtain ⟨c, word, rfl⟩ := List.exists_cons_of_ne_nil hne
  rw [List.isPrefixOf?_eq_some_iff_append_eq, eq_comm]
  exact skipBlanks_eq_cons_iff (by simpa using hword)

theorem dropQuote?_eq_some_iff : dropQuote? s = some r ↔ ∃ q, IsQuote q ∧ s = q :: r := by
  unfold dropQuote? IsQuote
  split
  · simp
  · simp
  · rename_i hdouble hsingle
    constructor
    · intro h
      cases h
    · rintro ⟨q, rfl | rfl, rfl⟩
      · exact absurd rfl (hdouble r)
      · exact absurd rfl (hsingle r)

theorem isBlank_of_isQuote (h : IsQuote c) : isBlank c = false := by
  rcases h with rfl | rfl <;> decide

theorem dropQuote?_skipBlanks_iff :
    dropQuote? (skipBlanks s) = some r ↔ ∃ gap q, Blanks gap ∧ IsQuote q ∧ s = gap ++ q :: r := by
  rw [dropQuote?_eq_some_iff]
  constructor
  · rintro ⟨q, hq, hs⟩
    obtain ⟨gap, hgap, hs⟩ := (skipBlanks_eq_cons_iff (isBlank_of_isQuote hq)).1 hs
    exact ⟨gap, q, hgap, hq, hs⟩
  · rintro ⟨gap, q, hgap, hq, hs⟩
    exact ⟨q, hq, (skipBlanks_eq_cons_iff (isBlank_of_isQuote hq)).2 ⟨gap, hgap, hs⟩⟩

/-- **Feature tests** are what is read as one. -/
theorem readMarker?_eq_some_iff : readMarker? s = some ((), r) ↔ ∃ own, IsTest own ∧ s = own ++ r := by
  have htail (s r : List Char) := @isPrefixOf?_skipBlanks_iff s r ").relList".toList (by decide) (by decide)
  simp only [readMarker?, Option.bind_eq_bind, Option.bind_eq_some_iff, Option.pure_def, Option.some.injEq,
    Prod.mk.injEq, true_and, htail, dropQuote?_skipBlanks_iff]
  simp only [List.isPrefixOf?_eq_some_iff_append_eq, dropQuote?_eq_some_iff]
  constructor
  · rintro ⟨_, rfl, _, ⟨a, q, ha, hq, rfl⟩, _, rfl, _, ⟨q', hq', rfl⟩, _, ⟨b, hb, rfl⟩, rfl⟩
    exact ⟨_, ⟨a, b, q, q', ha, hb, hq, hq', rfl⟩, by simp⟩
  · rintro ⟨_, ⟨a, b, q, q', ha, hb, hq, hq', rfl⟩, rfl⟩
    exact ⟨_, by simp, _, ⟨a, q, ha, hq, rfl⟩, _, rfl, _, ⟨q', hq', rfl⟩, _, ⟨b, hb, rfl⟩, rfl⟩

theorem functionHead?_eq_some_iff :
    functionHead? s = some r ↔ ∃ own, IsFunctionHead own ∧ s = own ++ r := by
  simp only [functionHead?, Option.bind_eq_bind, Option.bind_eq_some_iff, List.isPrefixOf?_eq_some_iff_append_eq]
  constructor
  · rintro ⟨s, rfl, h⟩
    split at h
    · cases h
    · rename_i hword
      simp only [Option.bind_eq_some_iff, Prod.exists, until?_eq_some_iff, Option.pure_def, Option.some.injEq] at h
      obtain ⟨name, _, ⟨rfl, hname⟩, parameters, _, ⟨rfl, hparameters⟩, rfl⟩ := h
      refine ⟨_, ⟨name, parameters, ?_, hname, hparameters, rfl⟩, by simp⟩
      cases name with
      | nil => rfl
      | cons c name => simpa using hword
  · rintro ⟨_, ⟨name, parameters, hword, hname, hparameters, rfl⟩, rfl⟩
    refine ⟨name ++ '(' :: (parameters ++ ')' :: r), by simp, ?_⟩
    have hnext : ¬ (name ++ '(' :: (parameters ++ ')' :: r)).head?.any isWordChar = true := by
      cases name with
      | nil => exact (by decide : ¬ isWordChar '(' = true)
      | cons c name => simpa using hword
    rw [if_neg hnext]
    simp only [Option.bind_eq_some_iff, Prod.exists, until?_eq_some_iff, Option.pure_def, Option.some.injEq]
    exact ⟨name, _, ⟨rfl, hname⟩, parameters, _, ⟨rfl, hparameters⟩, rfl⟩

theorem arrowHead?_eq_some_iff :
    arrowHead? s = some r ↔ ∃ gap own, Blanks gap ∧ IsArrowHead own ∧ s = gap ++ (own ++ r) := by
  have harrow (s r : List Char) := @isPrefixOf?_skipBlanks_iff s r "=>".toList (by decide) (by decide)
  have hmark (s r : List Char) := @dropMark?_iff s r '(' (by decide)
  have hmark' (s r : List Char) := @dropMark?_iff s r ')' (by decide)
  simp only [arrowHead?, Option.bind_eq_bind, Option.bind_eq_some_iff, harrow, hmark, hmark']
  constructor
  · rintro ⟨_, ⟨gap, hgap, rfl⟩, _, ⟨a, ha, rfl⟩, b, hb, rfl⟩
    exact ⟨gap, _, hgap, ⟨a, b, ha, hb, rfl⟩, by simp⟩
  · rintro ⟨gap, _, hgap, ⟨a, b, ha, hb, rfl⟩, rfl⟩
    exact ⟨_, ⟨gap, hgap, by simp⟩, _, ⟨a, ha, rfl⟩, b, hb, rfl⟩

/-- The head of a function starts with a letter, the head of an arrow with a parenthesis. -/
theorem IsFunctionHead.exists_cons (h : IsFunctionHead s) : ∃ tail, s = 'f' :: tail := by
  obtain ⟨name, parameters, _, _, _, rfl⟩ := h
  exact ⟨_, rfl⟩

theorem IsArrowHead.exists_cons (h : IsArrowHead s) : ∃ tail, s = '(' :: tail := by
  obtain ⟨a, b, _, _, rfl⟩ := h
  exact ⟨_, rfl⟩

theorem functionHead?_skipBlanks_iff : functionHead? (skipBlanks s) = some r
    ↔ ∃ gap own, Blanks gap ∧ IsFunctionHead own ∧ s = gap ++ (own ++ r) := by
  rw [functionHead?_eq_some_iff]
  constructor
  · rintro ⟨own, hown, hs⟩
    obtain ⟨gap, hgap, hsplit⟩ := exists_blanks s
    exact ⟨gap, own, hgap, hown, by rw [← hs, ← hsplit]⟩
  · rintro ⟨gap, own, hgap, hown, rfl⟩
    obtain ⟨tail, rfl⟩ := hown.exists_cons
    exact ⟨_, hown, by rw [skipBlanks_append hgap, List.cons_append, skipBlanks_cons (by decide)]⟩

theorem arrowHead?_skipBlanks (s : List Char) : arrowHead? (skipBlanks s) = arrowHead? s := by
  simp only [arrowHead?, dropMark?, skipBlanks, List.dropWhile_idempotent]

/-- **Openers** are what is read as one. -/
theorem readOpener?_eq_some_iff : readOpener? s = some ((), r) ↔ ∃ own, IsOpener own ∧ s = own ++ r := by
  have hmark (s r : List Char) := @dropMark?_iff s r '\x7b' (by decide)
  have hread (s : List Char) : readOpener? ('(' :: s) = some ((), r) ↔
      (functionHead? (skipBlanks s)).bind (dropMark? '\x7b') = some r ∨
      (functionHead? (skipBlanks s)).bind (dropMark? '\x7b') = none ∧
        (arrowHead? s).bind (dropMark? '\x7b') = some r := by
    simp only [readOpener?, Option.map_eq_some_iff, Prod.mk.injEq, true_and, exists_eq_right,
      Option.orElse_eq_orElse, Option.orElse_eq_or, Option.or_eq_some_iff, arrowHead?_skipBlanks]
  constructor
  · intro h
    obtain ⟨own, rfl⟩ := exists_own_of_readOpener? h
    rw [List.cons_append, hread] at h
    simp only [Option.bind_eq_some_iff, hmark, functionHead?_skipBlanks_iff, arrowHead?_eq_some_iff] at h
    rcases h with ⟨_, ⟨a, head, ha, hhead, h⟩, b, hb, rfl⟩ | ⟨-, _, ⟨a, head, ha, hhead, h⟩, b, hb, rfl⟩
    · exact ⟨_, ⟨a, head, b, ha, hb, .inl hhead, rfl⟩, by simp [h]⟩
    · exact ⟨_, ⟨a, head, b, ha, hb, .inr hhead, rfl⟩, by simp [h]⟩
  · rintro ⟨_, ⟨a, head, b, ha, hb, hhead, rfl⟩, rfl⟩
    have hs : '(' :: a ++ head ++ b ++ ['\x7b'] ++ r = '(' :: (a ++ (head ++ (b ++ '\x7b' :: r))) := by simp
    rw [hs, hread]
    simp only [Option.bind_eq_some_iff, hmark, functionHead?_skipBlanks_iff, arrowHead?_eq_some_iff]
    rcases hhead with hhead | hhead
    · exact .inl ⟨_, ⟨a, head, ha, hhead, rfl⟩, b, hb, rfl⟩
    · refine .inr ⟨?_, _, ⟨a, head, ha, hhead, rfl⟩, b, hb, rfl⟩
      -- A parenthesis is not the start of a function's head.
      obtain ⟨tail, rfl⟩ := hhead.exists_cons
      rw [skipBlanks_append ha, List.cons_append, skipBlanks_cons (by decide)]
      rfl

/-- Spaces, tabs and a semicolon are taken off. -/
theorem withoutSemicolon_eq_iff :
    (match s.dropWhile fun c => c == ' ' || c == '\t' with
      | ';' :: rest => some rest
      | rest => some rest) = some r ↔
    ∃ spaces, (∀ x ∈ spaces, x = ' ' ∨ x = '\t') ∧
      (s = spaces ++ ';' :: r ∨ s = spaces ++ r ∧ ∀ x ∈ r.head?, x ≠ ' ' ∧ x ≠ '\t' ∧ x ≠ ';') := by
  constructor
  · intro h
    have hsplit := List.takeWhile_append_dropWhile (p := fun c => c == ' ' || c == '\t') (l := s)
    refine ⟨s.takeWhile fun c => c == ' ' || c == '\t', ?_, ?_⟩
    · intro x hx
      simpa using List.all_eq_true.1 List.all_takeWhile x hx
    · split at h
      · rename_i rest hrest
        cases h
        exact .inl (by rw [← hrest, hsplit])
      · rename_i hne
        cases h
        refine .inr ⟨hsplit.symm, fun x hx => ?_⟩
        have hspace := List.head?_dropWhile_not (fun c => c == ' ' || c == '\t') s
        rw [Option.mem_def.1 hx] at hspace
        have hspace : ¬ x = ' ' ∧ ¬ x = '\t' := by simpa using hspace
        refine ⟨hspace.1, hspace.2, ?_⟩
        rintro rfl
        obtain ⟨rest, hrest⟩ := List.head?_eq_some_iff.1 hx
        exact hne rest hrest
  · rintro ⟨spaces, hspaces, rfl | ⟨rfl, hr⟩⟩
    · rw [List.dropWhile_append_of_pos (by simpa using hspaces)]
      rfl
    · rw [List.dropWhile_append_of_pos (by simpa using hspaces)]
      cases r with
      | nil => rfl
      | cons x r =>
          obtain ⟨hspace, htab, hmark⟩ := hr x rfl
          rw [List.dropWhile_cons_of_neg (by simp [hspace, htab])]
          split
          · rename_i hcons
            exact absurd (List.cons.inj hcons).1 hmark
          · rfl

/-- **Ends of calls** are what is read as one. -/
theorem afterCall?_eq_some_iff : afterCall? s = some r ↔ ∃ ending, EndsCall ending r ∧ s = ending ++ r := by
  have hclose (s r : List Char) := @dropMark?_iff s r ')' (by decide)
  have hopen (s r : List Char) := @dropMark?_iff s r '(' (by decide)
  simp only [afterCall?, Option.bind_eq_bind, Option.bind_eq_some_iff, Option.pure_def, hclose, hopen]
  constructor
  · rintro ⟨_, ⟨a, ha, rfl⟩, _, ⟨b, hb, rfl⟩, _, ⟨c, hc, rfl⟩, h⟩
    obtain ⟨spaces, hspaces, rfl | ⟨rfl, hr⟩⟩ := withoutSemicolon_eq_iff.1 h
    · exact ⟨_, ⟨a, b, c, spaces, ha, hb, hc, hspaces, .inl rfl⟩, by simp⟩
    · exact ⟨_, ⟨a, b, c, spaces, ha, hb, hc, hspaces, .inr ⟨rfl, hr⟩⟩, by simp⟩
  · rintro ⟨_, ⟨a, b, c, spaces, ha, hb, hc, hspaces, rfl | ⟨rfl, hr⟩⟩, rfl⟩
    · exact ⟨b ++ '(' :: (c ++ ')' :: (spaces ++ ';' :: r)), ⟨a, ha, by simp⟩, _, ⟨b, hb, rfl⟩, _, ⟨c, hc, rfl⟩,
        withoutSemicolon_eq_iff.2 ⟨spaces, hspaces, .inl rfl⟩⟩
    · exact ⟨b ++ '(' :: (c ++ ')' :: (spaces ++ r)), ⟨a, ha, by simp⟩, _, ⟨b, hb, rfl⟩, _, ⟨c, hc, rfl⟩,
        withoutSemicolon_eq_iff.2 ⟨spaces, hspaces, .inr ⟨rfl, hr⟩⟩⟩

/-! ### Preload calls -/

/-- Nothing of a shape begins in `front`, where `s` follows. -/
def NoneBegins (shape : List Char → Prop) (front s : List Char) : Prop :=
  ∀ y own r, y <:+ front → y ≠ [] → y ++ s = own ++ r → ¬ shape own

/-- Where all instances begin with one character, none begins in a text without it. -/
theorem noneBegins_of_not_mem {shape : List Char → Prop} {front : List Char}
    (hshape : ∀ own, shape own → own.head? = some c) (h : c ∉ front) : NoneBegins shape front s := by
  intro y own r hy hne hsplit hown
  obtain ⟨tail, rfl⟩ := List.head?_eq_some_iff.1 (hshape own hown)
  obtain ⟨c', y, rfl⟩ := List.exists_cons_of_ne_nil hne
  obtain rfl : c' = c := (List.cons.inj hsplit).1
  exact h (hy.subset List.mem_cons_self)

theorem IsTest.head?_eq (h : IsTest own) : own.head? = some 'd' := by
  obtain ⟨a, b, q, q', _, _, _, _, rfl⟩ := h
  rfl

theorem IsOpener.head?_eq (h : IsOpener own) : own.head? = some '(' := by
  obtain ⟨a, head, b, _, _, _, rfl⟩ := h
  rfl

theorem noneBegins_iff {read : List Char → Option (Unit × List Char)} {shape : List Char → Prop} {front : List Char}
    (hread : ∀ {s r}, read s = some ((), r) ↔ ∃ own, shape own ∧ s = own ++ r) :
    NoneBegins shape front s ↔ ∀ y, y <:+ front → y ≠ [] → read (y ++ s) = none := by
  constructor
  · intro h y hy hne
    rw [Option.eq_none_iff_forall_ne_some]
    rintro ⟨_, r⟩ hsome
    obtain ⟨own, hown, hsplit⟩ := hread.1 hsome
    exact h y own r hy hne hsplit hown
  · intro h y own r hy hne hsplit hown
    have hsome := hread.2 ⟨own, hown, hsplit⟩
    rw [h y hy hne] at hsome
    cases hsome

/-- What is read is what stands there. -/
theorem shape_iff {read : List Char → Option (Unit × List Char)} {shape : List Char → Prop} {own : List Char}
    (hread : ∀ {s r}, read s = some ((), r) ↔ ∃ own, shape own ∧ s = own ++ r) :
    read (own ++ r) = some ((), r) ↔ shape own := by
  rw [hread]
  constructor
  · rintro ⟨own', hown', hsplit⟩
    rwa [List.append_cancel_right hsplit]
  · exact fun h => ⟨own, h, rfl⟩

/-- `opener` opens last in front of `test`, which is the first feature test of the code. -/
structure OpensLast (before opener inner test rest : List Char) : Prop where
  isOpener : IsOpener opener
  passed : Passes readOpener? before (opener ++ inner)
  last : NoneBegins IsOpener inner []
  isTest : IsTest test
  first : NoneBegins IsTest (before ++ opener ++ inner) (test ++ rest)

/-- A code around its preload call: a function in whose body the first feature test stands and which is
called at once. -/
structure Preload where
  before : List Char
  opener : List Char
  inner : List Char
  test : List Char
  body : List Char
  ending : List Char
  after : List Char
  opens : OpensLast before opener inner test (body ++ '\x7d' :: ending ++ after)
  isBody : IsBody (inner ++ test ++ body)
  ends : EndsCall ending after

namespace Preload

def call (p : Preload) : List Char := p.opener ++ p.inner ++ p.test ++ p.body ++ '\x7d' :: p.ending

def code (p : Preload) : List Char := p.before ++ p.call ++ p.after

/-- What is left of the code. -/
def remaining (p : Preload) : List Char := PreloadCut.remaining ⟨p.before, p.call, p.after⟩

theorem code_eq (p : Preload) :
    p.code = p.before ++ p.opener ++ p.inner ++ p.test ++ (p.body ++ '\x7d' :: p.ending ++ p.after) := by
  simp [code, call]

/-- A line end right behind the call goes with it, and nothing else does. -/
theorem remaining_cases (p : Preload) :
    (∃ rest, p.after = '\n' :: rest ∧ p.remaining = p.before ++ rest) ∨
      p.after.head? ≠ some '\n' ∧ p.remaining = p.before ++ p.after := by
  unfold remaining PreloadCut.remaining
  dsimp only
  split
  · rename_i rest hrest
    exact .inl ⟨rest, hrest, rfl⟩
  · rename_i hne
    refine .inr ⟨fun hhead => ?_, rfl⟩
    obtain ⟨rest, hrest⟩ := List.head?_eq_some_iff.1 hhead
    exact hne rest hrest

theorem head?_call (p : Preload) : p.call.head? = some '(' := by
  obtain ⟨tail, htail⟩ := List.head?_eq_some_iff.1 p.opens.isOpener.head?_eq
  rw [call, htail]
  rfl

end Preload

theorem isPreloadCall_iff {call : List Char} : IsPreloadCall before call after ↔
    ∃ p : Preload, p.before = before ∧ p.call = call ∧ p.after = after := by
  constructor
  · intro h
    cases h with | @intro opener inner test body ending _ hfirst hmarker hpassed hopener hlast hbody hbeyond hcalled
    obtain ⟨inside, hinside, hisBody⟩ := afterBody?_eq_some_iff.1 hbody
    obtain ⟨ending', hending, hcancel⟩ := afterCall?_eq_some_iff.1 hcalled
    obtain rfl : ending = ending' := List.append_cancel_right hcancel
    -- The brace that closes the body stands behind the test.
    obtain ⟨body', c, rfl⟩ := List.eq_nil_or_concat body |>.resolve_left hbeyond
    have hclose : inner ++ test ++ body' ++ [c] = inside ++ ['\x7d'] := by
      refine List.append_cancel_right (?_ : _ ++ (ending ++ after) = _ ++ (ending ++ after))
      simpa using hinside
    obtain ⟨rfl, hc⟩ := List.append_inj' hclose rfl
    obtain rfl : c = '\x7d' := by simpa using hc
    refine ⟨⟨before, opener, inner, test, body', ending, after, ⟨?_, hpassed, ?_, ?_, ?_⟩, hisBody, hending⟩, rfl, ?_,
      rfl⟩
    · exact (shape_iff readOpener?_eq_some_iff).1 hopener
    · exact (noneBegins_iff readOpener?_eq_some_iff).2 (by simpa using hlast)
    · exact (shape_iff readMarker?_eq_some_iff).1 hmarker
    · exact (noneBegins_iff readMarker?_eq_some_iff).2 (by simpa using hfirst)
    · simp [Preload.call]
  · rintro ⟨⟨before, opener, inner, test, body, ending, after, hopens, hbody, hends⟩, rfl, rfl, rfl⟩
    have hcall : opener ++ inner ++ test ++ body ++ '\x7d' :: ending
        = opener ++ inner ++ test ++ (body ++ ['\x7d']) ++ ending := by simp
    unfold Preload.call
    rw [hcall]
    refine .intro ?_ ?_ hopens.passed ?_ ?_ ?_ (by simp) ?_
    · simpa using (noneBegins_iff readMarker?_eq_some_iff).1 hopens.first
    · exact (shape_iff readMarker?_eq_some_iff).2 hopens.isTest
    · exact (shape_iff readOpener?_eq_some_iff).2 hopens.isOpener
    · simpa using (noneBegins_iff readOpener?_eq_some_iff).1 hopens.last
    · exact afterBody?_eq_some_iff.2 ⟨_, by simp, hbody⟩
    · exact afterCall?_eq_some_iff.2 ⟨ending, hends, rfl⟩

theorem cutPreload?_iff {code : List Char} {cut : PreloadCut} : cutPreload? code = some cut ↔
    ∃ p : Preload, p.code = code ∧ cut = ⟨p.before, p.call, p.after⟩ := by
  rw [cutPreload?_eq_some_iff, isPreloadCall_iff]
  constructor
  · rintro ⟨rfl, p, hbefore, hcall, hafter⟩
    exact ⟨p, by rw [Preload.code, hbefore, hcall, hafter], by rw [hbefore, hcall, hafter]⟩
  · rintro ⟨p, rfl, rfl⟩
    exact ⟨rfl, p, rfl, rfl, rfl⟩

/-- **What is stripped** of a code is its preload call. -/
theorem stripPreload?_iff {code out : String} : stripPreload? code = some out ↔
    ∃ p : Preload, p.code = code.toList ∧ p.remaining = out.toList := by
  simp only [stripPreload?, Option.map_eq_some_iff, cutPreload?_iff]
  constructor
  · rintro ⟨_, ⟨p, hcode, rfl⟩, rfl⟩
    exact ⟨p, hcode, String.toList_ofList.symm⟩
  · rintro ⟨p, hcode, hout⟩
    exact ⟨_, ⟨p, hcode, rfl⟩, by rw [← String.ofList_toList (s := out), ← hout]; rfl⟩

section

variable {opener inner test rest before' opener' inner' test' rest' : List Char}

theorem OpensLast.head?_markers (h : OpensLast before opener inner test rest) :
    (occurrences readMarker? (before ++ opener ++ inner ++ test ++ rest)).head?
      = some ⟨byteSize (before ++ opener ++ inner), byteSize (before ++ opener ++ inner ++ test), ()⟩ := by
  have hread := (shape_iff (r := rest) readMarker?_eq_some_iff).2 h.isTest
  exact (head?_occurrencesFrom consumes_readMarker?).2 ⟨_, test, rest, rfl,
    (noneBegins_iff readMarker?_eq_some_iff).1 h.first, hread, consumes_readMarker?.ne_nil hread, by simp, by simp⟩

theorem OpensLast.getLast?_openers (h : OpensLast before opener inner test rest) :
    (occurrences readOpener? (before ++ opener ++ inner)).getLast?
      = some ⟨byteSize before, byteSize (before ++ opener), ()⟩ := by
  have hread := (shape_iff (r := inner) readOpener?_eq_some_iff).2 h.isOpener
  exact (getLast?_occurrencesFrom consumes_readOpener?).2 ⟨before, opener, inner, rfl, h.passed, hread,
    consumes_readOpener?.ne_nil hread, by simpa using (noneBegins_iff readOpener?_eq_some_iff).1 h.last,
    by simp, by simp⟩

/-- **A code has one** last opener in front of its first feature test. -/
theorem OpensLast.unique (h : OpensLast before opener inner test rest)
    (h' : OpensLast before' opener' inner' test' rest')
    (hcode : before ++ opener ++ inner ++ test ++ rest = before' ++ opener' ++ inner' ++ test' ++ rest') :
    before = before' ∧ opener = opener' ∧ inner = inner' ∧ test = test' ∧ rest = rest' := by
  -- The first feature test stands at one place, so the text in front of it is one.
  have hmarkers := h.head?_markers
  rw [hcode, h'.head?_markers, Option.some.injEq, Occurrence.mk.injEq] at hmarkers
  obtain ⟨htest, hrest⟩ := append_inj_of_byteSize hcode hmarkers.2.1.symm
  obtain ⟨hfront, htest⟩ := append_inj_of_byteSize htest hmarkers.1.symm
  -- And the last opener in that text does too.
  have hopeners := h.getLast?_openers
  rw [hfront, h'.getLast?_openers, Option.some.injEq, Occurrence.mk.injEq] at hopeners
  obtain ⟨hopener, hinner⟩ := append_inj_of_byteSize hfront hopeners.2.1.symm
  obtain ⟨hbefore, hopener⟩ := append_inj_of_byteSize hopener hopeners.1.symm
  exact ⟨hbefore, hopener, hinner, htest, hrest⟩

/-- A function whose body does not end is left where it is. -/
theorem OpensLast.kept {code : String} (h : OpensLast before opener inner test rest)
    (hcode : code.toList = before ++ opener ++ inner ++ test ++ rest) (hbody : Unterminated (inner ++ test ++ rest)) :
    stripPreload? code = none := by
  rw [Option.eq_none_iff_forall_ne_some]
  intro out hout
  obtain ⟨p, hp, _⟩ := stripPreload?_iff.1 hout
  obtain ⟨-, -, rfl, rfl, rfl⟩ := h.unique p.opens (by rw [← hcode, ← hp, p.code_eq])
  have hopen := hbody (p.inner ++ p.test ++ p.body ++ ['\x7d']) ⟨p.ending ++ p.after, by simp⟩
  have hclose := p.isBody.returns
  rw [List.cons_append] at hclose
  omega

end

/-! ### The structure of what is stripped -/

/-- **What is stripped, and how.**  The bytes of a code are cut between characters only, and what is left
are the bytes of what is left of the code.  What is stripped is a function in parentheses, in whose body the first
feature test stands, and its call; a line end right behind goes with it.  The body ends where its braces
first return to depth zero, and where they never do the code is left as it is. -/
theorem preload_structure (code : String) :
    (stripBytes code.toList ≠ .torn ∧ stripBytes code.toList
      = (stripPreload? code).elim .kept fun out => .stripped (utf8 out.toList)) ∧
    (∀ out, stripPreload? code = some out → ∃ p : Preload, code.toList = p.before ++ p.call ++ p.after ∧
      ((∃ rest, p.after = '\n' :: rest ∧ out.toList = p.before ++ rest) ∨
        p.after.head? ≠ some '\n' ∧ out.toList = p.before ++ p.after) ∧
      p.call.head? = some '(' ∧
      p.call = p.opener ++ (p.inner ++ p.test ++ p.body) ++ '\x7d' :: p.ending ∧ EndsCall p.ending p.after ∧
      IsTest p.test ∧
      NoneBegins IsTest (p.before ++ p.opener ++ p.inner) (p.test ++ p.body ++ '\x7d' :: p.ending ++ p.after) ∧
      IsBody (p.inner ++ p.test ++ p.body)) ∧
    (∀ before opener inner test rest, code.toList = before ++ opener ++ inner ++ test ++ rest →
      OpensLast before opener inner test rest → Unterminated (inner ++ test ++ rest) → stripPreload? code = none) := by
  have hbytes : stripBytes code.toList
      = (stripPreload? code).elim .kept fun out => .stripped (utf8 out.toList) := by
    rw [stripBytes_eq, stripPreload?]
    cases cutPreload? code.toList with
    | none => rfl
    | some cut => simp
  refine ⟨⟨?_, hbytes⟩, ?_, ?_⟩
  · rw [hbytes]
    cases stripPreload? code with
    | none => simp
    | some out => simp
  · intro out hout
    obtain ⟨p, hcode, hrest⟩ := stripPreload?_iff.1 hout
    refine ⟨p, hcode.symm, ?_, p.head?_call, ?_, p.ends, p.opens.isTest, ?_, p.isBody⟩
    · rw [← hrest]
      exact p.remaining_cases
    · simp [Preload.call]
    · simpa using p.opens.first
  · exact fun before opener inner test rest hcode h hbody => h.kept hcode hbody

/-- A code that begins with a feature test in a function. -/
theorem opensLast_plain (rest : List Char) : OpensLast [] "(function()\x7b".toList []
    "document.createElement(\"link\").relList".toList rest := by
  refine ⟨⟨[], "function()".toList, [], blanks_nil, blanks_nil, .inl ⟨[], [], rfl, by decide, by decide, rfl⟩, rfl⟩,
    .nil, ?_, ⟨[], [], '"', '"', blanks_nil, blanks_nil, .inl rfl, .inl rfl, rfl⟩, ?_⟩
  · exact noneBegins_of_not_mem (fun _ => IsOpener.head?_eq) List.not_mem_nil
  · exact noneBegins_of_not_mem (fun _ => IsTest.head?_eq) (by decide)

theorem openBody_kept :
    (∃ p : Preload, "é(function()\x7bdocument.createElement(\"link\").relList\x7d)();\nrun()".toList
      = p.before ++ p.call ++ p.after) ∧
    stripPreload? "(function()\x7bdocument.createElement(\"link\").relList;" = none := by
  refine ⟨?_, ?_⟩
  · obtain ⟨p, hp, _⟩ := (preload_structure
      "é(function()\x7bdocument.createElement(\"link\").relList\x7d)();\nrun()").2.1 "érun()" (by decide +kernel)
    exact ⟨p, hp⟩
  · exact (preload_structure "(function()\x7bdocument.createElement(\"link\").relList;").2.2 [] _ [] _ [';'] rfl
      (opensLast_plain _) (afterBody?_eq_none_iff.1 (by decide +kernel))

/-- A text ends right behind a call, or right behind its semicolon. -/
def EndsBehindCall (s : List Char) : Prop :=
  ∃ front a b c, Blanks a ∧ Blanks b ∧ Blanks c ∧ (s = front ++ ')' :: a ++ '(' :: b ++ [')'] ∨
    s = front ++ ')' :: a ++ '(' :: b ++ ')' :: c ++ [';'])

theorem EndsBehindCall.getLast? (h : EndsBehindCall s) : s.getLast? = some ')' ∨ s.getLast? = some ';' := by
  obtain ⟨front, a, b, c, _, _, _, rfl | rfl⟩ := h
  · exact .inl List.getLast?_concat
  · exact .inr List.getLast?_concat

/-- The space behind a call without a semicolon goes with the call. -/
theorem spacedCall_cut :
    stripPreload? "(function()\x7bdocument.createElement(\"link\").relList\x7d)() x" = some "x" ∧
    ¬ ∃ p s q, "(function()\x7bdocument.createElement(\"link\").relList\x7d)() x".toList = p ++ s ++ q ∧
      ("x".toList = p ++ q ∨ ∃ rest, q = '\n' :: rest ∧ "x".toList = p ++ rest) ∧
      s.head? = some '(' ∧ EndsBehindCall s := by
  refine ⟨by decide +kernel, ?_⟩
  rintro ⟨p, s, q, hcode, hout | ⟨rest, rfl, -⟩, -, hends⟩
  · obtain ⟨rfl, rfl⟩ | ⟨rfl, rfl⟩ := List.append_eq_singleton_iff.1 hout.symm
    · -- What is left is the last character, so `s` ends with the space in front of it.
      have hs : s = "(function()\x7bdocument.createElement(\"link\").relList\x7d)() ".toList :=
        List.append_cancel_right (hcode.symm.trans (by decide))
      rcases hends.getLast? with h | h
      · rw [hs] at h
        exact absurd h (by decide)
      · rw [hs] at h
        exact absurd h (by decide)
    · have hhead : some '(' = some 'x' := congrArg List.head? hcode
      exact absurd hhead (by decide)
  · have hline : '\n' ∈ "(function()\x7bdocument.createElement(\"link\").relList\x7d)() x".toList := by
      rw [hcode]
      simp
    exact absurd hline (by decide)

end Pagefold.Page
