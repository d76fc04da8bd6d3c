import Pagefold.Proofs.PreloadCalls

/-! # Braces of a code

`Mode.next` reads a code one character at a time and tells code from literals and comments, and
`depthFrom` counts the braces that are code.  The search for the end of a function's body jumps over
literals and comments; it stops where this count returns for the first time to what it was in front of
the brace that opens the body (`afterBody?_eq_some_iff`), and finds nothing when it never does
(`afterBody?_eq_none_iff`). -/

namespace Pagefold.Page

variable {depth : Nat} {s r t : List Char} {m : Mode}

/-! ### Modes -/

/-- What a code is in the middle of. -/
inductive Mode where
  | code
  /-- Code, right behind a slash that may open a comment. -/
  | slash
  | literal (quote : Char)
  /-- A literal, right behind a backslash. -/
  | escaped (quote : Char)
  | lineComment
  | blockComment
  /-- A block comment, right behind an asterisk. -/
  | asterisk
deriving DecidableEq, Repr

namespace Mode

/-- Whether a character opens a literal, of a string or of a template. -/
def opensLiteral (c : Char) : Bool := c == '"' || c == '\'' || c == '\x60'

/-- The mode behind a character of code. -/
def behind (c : Char) : Mode :=
  if c == '/' then slash else if opensLiteral c then literal c else code

/-- The mode behind the next character.  A literal ends at the next quote of its own kind, unless a
backslash stands before it; a template literal does so too, whatever stands in it. -/
def next : Mode → Char → Mode
  | code, c => behind c
  | slash, c =>
    if c == '/' then lineComment else if c == '*' then blockComment else behind c
  | literal quote, c =>
    if c == '\\' then escaped quote else if c == quote then code else literal quote
  | escaped quote, _ => literal quote
  | lineComment, c => if c == '\n' then code else lineComment
  | blockComment, c => if c == '*' then asterisk else blockComment
  | asterisk, c => if c == '/' then code else if c == '*' then asterisk else blockComment

def isCode : Mode → Bool
  | code | slash => true
  | _ => false

/-- By how much the next character changes the number of open braces. -/
def change (m : Mode) (c : Char) : Int :=
  if !m.isCode then 0 else if c == '{' then 1 else if c == '}' then -1 else 0

theorem change_cases (m : Mode) (c : Char) :
    m.change c = 1 ∨ m.change c = -1 ∧ c = '}' ∨ m.change c = 0 := by
  unfold change
  split_ifs with h1 h2 h3
  · simp
  · simp
  · simp_all
  · simp

end Mode

/-- How many braces more than before are open behind a text that is met in mode `m`. -/
def depthFrom (m : Mode) : List Char → Int
  | [] => 0
  | c :: s => m.change c + depthFrom (m.next c) s

/-- How many braces a code leaves open. -/
def braceDepth (s : List Char) : Int := depthFrom .code s

/-- What follows the brace that closes `depth + 1` open ones in a text that is met in mode `m`. -/
def closedFrom? (m : Mode) (depth : Nat) : List Char → Option (List Char)
  | [] => none
  | c :: s =>
    if m.change c = 1 then closedFrom? (m.next c) (depth + 1) s
    else if m.change c = -1 then
      match depth with
      | 0 => some s
      | depth + 1 => closedFrom? (m.next c) depth s
    else closedFrom? (m.next c) depth s

/-! ### Jumps -/

theorem closedFrom?_of_change_eq_zero {c : Char} (h : m.change c = 0) :
    closedFrom? m depth (c :: s) = closedFrom? (m.next c) depth s := by
  simp [closedFrom?, h]

/-- What is no code changes nothing. -/
theorem closedFrom?_of_not_isCode {c : Char} (h : m.isCode = false) :
    closedFrom? m depth (c :: s) = closedFrom? (m.next c) depth s :=
  closedFrom?_of_change_eq_zero (by simp [Mode.change, h])

/-- The mode in a literal behind a character that no other one is escaped by. -/
theorem Mode.next_literal {quote c : Char} (h : c ≠ '\\') :
    (Mode.literal quote).next c = if c == quote then .code else .literal quote := by
  simp [Mode.next, h]

/-- Literals are jumped over. -/
theorem closedFrom?_literal (quote : Char) (s : List Char) :
    closedFrom? (.literal quote) depth s = closedFrom? .code depth (afterLiteral quote s) := by
  fun_induction afterLiteral quote s with
  | case1 => rfl
  | case2 c rest ih =>
      rw [closedFrom?_of_not_isCode rfl, ← ih]
      exact closedFrom?_of_not_isCode rfl
  | case3 c rest hlast hquote =>
      rw [closedFrom?_of_not_isCode rfl]
      by_cases hc : c = '\\'
      · -- A backslash that is the last character escapes nothing.
        cases rest with
        | nil => rfl
        | cons c' rest => exact absurd rfl (hlast c' rest hc)
      · rw [Mode.next_literal hc, if_pos hquote]
  | case4 c rest hlast hquote ih =>
      rw [closedFrom?_of_not_isCode rfl]
      by_cases hc : c = '\\'
      · cases rest with
        | nil => rfl
        | cons c' rest => exact absurd rfl (hlast c' rest hc)
      · rw [Mode.next_literal hc, if_neg hquote, ih]

/-- Line comments are jumped over. -/
theorem closedFrom?_lineComment (s : List Char) : closedFrom? .lineComment depth s
    = closedFrom? .code depth (s.dropWhile (· != '\n')) := by
  induction s with
  | nil => rfl
  | cons c s ih =>
      rw [closedFrom?_of_not_isCode rfl]
      by_cases hc : c = '\n'
      · subst hc
        rfl
      · have hnext : Mode.lineComment.next c = .lineComment := by simp [Mode.next, hc]
        rw [hnext, ih, List.dropWhile_cons_of_pos (by simpa using hc)]

/-- Block comments are jumped over, if they end. -/
theorem closedFrom?_blockComment (s : List Char) :
    closedFrom? .blockComment depth s = (afterBlockComment? s).bind (closedFrom? .code depth) ∧
    closedFrom? .asterisk depth s = (afterBlockComment? ('*' :: s)).bind (closedFrom? .code depth) := by
  induction s with
  | nil => exact ⟨rfl, rfl⟩
  | cons c s ih =>
      obtain ⟨hblock, hasterisk⟩ := ih
      rw [closedFrom?_of_not_isCode rfl, closedFrom?_of_not_isCode rfl]
      by_cases hslash : c = '/'
      · subst hslash
        exact ⟨hblock, rfl⟩
      · by_cases hc : c = '*'
        · subst hc
          exact ⟨hasterisk, hasterisk⟩
        · have hpass : afterBlockComment? (c :: s) = afterBlockComment? s := by
            simp [afterBlockComment?, hc]
          have hpass' : afterBlockComment? ('*' :: c :: s) = afterBlockComment? (c :: s) := by
            simp [afterBlockComment?, hslash]
          have hnext : Mode.blockComment.next c = .blockComment := by simp [Mode.next, hc]
          have hnext' : Mode.asterisk.next c = .blockComment := by simp [Mode.next, hslash, hc]
          rw [hpass', hpass, hnext, hnext']
          exact ⟨hblock, hblock⟩

/-- A slash that opens no comment is code like any other. -/
theorem closedFrom?_slash (hline : ∀ rest, s ≠ '/' :: rest) (hblock : ∀ rest, s ≠ '*' :: rest) :
    closedFrom? .slash depth s = closedFrom? .code depth s := by
  cases s with
  | nil => rfl
  | cons c s =>
      have hline : c ≠ '/' := fun h => hline s (h ▸ rfl)
      have hblock : c ≠ '*' := fun h => hblock s (h ▸ rfl)
      have hnext : Mode.slash.next c = Mode.code.next c := by simp [Mode.next, hline, hblock]
      unfold closedFrom?
      rw [hnext]
      rfl

/-- **The jumping search** and the search character by character find the same brace. -/
theorem afterBody?_eq_closedFrom? (depth : Nat) (s : List Char) :
    afterBody? depth s = closedFrom? .code depth s := by
  fun_induction afterBody? depth s with
  | case1 => rfl
  | case2 depth rest ih => rw [ih, ← closedFrom?_lineComment]; rfl
  | case3 depth rest after hcomment ih =>
      have hblock := (@closedFrom?_blockComment depth rest).1
      rw [hcomment, Option.bind_some, ← ih] at hblock
      exact hblock.symm
  | case4 depth rest hcomment =>
      have hblock := (@closedFrom?_blockComment depth rest).1
      rw [hcomment, Option.bind_none] at hblock
      exact hblock.symm
  | case5 depth c rest _ _ hopen ih =>
      obtain rfl := beq_iff_eq.1 hopen
      exact ih
  | case6 c rest _ _ _ hclose =>
      obtain rfl := beq_iff_eq.1 hclose
      rfl
  | case7 c rest _ _ _ hclose depth ih =>
      obtain rfl := beq_iff_eq.1 hclose
      exact ih
  | case8 depth c rest _ _ hopen hclose hquote ih =>
      have hquote : Mode.opensLiteral c = true := hquote
      have hslash : c ≠ '/' := by
        rintro rfl
        cases hquote
      have hnext : Mode.code.next c = .literal c := by simp [Mode.next, Mode.behind, hslash, hquote]
      have hchange : Mode.code.change c = 0 := by
        simp only [Mode.change, hopen, hclose]
        rfl
      rw [ih, ← closedFrom?_literal, closedFrom?_of_change_eq_zero hchange, hnext]
  | case9 depth c rest hline hblock hopen hclose hquote ih =>
      have hquote : Mode.opensLiteral c = false := by simpa [Mode.opensLiteral] using hquote
      have hchange : Mode.code.change c = 0 := by
        simp only [Mode.change, hopen, hclose]
        rfl
      rw [ih, closedFrom?_of_change_eq_zero hchange]
      by_cases hslash : c = '/'
      · subst hslash
        exact (closedFrom?_slash (fun r => hline r rfl) (fun r => hblock r rfl)).symm
      · have hnext : Mode.code.next c = .code := by simp [Mode.next, Mode.behind, hslash, hquote]
        rw [hnext]

/-! ### Depths -/

@[simp] theorem depthFrom_nil (m : Mode) : depthFrom m [] = 0 := rfl

@[simp] theorem depthFrom_cons (m : Mode) (c : Char) (s : List Char) :
    depthFrom m (c :: s) = m.change c + depthFrom (m.next c) s := rfl

/-- The depth stays above some level along a text: nothing is closed that was open in front of it. -/
def StaysOpen (m : Mode) (depth : Nat) (s : List Char) : Prop :=
  ∀ t, t <+: s → 0 ≤ depth + depthFrom m t

theorem staysOpen_nil : StaysOpen m depth [] := by
  intro t ht
  simp [List.prefix_nil.1 ht]

/-- A character keeps something open, or it closes the last brace that was open. -/
theorem step_cases (m : Mode) (depth : Nat) (c : Char) :
    (∃ depth' : Nat, depth + m.change c = depth') ∨ depth = 0 ∧ m.change c = -1 ∧ c = '\x7d' := by
  rcases m.change_cases c with h | ⟨h, hc⟩ | h
  · exact .inl ⟨depth + 1, by omega⟩
  · cases depth with
    | zero => exact .inr ⟨rfl, h, hc⟩
    | succ depth => exact .inl ⟨depth, by omega⟩
  · exact .inl ⟨depth, by omega⟩

theorem closedFrom?_cons {c : Char} {depth' : Nat} (h : depth + m.change c = depth') :
    closedFrom? m depth (c :: s) = closedFrom? (m.next c) depth' s := by
  rcases m.change_cases c with hc | ⟨hc, _⟩ | hc
  · obtain rfl : depth' = depth + 1 := by omega
    simp [closedFrom?, hc]
  · obtain rfl : depth = depth' + 1 := by omega
    simp [closedFrom?, hc]
  · obtain rfl : depth' = depth := by omega
    exact closedFrom?_of_change_eq_zero hc

theorem closedFrom?_of_closes {c : Char} (h : m.change c = -1) : closedFrom? m 0 (c :: s) = some s := by
  simp [closedFrom?, h]

theorem staysOpen_cons_iff {c : Char} {depth' : Nat} (h : depth + m.change c = depth') :
    StaysOpen m depth (c :: s) ↔ StaysOpen (m.next c) depth' s := by
  constructor
  · intro hopen t ht
    have := hopen (c :: t) (List.cons_prefix_cons.2 ⟨rfl, ht⟩)
    rw [depthFrom_cons] at this
    omega
  · intro hopen t ht
    cases t with
    | nil => simp
    | cons c' t =>
        obtain ⟨rfl, ht'⟩ := List.cons_prefix_cons.1 ht
        have := hopen t ht'
        rw [depthFrom_cons]
        omega

theorem not_staysOpen_of_closes {c : Char} (h : m.change c = -1) : ¬ StaysOpen m 0 (c :: s) := by
  intro hopen
  have := hopen [c] (List.cons_prefix_cons.2 ⟨rfl, List.nil_prefix⟩)
  simp [h] at this

/-- The search finds nothing where all stays open. -/
theorem closedFrom?_eq_none_iff : closedFrom? m depth s = none ↔ StaysOpen m depth s := by
  induction s generalizing m depth with
  | nil => simp [closedFrom?, staysOpen_nil]
  | cons c s ih =>
      rcases step_cases m depth c with ⟨depth', h⟩ | ⟨rfl, h, _⟩
      · rw [closedFrom?_cons h, staysOpen_cons_iff h, ih]
      · rw [closedFrom?_of_closes h]
        simp [not_staysOpen_of_closes h]

theorem closedFrom?_eq_some_iff : closedFrom? m depth s = some r ↔ ∃ inside,
    s = inside ++ '\x7d' :: r ∧ StaysOpen m depth inside ∧
      depth + depthFrom m (inside ++ ['\x7d']) = -1 := by
  induction s generalizing m depth with
  | nil => simp [closedFrom?]
  | cons c s ih =>
      rcases step_cases m depth c with ⟨depth', h⟩ | ⟨rfl, h, rfl⟩
      · rw [closedFrom?_cons h, ih]
        constructor
        · rintro ⟨inside, rfl, hopen, hclose⟩
          refine ⟨c :: inside, rfl, (staysOpen_cons_iff h).2 hopen, ?_⟩
          rw [List.cons_append, depthFrom_cons]
          omega
        · rintro ⟨inside, hsplit, hopen, hclose⟩
          cases inside with
          | nil =>
              -- Then the next character would close what is open.
              obtain ⟨rfl, rfl⟩ := List.cons.inj hsplit
              simp at hclose
              omega
          | cons c' inside =>
              obtain ⟨rfl, rfl⟩ := List.cons.inj hsplit
              rw [List.cons_append, depthFrom_cons] at hclose
              exact ⟨inside, rfl, (staysOpen_cons_iff h).1 hopen, by omega⟩
      · rw [closedFrom?_of_closes h, Option.some.injEq]
        constructor
        · rintro rfl
          exact ⟨[], rfl, staysOpen_nil, by simp [h]⟩
        · rintro ⟨inside, hsplit, hopen, _⟩
          cases inside with
          | nil => exact (List.cons.inj hsplit).2
          | cons c' inside =>
              obtain ⟨rfl, rfl⟩ := List.cons.inj hsplit
              exact absurd hopen (not_staysOpen_of_closes h)

/-! ### Bodies -/

/-- Between two braces: the depth first returns to zero at the second one. -/
structure IsBody (inside : List Char) : Prop where
  returns : braceDepth ('\x7b' :: inside ++ ['\x7d']) = 0
  above : ∀ t, t <+: inside → 0 < braceDepth ('\x7b' :: t)

/-- Behind a brace: the depth never returns to zero. -/
def Unterminated (s : List Char) : Prop := ∀ t, t <+: s → 0 < braceDepth ('\x7b' :: t)

theorem braceDepth_open (s : List Char) : braceDepth ('\x7b' :: s) = 1 + depthFrom .code s := rfl

theorem unterminated_iff : Unterminated s ↔ StaysOpen .code 0 s := by
  unfold Unterminated StaysOpen
  refine forall_congr' fun t => imp_congr_right fun _ => ?_
  rw [braceDepth_open]
  omega

theorem isBody_iff {inside : List Char} : IsBody inside
    ↔ StaysOpen .code 0 inside ∧ ((0 : Nat) : Int) + depthFrom .code (inside ++ ['\x7d']) = -1 := by
  constructor
  · intro h
    have := h.returns
    rw [List.cons_append, braceDepth_open] at this
    exact ⟨unterminated_iff.1 h.above, by omega⟩
  · rintro ⟨hopen, hclose⟩
    refine ⟨?_, unterminated_iff.2 hopen⟩
    rw [List.cons_append, braceDepth_open]
    omega

/-- **Where a body ends**: behind the brace at which the depth first returns to zero. -/
theorem afterBody?_eq_some_iff :
    afterBody? 0 s = some r ↔ ∃ inside, s = inside ++ '\x7d' :: r ∧ IsBody inside := by
  rw [afterBody?_eq_closedFrom?, closedFrom?_eq_some_iff]
  simp only [isBody_iff]

/-- **When a body does not end**: the depth never returns to zero. -/
theorem afterBody?_eq_none_iff : afterBody? 0 s = none ↔ Unterminated s := by
  rw [afterBody?_eq_closedFrom?, closedFrom?_eq_none_iff, unterminated_iff]

/-! ### Balanced texts -/

/-- The mode behind a text that is met in mode `m`. -/
def modeFrom (m : Mode) (s : List Char) : Mode := s.foldl Mode.next m

theorem depthFrom_append (m : Mode) (s t : List Char) :
    depthFrom m (s ++ t) = depthFrom m s + depthFrom (modeFrom m s) t := by
  induction s generalizing m with
  | nil => simp [modeFrom]
  | cons c s ih =>
      rw [List.cons_append, depthFrom_cons, depthFrom_cons, ih]
      exact (Int.add_assoc _ _ _).symm

/-- A text of code that closes what it opens, and nothing else. -/
structure Balanced (s : List Char) : Prop where
  ends : modeFrom .code s = .code
  returns : braceDepth s = 0
  above : ∀ t, t <+: s → 0 ≤ braceDepth t

/-- The number of open braces is the same behind a balanced text. -/
theorem Balanced.braceDepth_append (h : Balanced s) (t : List Char) :
    braceDepth (s ++ t) = braceDepth t := by
  have hzero : depthFrom .code s = 0 := h.returns
  rw [braceDepth, depthFrom_append, h.ends, hzero, Int.zero_add]
  rfl

/-- A balanced text may stand in front of all that is in a body. -/
theorem IsBody.behind {inside : List Char} (h : IsBody inside) (hs : Balanced s) : IsBody (s ++ inside) := by
  have hopen (t : List Char) : braceDepth ('\x7b' :: t) = 1 + braceDepth t := rfl
  constructor
  · have := h.returns
    rw [List.cons_append, hopen] at this ⊢
    rw [List.append_assoc, hs.braceDepth_append, this]
  · intro t ht
    rw [hopen]
    rcases List.prefix_or_prefix_of_prefix ht (List.prefix_append s inside) with hfront | ⟨t, rfl⟩
    · have := hs.above t hfront
      omega
    · have := h.above t ((List.prefix_append_right_inj s).1 ht)
      rw [hs.braceDepth_append]
      rwa [hopen] at this

end Pagefold.Page
