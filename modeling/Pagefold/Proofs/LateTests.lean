import Pagefold.Proofs.PreloadShape

/-! # Code in front of the feature test

A preload call is known by the feature test in its body, wherever in the body the test stands.  Any code
that is balanced, and in which no function in parentheses opens, may stand in front of the test
(`Preload.insert`): it is stripped with the call, and nothing of it is left (`statements_stripped`). -/

namespace Pagefold.Page

open Text

variable {s r own front before opener inner test rest statements : List Char} {c : Char}

/-! ### What begins behind a brace -/

/-- No brace is in a test. -/
theorem IsTest.brace_not_mem (h : IsTest own) : '\x7b' ∉ own := by
  obtain ⟨a, b, q, q', ha, hb, hq, hq', rfl⟩ := h
  have hquote {q : Char} (hq : IsQuote q) : '\x7b' ≠ q := by
    rcases hq with rfl | rfl
    · decide
    · decide
  simp only [List.mem_append, List.mem_cons, not_or]
  exact ⟨⟨⟨⟨by decide, ha.not_mem (by decide)⟩, hquote hq, by decide⟩, hquote hq', hb.not_mem (by decide)⟩,
    by decide⟩

theorem IsOpener.getLast?_eq (h : IsOpener own) : own.getLast? = some '\x7b' := by
  obtain ⟨a, head, b, _, _, _, rfl⟩ := h
  exact List.getLast?_concat

/-- What begins in a text and lacks its last character ends in it. -/
theorem prefix_of_getLast?_not_mem (hlast : front.getLast? = some c) (hc : c ∉ own) (h : front ++ s = own ++ r) :
    own <+: front := by
  rcases List.append_eq_append_iff.1 h with ⟨gap, rfl, _⟩ | ⟨gap, rfl, _⟩
  · exact absurd (List.mem_append_left gap (List.mem_of_getLast? hlast)) hc
  · exact List.prefix_append own gap

/-- What follows a brace does not matter for tests in front of it. -/
theorem NoneBegins.congr_behind_brace {s' : List Char} (h : NoneBegins IsTest front s)
    (hlast : front.getLast? = some '\x7b') : NoneBegins IsTest front s' := by
  intro y own r hy hne hsplit hown
  have hlast : y.getLast? = some '\x7b' := by
    obtain ⟨z, rfl⟩ := hy
    rwa [List.getLast?_append_of_ne_nil _ hne] at hlast
  obtain ⟨gap, rfl⟩ := prefix_of_getLast?_not_mem hlast hown.brace_not_mem hsplit
  exact h _ own (gap ++ s) hy hne (List.append_assoc _ _ _) hown

theorem noneBegins_append_iff {shape : List Char → Prop} {back : List Char} :
    NoneBegins shape (front ++ back) s ↔ NoneBegins shape front (back ++ s) ∧ NoneBegins shape back s := by
  constructor
  · intro h
    constructor
    · intro y own r hy hne hsplit
      refine h (y ++ back) own r ?_ (by simp [hne]) (by rw [← hsplit, List.append_assoc])
      exact List.suffix_append_self_iff.2 hy
    · exact fun y own r hy hne hsplit => h y own r (hy.trans (List.suffix_append front back)) hne hsplit
  · rintro ⟨hfront, hback⟩ y own r hy hne hsplit
    rcases Lists.suffix_append_cases hy with hy | ⟨z, hz, hzne, rfl⟩
    · exact hback y own r hy hne hsplit
    · exact hfront z own r hz hzne (by rw [← hsplit, List.append_assoc])

/-- A search for openers passes a text without parentheses. -/
theorem passes_of_not_mem (h : '(' ∉ before) (s : List Char) : Passes readOpener? before s := by
  have hpass := (Passes.nil : Passes readOpener? [] s).prepend
    ((noneBegins_iff readOpener?_eq_some_iff).1 (noneBegins_of_not_mem (fun _ => IsOpener.head?_eq) h))
  simpa using hpass

/-! ### Code put in front of the test -/

/-- Code may be put behind the brace that opens the body, if nothing begins in it. -/
theorem OpensLast.insert (h : OpensLast before opener inner test rest) (hbefore : '(' ∉ before)
    (hopener : NoneBegins IsOpener statements inner)
    (htest : NoneBegins IsTest statements (inner ++ test ++ rest)) :
    OpensLast before opener (statements ++ inner) test rest := by
  have hlast : (before ++ opener).getLast? = some '\x7b' := by
    obtain ⟨own, hown⟩ := List.getLast?_eq_some_iff.1 h.isOpener.getLast?_eq
    rw [hown, ← List.append_assoc, List.getLast?_concat]
  obtain ⟨hfront, hinner⟩ := noneBegins_append_iff.1 h.first
  refine ⟨h.isOpener, passes_of_not_mem hbefore _, ?_, h.isTest, ?_⟩
  · exact noneBegins_append_iff.2 ⟨by simpa using hopener, h.last⟩
  · refine noneBegins_append_iff.2 ⟨hfront.congr_behind_brace hlast, noneBegins_append_iff.2 ⟨?_, hinner⟩⟩
    simpa using htest

/-- A preload call with more code in front of the test. -/
def Preload.insert (p : Preload) (statements : List Char) (hbefore : '(' ∉ p.before)
    (hbalanced : Balanced statements) (hopener : NoneBegins IsOpener statements p.inner)
    (htest : NoneBegins IsTest statements (p.inner ++ p.test ++ (p.body ++ '\x7d' :: p.ending ++ p.after))) :
    Preload :=
  { p with
    inner := statements ++ p.inner
    opens := p.opens.insert hbefore hopener htest
    isBody := by simpa using p.isBody.behind hbalanced }

/-- The marks that end statements and stand around them. -/
def statementMarks : List Char := [';', '\x7b', '\x7d']

/-- Behind the brace of the last function that opens in front of it, the first feature test stands
behind other statements. -/
def TestsLate (code : List Char) : Prop :=
  ∃ before opener inner test rest, code = before ++ opener ++ inner ++ test ++ rest ∧
    OpensLast before opener inner test rest ∧ ∃ mark ∈ statementMarks, mark ∈ inner

theorem Preload.testsLate_iff (p : Preload) : TestsLate p.code ↔ ∃ mark ∈ statementMarks, mark ∈ p.inner := by
  constructor
  · rintro ⟨before, opener, inner, test, rest, hcode, h, hmark⟩
    obtain ⟨-, -, rfl, -⟩ := h.unique p.opens (by rw [← hcode, p.code_eq])
    exact hmark
  · exact fun hmark => ⟨_, _, _, _, _, p.code_eq, p.opens, hmark⟩

/-- **Where a function that is stripped tests first.**  A code is stripped just when it has a preload
call, and the test is the first thing that the function does unless a mark of statements stands in front
of it.  Nothing prevents that: whatever is balanced and begins neither a test nor a function in
parentheses can be put in front of the test, and it is stripped with the call. -/
theorem statements_stripped (code : String) :
    ((stripPreload? code).isSome = true ↔ ∃ p : Preload, p.code = code.toList) ∧
    (((stripPreload? code).isSome = true → ¬ TestsLate code.toList) ↔
      ∀ p : Preload, p.code = code.toList → ∀ mark ∈ statementMarks, mark ∉ p.inner) ∧
    (∀ (p : Preload) (statements : List Char), p.code = code.toList → '(' ∉ p.before → Balanced statements →
      NoneBegins IsOpener statements p.inner →
      NoneBegins IsTest statements (p.inner ++ p.test ++ (p.body ++ '\x7d' :: p.ending ++ p.after)) →
      stripPreload? (String.ofList (p.before ++ p.opener ++ (statements ++ p.inner) ++ p.test
        ++ (p.body ++ '\x7d' :: p.ending ++ p.after))) = stripPreload? code) := by
  have hsome : (stripPreload? code).isSome = true ↔ ∃ p : Preload, p.code = code.toList := by
    rw [Option.isSome_iff_exists]
    constructor
    · rintro ⟨out, hout⟩
      obtain ⟨p, hp, _⟩ := stripPreload?_iff.1 hout
      exact ⟨p, hp⟩
    · rintro ⟨p, hp⟩
      exact ⟨String.ofList p.remaining, stripPreload?_iff.2 ⟨p, hp, String.toList_ofList.symm⟩⟩
  refine ⟨hsome, ?_, ?_⟩
  · rw [hsome]
    constructor
    · intro h p hp mark hmark hinner
      exact h ⟨p, hp⟩ (hp ▸ p.testsLate_iff.2 ⟨mark, hmark, hinner⟩)
    · rintro h ⟨p, hp⟩ hlate
      obtain ⟨mark, hmark, hinner⟩ := p.testsLate_iff.1 (hp ▸ hlate)
      exact h p hp mark hmark hinner
  · intro p statements hp hbefore hbalanced hopener htest
    have hcode := (p.insert statements hbefore hbalanced hopener htest).code_eq
    rw [stripPreload?_iff.2 ⟨p, hp, String.toList_ofList.symm⟩]
    refine stripPreload?_iff.2 ⟨p.insert statements hbefore hbalanced hopener htest, ?_, String.toList_ofList.symm⟩
    rw [hcode, String.toList_ofList]
    rfl

/-- A function that does nothing but test. -/
def plainPreload : Preload where
  before := []
  opener := "(function()\x7b".toList
  inner := []
  test := "document.createElement(\"link\").relList".toList
  body := []
  ending := ")();".toList
  after := []
  opens := opensLast_plain _
  isBody := by
    obtain ⟨inside, hinside, hbody⟩ := (afterBody?_eq_some_iff (r := [])
      (s := "document.createElement(\"link\").relList\x7d".toList)).1 (by decide +kernel)
    obtain rfl : "document.createElement(\"link\").relList".toList = inside :=
      List.append_cancel_right (hinside : _ ++ ['\x7d'] = inside ++ ['\x7d'])
    exact hbody
  ends := ⟨[], [], [], [], blanks_nil, blanks_nil, blanks_nil, by simp, .inl rfl⟩

/-- A statement that calls a function. -/
def runCall : List Char := "run();".toList

theorem balanced_runCall : Balanced runCall := by
  refine ⟨by decide, by decide, fun t ht => ?_⟩
  have hall : ∀ t ∈ runCall.inits, 0 ≤ braceDepth t := by decide
  exact hall t ((List.mem_inits _ _).2 ht)

theorem runCall_opens_nothing : NoneBegins IsOpener runCall [] := by
  refine (noneBegins_iff readOpener?_eq_some_iff).2 fun y hy hne => ?_
  have hall : ∀ y ∈ runCall.tails, y ≠ [] → readOpener? (y ++ []) = none := by decide
  exact hall y ((List.mem_tails _ _).2 hy) hne

theorem runCall_tests_nothing (s : List Char) : NoneBegins IsTest runCall s :=
  noneBegins_of_not_mem (fun _ => IsTest.head?_eq) (by decide)

theorem runCall_stripped :
    stripPreload? "(function()\x7brun();document.createElement(\"link\").relList\x7d)();"
      = stripPreload? "(function()\x7bdocument.createElement(\"link\").relList\x7d)();" :=
  (statements_stripped "(function()\x7bdocument.createElement(\"link\").relList\x7d)();").2.2 plainPreload runCall rfl
    List.not_mem_nil balanced_runCall runCall_opens_nothing (runCall_tests_nothing _)

/-- The function calls another one before it tests, and that call is lost. -/
theorem lateTest_stripped :
    stripPreload? "(function()\x7brun();document.createElement(\"link\").relList\x7d)();" = some "" ∧
    TestsLate "(function()\x7brun();document.createElement(\"link\").relList\x7d)();".toList :=
  ⟨by decide +kernel, (plainPreload.insert runCall List.not_mem_nil balanced_runCall runCall_opens_nothing
    (runCall_tests_nothing _)).testsLate_iff.2 ⟨';', by decide, by decide⟩⟩

end Pagefold.Page
