import Pagefold.Text.Blank
import Pagefold.Text.Bytes
import Pagefold.Text.Cut
import Pagefold.Text.Occurrence
import Pagefold.Text.Word

/-! # Preload code

Bundlers put a function in front of an entry that loads modules ahead, and call it at once.  It is
known by the feature test `document.createElement("link").relList` in its body.  `cutPreload?` cuts
the call out of the code; once all modules are in the page there is nothing left to load. -/

namespace Pagefold.Page

open Text

/-! ### Where the function starts -/

/-- A quote of either kind. -/
def dropQuote? : List Char → Option (List Char)
  | '"' :: rest | '\'' :: rest => some rest
  | _ => none

/-- A given character, after blanks. -/
def dropMark? (mark : Char) (s : List Char) : Option (List Char) :=
  match skipBlanks s with
  | c :: rest => if c == mark then some rest else none
  | [] => none

/-- The feature test that marks preload code. -/
def readMarker? (s : List Char) : Option (Unit × List Char) := do
  let s ← "document.createElement(".toList.isPrefixOf? s
  let s ← dropQuote? (skipBlanks s)
  let s ← "link".toList.isPrefixOf? s
  let s ← dropQuote? s
  let s ← ").relList".toList.isPrefixOf? (skipBlanks s)
  return ((), s)

/-- `function`, perhaps with a name, and a list of parameters. -/
def functionHead? (s : List Char) : Option (List Char) := do
  let s ← "function".toList.isPrefixOf? s
  if s.head?.any isWordChar then none
  else
    let (_, s) ← until? (· == '(') s
    let (_, s) ← until? (· == ')') s
    return s

/-- An arrow without parameters. -/
def arrowHead? (s : List Char) : Option (List Char) := do
  let s ← dropMark? '(' s
  let s ← dropMark? ')' s
  "=>".toList.isPrefixOf? (skipBlanks s)

/-- A parenthesis, the head of a function, and the brace that opens its body. -/
def readOpener? (s : List Char) : Option (Unit × List Char) :=
  match s with
  | '(' :: s =>
    let body? (head? : List Char → Option (List Char)) :=
      (head? (skipBlanks s)).bind (dropMark? '{')
    (body? functionHead? <|> body? arrowHead?).map ((), ·)
  | _ => none

/-! ### Where it ends -/

/-- What follows a string or template literal. -/
def afterLiteral (quote : Char) : List Char → List Char
  | [] => []
  | '\\' :: _ :: rest => afterLiteral quote rest
  | c :: rest => if c == quote then rest else afterLiteral quote rest

/-- What follows the end of a block comment, if it has one. -/
def afterBlockComment? : List Char → Option (List Char)
  | '*' :: '/' :: rest => some rest
  | _ :: rest => afterBlockComment? rest
  | [] => none

theorem length_afterLiteral_le (quote : Char) (s : List Char) :
    (afterLiteral quote s).length ≤ s.length := by
  fun_induction afterLiteral quote s with
  | case1 => simp
  | case2 _ _ ih => simp; omega
  | case3 => simp
  | case4 _ _ _ _ ih => simp; omega

theorem length_of_afterBlockComment? {s r : List Char} (h : afterBlockComment? s = some r) :
    r.length < s.length := by
  fun_induction afterBlockComment? s with
  | case1 =>
    obtain rfl := Option.some.inj h
    simp only [List.length_cons]
    omega
  | case2 _ _ _ ih => have := ih h; simp only [List.length_cons]; omega
  | case3 => simp at h

/-- What follows the brace that closes `depth + 1` open ones.  Braces in literals and comments do
not count. -/
def afterBody? (depth : Nat) (s : List Char) : Option (List Char) :=
  match s with
  | [] => none
  | '/' :: '/' :: rest => afterBody? depth (rest.dropWhile (· != '\n'))
  | '/' :: '*' :: rest =>
    match _h : afterBlockComment? rest with
    | some rest => afterBody? depth rest
    | none => none
  | c :: rest =>
    if c == '{' then afterBody? (depth + 1) rest
    else if c == '}' then
      match depth with
      | 0 => some rest
      | depth + 1 => afterBody? depth rest
    else if c == '"' || c == '\'' || c == '\x60' then afterBody? depth (afterLiteral c rest)
    else afterBody? depth rest
termination_by s.length
decreasing_by
  · have := (List.dropWhile_sublist (· != '\n') (l := rest)).length_le
    simp
    omega
  · have := length_of_afterBlockComment? _h
    simp
    omega
  · simp
  · simp
  · have := length_afterLiteral_le c rest
    simp
    omega
  · simp

/-- What follows the call of a function whose body ends here, with its semicolon. -/
def afterCall? (s : List Char) : Option (List Char) := do
  let s ← dropMark? ')' s
  let s ← dropMark? '(' s
  let s ← dropMark? ')' s
  match s.dropWhile fun c => c == ' ' || c == '\t' with
  | ';' :: rest => return rest
  | rest => return rest

/-! ### Cutting -/

/-- Code with the preload call cut out of it. -/
structure PreloadCut where
  before : List Char
  call : List Char
  after : List Char
deriving DecidableEq, Repr

/-- Finds the preload call: the function that opens last before the first feature test, provided its
body reaches beyond the test. -/
def cutPreload? (code : List Char) : Option PreloadCut := do
  let marker ← (occurrences readMarker? code).head?
  let beforeMarker := (cutAtByte marker.start code).1
  let opener ← (occurrences readOpener? beforeMarker).getLast?
  let behindBody ← afterBody? 0 (cutAtByte opener.stop code).2
  if (cutAtByte marker.stop code).2.length ≤ behindBody.length then none
  else
    let after ← afterCall? behindBody
    let (before, rest) := cutAtByte opener.start code
    return ⟨before, rest.take (rest.length - after.length), after⟩

/-- What is left when the call is cut out, without a line end right behind it. -/
def PreloadCut.remaining (cut : PreloadCut) : List Char :=
  cut.before ++ (match cut.after with
    | '\n' :: rest => rest
    | rest => rest)

/-- Code without its preload call, if it has one. -/
def stripPreload? (code : String) : Option String :=
  (cutPreload? code.toList).map fun cut => String.ofList cut.remaining

end Pagefold.Page
