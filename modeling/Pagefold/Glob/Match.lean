import Pagefold.Glob.Pattern
import Pagefold.Text.Cut

/-! # Matching file names

A pattern is held against the bytes of a name.  The places reached so far are a list of marks, one
before each byte and one at the end; every token moves the marks on (`advance`), so all ways to
match are followed at once. -/

namespace Pagefold.Glob

/-- A mark before each byte of a name and one at the end: whether the place can be reached. -/
abbrev Marks := List Bool

def slash : UInt8 := 47

def dot : UInt8 := 46

def bytesOf (s : List Char) : List UInt8 := s.flatMap String.utf8EncodeChar

/-- Moves each mark over one byte, if the byte will do. -/
def overByte (ok : UInt8 → Bool) (name : List UInt8) (marks : Marks) : Marks :=
  false :: marks.zipWith (fun mark b => mark && ok b) name

/-- Moves each mark over bytes that are given. -/
def overBytes (bytes name : List UInt8) (marks : Marks) : Marks :=
  bytes.foldl (fun marks b => overByte (· == b) name marks) marks

/-- Spreads marks to every later place. -/
def spread (reached : Bool) : Marks → Marks
  | [] => []
  | mark :: marks => (reached || mark) :: spread (reached || mark) marks

/-- The places that either list marks. -/
def either (a b : Marks) : Marks := a.zipWith (· || ·) b

/-- A byte is in a class when it lies between two neighbours in the written ranges: each end of a
range counts by its bytes, and a range extends from the last byte of its first character to the first
byte of its last one. -/
def inRange (b : UInt8) (range : Char × Char) : Bool :=
  let low := bytesOf [range.1]
  if range.1 == range.2 then low.contains b
  else
    let high := bytesOf [range.2]
    low.contains b || high.contains b || (low.getLastD 0 ≤ b && b ≤ high.headD 0)

mutual

/-- Moves marks over what a token stands for. -/
def advance (name : List UInt8) (marks : Marks) : Token → Marks
  | .literal c => overBytes (bytesOf [c]) name marks
  | .any => overByte (fun _ => true) name marks
  | .anyRun => spread false marks
  | .directoriesBefore => either marks (overByte (· == slash) name (spread false marks))
  | .directoriesAfter => spread false (overByte (· == slash) name marks)
  | .directoriesBetween =>
    let behind := overByte (· == slash) name marks
    either behind (overByte (· == slash) name (spread false behind))
  | .oneOf negated ranges => overByte (fun b => ranges.any (inRange b) != negated) name marks
  | .alternatives branches =>
    match advanceBranches name marks branches with
    | some marks => marks
    | none => marks

/-- Moves marks over tokens, one after the other. -/
def advanceAll (name : List UInt8) (marks : Marks) : List Token → Marks
  | [] => marks
  | token :: tokens => advanceAll name (advance name marks token) tokens

/-- Moves marks over any one of the branches that stand for something; nothing if there are none.
A branch without a text says nothing. -/
def advanceBranches (name : List UInt8) (marks : Marks) : List (List Token) → Option Marks
  | [] => none
  | branch :: branches =>
    let others := advanceBranches name marks branches
    if isVoid branch then others
    else
      let reached := advanceAll name marks branch
      some (match others with
        | some others => either reached others
        | none => reached)

/-- Whether a branch has no text: it is empty, or holds nothing but groups of such branches. -/
def isVoid : List Token → Bool
  | [] => true
  | token :: tokens => isVoidToken token && isVoid tokens

def isVoidToken : Token → Bool
  | .alternatives branches => areVoid branches
  | _ => false

def areVoid : List (List Token) → Bool
  | [] => true
  | branch :: branches => isVoid branch && areVoid branches

end

/-! ### Names without an extension -/

/-- The characters of tokens that are nothing but characters. -/
def plain? : List Token → Option (List Char)
  | [] => some []
  | .literal c :: tokens => (plain? tokens).map (c :: ·)
  | _ :: _ => none

/-- The tokens behind a leading `**/`. -/
def inAnyDirectory : List Token → List Token
  | .directoriesBefore :: tokens => tokens
  | tokens => tokens

/-- Whether a pattern is one file name in any directory. -/
def isFileName : List Token → Bool
  | .directoriesBefore :: tokens => (plain? tokens).any fun s => !s.isEmpty && !s.contains '/'
  | _ => false

/-- Whether a pattern is one extension of any name. -/
def isExtension (tokens : List Token) : Bool :=
  match inAnyDirectory tokens with
  | .anyRun :: .literal '.' :: extension =>
    (plain? extension).any fun s => !s.contains '.' && !s.contains '/'
  | _ => false

/-- Whether a pattern is one text, at the end of any name unless it stands alone. -/
def isEnding (tokens : List Token) : Bool :=
  let ending :=
    match inAnyDirectory tokens with
    | .anyRun :: rest => rest
    | rest => rest
  (plain? ending).isSome

/-- Whether a pattern ends in the text of an extension. -/
def endsInExtension (tokens : List Token) : Bool :=
  let ending := tokens.reverse.takeWhile fun
    | .literal c => c != '/' && c != '.'
    | _ => false
  match tokens.drop (tokens.length - ending.length - 1) with
  | .literal '.' :: _ => true
  | _ => false

/-- Patterns that are decided by the file name or by the extension of what they are held against. -/
def goesByFileName (tokens : List Token) : Bool :=
  isFileName tokens || isExtension tokens || (endsInExtension tokens && !isEnding tokens)

/-! ### Matching -/

/-- Whether a name ends in the step `..`, which is no file name. -/
def endsAbove (name : List UInt8) : Bool :=
  name.reverse.takeWhile (· != slash) == [dot, dot]

/-- Whether a pattern fits a whole name.  A name that ends in `..` has neither file name nor
extension to go by. -/
def fits (tokens : List Token) (name : List UInt8) : Bool :=
  let start := true :: List.replicate name.length false
  match tokens with
  | [.directoriesBefore] => true
  | _ =>
    (advanceAll name start tokens).getLastD false
      && !(endsAbove name && goesByFileName tokens)

end Pagefold.Glob
