import Pagefold.Text.Cut

/-! # Slash-separated paths

Paths as written in references and on command lines.  A path is reduced by its text alone
(`clean`): empty steps and `.` are dropped, and `..` takes back the step before it, if that is a
name.  What is left of a relative path without steps is written `.`. -/

namespace Pagefold.Path

/-- The steps of a path, without the empty ones and `.`. -/
def steps (s : List Char) : List (List Char) :=
  (s.splitOn '/').filter fun step => !step.isEmpty && step != ['.']

def isRooted (s : List Char) : Bool := s.head? == some '/'

/-- One step further from a reduced path, whose last step comes first.  Above the root there is
nothing, so there `..` changes nothing. -/
def walk (rooted : Bool) (back : List (List Char)) (step : List Char) : List (List Char) :=
  if step == ['.', '.'] then
    match back with
    | [] => if rooted then [] else [step]
    | last :: rest => if last == ['.', '.'] then step :: back else rest
  else step :: back

/-- The reduced steps of a path, in order. -/
def reduced (s : List Char) : List (List Char) :=
  ((steps s).foldl (walk (isRooted s)) []).reverse

/-- The text of a path from its steps. -/
def ofSteps (rooted : Bool) (steps : List (List Char)) : List Char :=
  if rooted then '/' :: ['/'].intercalate steps
  else if steps.isEmpty then ['.']
  else ['/'].intercalate steps

/-- A path without empty steps, `.` and steps taken back. -/
def clean (s : List Char) : List Char := ofSteps (isRooted s) (reduced s)

/-! ### Parts -/

/-- The parts of a path: the root, if it begins there, and the steps.  A leading `.` is a part. -/
def parts (s : List Char) : List (List Char) :=
  (if isRooted s then [['/']]
    else if s == ['.'] || ['.', '/'].isPrefixOf s then [['.']]
    else [])
    ++ steps s

/-- The path of some parts. -/
def ofParts : List (List Char) → List Char
  | ['/'] :: steps => '/' :: ['/'].intercalate steps
  | parts => ['/'].intercalate parts

/-- A path from the end of another one.  A rooted path stands for itself. -/
def join (base s : List Char) : List Char :=
  if isRooted s || base.isEmpty then s
  else if base.getLast? == some '/' then base ++ s
  else base ++ '/' :: s

/-- A path without its last part. -/
def parent? (s : List Char) : Option (List Char) :=
  let ps := parts s
  if ps.isEmpty || ps == [['/']] then none else some (ofParts ps.dropLast)

/-- The last part, if it is a name. -/
def lastName? (s : List Char) : Option (List Char) :=
  (parts s).getLast?.filter fun p => p != ['/'] && p != ['.'] && p != ['.', '.']

/-- What follows the last dot of the last name, unless the dot begins the name. -/
def extension? (s : List Char) : Option (List Char) :=
  (lastName? s).bind fun name =>
    (Text.lastOf? (· == '.') name).bind fun (stem, ending) =>
      if stem.isEmpty then none else some ending

/-! ### Ends of references -/

/-- What follows the last slash. -/
def fileName (s : List Char) : List Char := (s.reverse.takeWhile (· != '/')).reverse

/-- What stands before the last slash, if there is one. -/
def directory? (s : List Char) : Option (List Char) :=
  (Text.lastOf? (· == '/') s).map (·.1)

end Pagefold.Path
