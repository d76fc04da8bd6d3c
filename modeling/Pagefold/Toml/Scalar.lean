import Pagefold.Json.Reader

/-! # Plain values in TOML

Strings in their four forms, numbers, dates and times, as readers that take a value off the front of
a text.  A date or time becomes an object with one field. -/

namespace Pagefold.Toml

abbrev Reader (α : Type) := List Char → Option (α × List Char)

/-! ### Blanks -/

def isBlank (c : Char) : Bool := c == ' ' || c == '\t'

def skipBlanks (s : List Char) : List Char := s.dropWhile isBlank

/-- What follows the end of a line. -/
def lineEnd? : List Char → Option (List Char)
  | '\n' :: rest => some rest
  | '\r' :: '\n' :: rest => some rest
  | _ => none

/-- Characters that may stand in a line. -/
def isLineChar (c : Char) : Bool := c == '\t' || (32 ≤ c.toNat && c.toNat ≠ 127)

/-! ### Strings -/

/-- A number of hexadecimal digits that name a character. -/
def namedChar? (digits : Nat) : Reader Char := fun s => do
  let values ← (s.take digits).mapM Json.hexValue?
  let n := values.foldl (fun n d => n * 16 + d) 0
  if values.length == digits && n.isValidChar then some (Char.ofNat n, s.drop digits) else none

/-- What a backslash stands for together with what follows it. -/
def escaped? : Reader Char
  | 'u' :: rest => namedChar? 4 rest
  | 'U' :: rest => namedChar? 8 rest
  | c :: rest =>
    match c with
    | 'b' => some ('\x08', rest)
    | 't' => some ('\t', rest)
    | 'n' => some ('\n', rest)
    | 'f' => some ('\x0c', rest)
    | 'r' => some ('\r', rest)
    | '"' | '\\' => some (c, rest)
    | _ => none
  | [] => none

/-- The rest of a string on one line; `escapes` says whether a backslash is special.  The characters
read so far come last one first. -/
def lineString? (quote : Char) (escapes : Bool) : (bound : Nat) → List Char → Reader String
  | 0, _, _ => none
  | _ + 1, _, [] => none
  | bound + 1, acc, c :: rest =>
    if c == quote then some (String.ofList acc.reverse, rest)
    else if escapes && c == '\\' then
      (escaped? rest).bind fun (e, rest) => lineString? quote escapes bound (e :: acc) rest
    else if isLineChar c then lineString? quote escapes bound (c :: acc) rest
    else none

/-- What follows a backslash at the end of a line, and the blank lines and blanks behind it. -/
def continuation? (s : List Char) : Option (List Char) :=
  (lineEnd? (skipBlanks s)).bind (skipLines s.length)
where
  skipLines : Nat → List Char → Option (List Char)
    | 0, s => some s
    | bound + 1, s =>
      match lineEnd? (skipBlanks s) with
      | some rest => skipLines bound rest
      | none => some (skipBlanks s)

/-- The rest of a string over several lines.  It ends at three quotes; of up to five, the first two
belong to it. -/
def blockString? (quote : Char) (escapes : Bool) : (bound : Nat) → List Char → Reader String
  | 0, _, _ => none
  | _ + 1, _, [] => none
  | bound + 1, acc, c :: rest =>
    if c == quote then
      let run := ((c :: rest).takeWhile (· == quote)).length
      if run < 3 then blockString? quote escapes bound (c :: acc) rest
      else
        let kept := min (run - 3) 2
        some (String.ofList (List.replicate kept quote ++ acc).reverse, (c :: rest).drop (kept + 3))
    else if escapes && c == '\\' then
      match continuation? rest with
      | some rest => blockString? quote escapes bound acc rest
      | none => (escaped? rest).bind fun (e, rest) => blockString? quote escapes bound (e :: acc) rest
    else
      match lineEnd? (c :: rest) with
      | some rest => blockString? quote escapes bound ('\n' :: acc) rest
      | none => if isLineChar c then blockString? quote escapes bound (c :: acc) rest else none

/-- A string on one line in its quotes. -/
def quotedOnLine? : Reader String
  | '"' :: rest => lineString? '"' true (rest.length + 1) [] rest
  | '\'' :: rest => lineString? '\'' false (rest.length + 1) [] rest
  | _ => none

/-- A string in its quotes.  A line end right behind three opening quotes does not count. -/
def string? (s : List Char) : Option (String × List Char) :=
  let block (quote : Char) (escapes : Bool) (rest : List Char) :=
    let rest := (lineEnd? rest).getD rest
    blockString? quote escapes (rest.length + 1) [] rest
  match s with
  | '"' :: '"' :: '"' :: rest => block '"' true rest
  | '\'' :: '\'' :: '\'' :: rest => block '\'' false rest
  | _ => quotedOnLine? s

/-! ### Numbers -/

/-- Goes on reading digits, with single underscores between them. -/
def moreDigits? (ok : Char → Bool) : Reader (List Char)
  | [] => some ([], [])
  | '_' :: c :: rest =>
    if ok c then (moreDigits? ok rest).map fun (ds, rest) => (c :: ds, rest) else none
  | c :: rest =>
    if ok c then (moreDigits? ok rest).map fun (ds, rest) => (c :: ds, rest)
    else if c == '_' then none
    else some ([], c :: rest)

/-- Digits, of which there is at least one, with single underscores between them. -/
def digits? (ok : Char → Bool) : Reader (List Char)
  | c :: rest => if ok c then (moreDigits? ok rest).map fun (ds, rest) => (c :: ds, rest) else none
  | [] => none

/-- Digits without leading zeros. -/
def plainDigits? : Reader (List Char)
  | '0' :: rest => some (['0'], rest)
  | s => digits? Char.isDigit s

/-- The value of digits in a base. -/
def valueOf (base : Nat) (digits : List Char) : Nat :=
  digits.foldl (fun n c => n * base + (Json.hexValue? c).getD 0) 0

/-- A sign, if there is one; whether it is a minus. -/
def sign : List Char → Bool × List Char
  | '-' :: rest => (true, rest)
  | '+' :: rest => (false, rest)
  | s => (false, s)

/-- A whole number that fits into 64 bits with its sign. -/
def signedWord? (negative : Bool) (n : Nat) : Option Json :=
  if negative then if n ≤ Json.signedLimit then some (.int (-(n : Int))) else none
  else if n < Json.signedLimit then some (.int n) else none

/-- A whole number. -/
def integer? (s : List Char) : Option (Json × List Char) :=
  let inBase (base : Nat) (ok : Char → Bool) (rest : List Char) := do
    let (ds, rest) ← digits? ok rest
    return (← signedWord? false (valueOf base ds), rest)
  match s with
  | '0' :: 'x' :: rest => inBase 16 (fun c => (Json.hexValue? c).isSome) rest
  | '0' :: 'o' :: rest => inBase 8 (fun c => '0' ≤ c && c ≤ '7') rest
  | '0' :: 'b' :: rest => inBase 2 (fun c => c == '0' || c == '1') rest
  | _ => do
    let (negative, rest) := sign s
    let (ds, rest) ← plainDigits? rest
    return (← signedWord? negative (valueOf 10 ds), rest)

/-- The number nearest to a decimal. -/
def nearest (coefficient : Nat) (exponent : Int) : Float :=
  let magnitude := exponent + (Nat.toDigits 10 coefficient).length
  if coefficient == 0 || magnitude < -400 then 0.0
  else if 400 < magnitude then 1.0 / 0.0
  else Float.ofScientific coefficient (exponent < 0) exponent.natAbs

/-- The exponent behind its letter. -/
def exponent? (s : List Char) : Option (Int × List Char) := do
  let (negative, rest) := sign s
  let (ds, rest) ← digits? Char.isDigit rest
  let n : Int := valueOf 10 ds
  return (if negative then -n else n, rest)

def isExponentMark (c : Char) : Bool := c == 'e' || c == 'E'

/-- A number with a fraction or an exponent.  One beyond the largest number is none. -/
def decimal? (s : List Char) : Option (Json × List Char) := do
  let (negative, rest) := sign s
  let (whole, rest) ← plainDigits? rest
  let (fraction, rest) : List Char × List Char ← match rest with
    | '.' :: rest => digits? Char.isDigit rest
    | _ => some ([], rest)
  let (by10, rest) : Int × List Char ← match rest with
    | c :: rest => if isExponentMark c then exponent? rest else some (0, c :: rest)
    | [] => some (0, [])
  let x := nearest (valueOf 10 (whole ++ fraction)) (by10 - fraction.length)
  if x.isInf && !negative then none
  else return (.number (.float (if negative then -x else x)), rest)

/-- A number with a fraction or an exponent, but no whole number. -/
def float? (s : List Char) : Option (Json × List Char) :=
  let (negative, rest) := sign s
  let after := (plainDigits? rest).map (·.2)
  match after.bind List.head? with
  | some c => if c == '.' || isExponentMark c then decimal? s else none
  | none =>
    let special (x : Float) (rest : List Char) : Option (Json × List Char) :=
      some (.number (.float (if negative then -x else x)), rest)
    match rest with
    | 'i' :: 'n' :: 'f' :: rest => special (1.0 / 0.0) rest
    | 'n' :: 'a' :: 'n' :: rest => special (0.0 / 0.0) rest
    | _ => none

/-! ### Dates and times -/

/-- A number of decimal digits whose value lies within bounds. -/
def fixed? (count low high : Nat) : Reader Nat := fun s =>
  let ds := s.take count
  let n := valueOf 10 ds
  if ds.length == count && ds.all Char.isDigit && low ≤ n && n ≤ high then some (n, s.drop count)
  else none

def mark? (ok : Char → Bool) : List Char → Option (List Char)
  | c :: rest => if ok c then some rest else none
  | [] => none

def daysIn (year month : Nat) : Nat :=
  if month == 2 then if year % 4 == 0 && (year % 100 != 0 || year % 400 == 0) then 29 else 28
  else if month == 4 || month == 6 || month == 9 || month == 11 then 30
  else 31

/-- A number with leading zeros. -/
def padded (width n : Nat) : String :=
  let ds := Nat.toDigits 10 n
  String.ofList (List.replicate (width - ds.length) '0' ++ ds)

/-- A day as year, month and day. -/
def date? (s : List Char) : Option (String × List Char) := do
  let (year, s) ← fixed? 4 0 9999 s
  let s ← mark? (· == '-') s
  let (month, s) ← fixed? 2 1 12 s
  let s ← mark? (· == '-') s
  let (day, s) ← fixed? 2 1 31 s
  if daysIn year month < day then none
  else return (padded 4 year ++ "-" ++ padded 2 month ++ "-" ++ padded 2 day, s)

/-- The digits behind the second, of which nine count. -/
def secondFraction? : Reader String
  | '.' :: rest =>
    let ds := rest.takeWhile Char.isDigit
    let kept := ((ds.take 9).reverse.dropWhile (· == '0')).reverse
    if ds.isEmpty then none
    else some (if kept.isEmpty then "" else String.ofList ('.' :: kept), rest.drop ds.length)
  | s => some ("", s)

/-- A time of day. -/
def time? (s : List Char) : Option (String × List Char) := do
  let (hour, s) ← fixed? 2 0 23 s
  let s ← mark? (· == ':') s
  let (minute, s) ← fixed? 2 0 59 s
  let s ← mark? (· == ':') s
  let (second, s) ← fixed? 2 0 60 s
  let (fraction, s) ← secondFraction? s
  return (padded 2 hour ++ ":" ++ padded 2 minute ++ ":" ++ padded 2 second ++ fraction, s)

/-- The distance of a time from the one in Greenwich, if it is given. -/
def offset? : Reader String
  | c :: rest =>
    if c == 'Z' || c == 'z' then some ("Z", rest)
    else if c == '+' || c == '-' then do
      let (hours, rest) ← fixed? 2 0 23 rest
      let rest ← mark? (· == ':') rest
      let (minutes, rest) ← fixed? 2 0 59 rest
      let mark := if hours + minutes == 0 then '+' else c
      return (String.singleton mark ++ padded 2 hours ++ ":" ++ padded 2 minutes, rest)
    else some ("", c :: rest)
  | [] => some ("", [])

/-- A moment as a value. -/
def moment (text : String) : Json := .object [("$__toml_private_datetime", .string text)]

/-- A day, a time, or both. -/
def dateTime? (s : List Char) : Option (Json × List Char) :=
  match date? s with
  | none => (time? s).map fun (time, rest) => (moment time, rest)
  | some (date, rest) =>
    let timed? := (mark? (fun c => c == 'T' || c == 't' || c == ' ') rest).bind time?
    match timed? with
    | none => some (moment date, rest)
    | some (time, rest) =>
      (offset? rest).map fun (offset, rest) => (moment (date ++ "T" ++ time ++ offset), rest)

/-- A number, a date or a time. -/
def number? (s : List Char) : Option (Json × List Char) :=
  dateTime? s <|> float? s <|> integer? s

end Pagefold.Toml
