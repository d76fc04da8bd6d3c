/-! # Shortest decimals

A finite binary number `m · 2 ^ q` stands for all reals that round to it.  `Decimal.shortest` finds
the decimal in that interval that has the fewest digits, and of several the one nearest to the
number, by exact arithmetic on natural numbers: for one digit, two, and so on it tries the two
neighbours of the number on the grid of that many digits.  Where both are as near, messages take the
larger one (`plainText`), and data files the even one (`dataText`). -/

namespace Pagefold

/-- The number `coefficient · 10 ^ exponent`. -/
structure Decimal where
  coefficient : Nat
  exponent : Int
deriving DecidableEq, Repr

/-- Which of two neighbours a number goes to that lies halfway between them. -/
inductive TieRule where
  | larger
  | even
deriving DecidableEq, Repr

namespace Decimal

/-- The decimal digits of a number, the first one first. -/
def digits (n : Nat) : List Char := Nat.toDigits 10 n

/-- Drops the zeros at the end of the coefficient. -/
def reduce : (bound : Nat) → Decimal → Decimal
  | 0, d => d
  | bound + 1, d =>
    if d.coefficient != 0 && d.coefficient % 10 == 0 then
      reduce bound ⟨d.coefficient / 10, d.exponent + 1⟩
    else d

/-- The interval of the reals that round to a number, and the number: all three in the unit
`1 / scale`.  The ends belong to it when the significand is even. -/
structure Interval where
  low : Nat
  value : Nat
  high : Nat
  scale : Nat
  closed : Bool
deriving Repr

/-- The interval of `m · 2 ^ q`.  At a power of two the lower neighbour is half as far away. -/
def Interval.of (m : Nat) (q : Int) (atPower : Bool) : Interval :=
  let up := Nat.pow 2 q.toNat
  let scale := 4 * Nat.pow 2 (-q).toNat
  ⟨(4 * m - if atPower then 1 else 2) * up, 4 * m * up, (4 * m + 2) * up, scale, m % 2 == 0⟩

/-- The place of the first digit: the `p` with `10 ^ (p - 1) ≤ value / scale < 10 ^ p`. -/
def Interval.magnitude (i : Interval) : Int :=
  let whole := i.value / i.scale
  if whole != 0 then ((digits whole).length : Int)
  else
    let zeros := (digits i.scale).length - (digits i.value).length
    if Nat.pow 10 zeros * i.value < i.scale then -(zeros : Int) else 1 - (zeros : Int)

/-- Whether `n · 10 ^ e` lies in the interval. -/
def Interval.holds (i : Interval) (n : Nat) (e : Int) : Bool :=
  let x := n * Nat.pow 10 e.toNat * i.scale
  let unit := Nat.pow 10 (-e).toNat
  if i.closed then i.low * unit ≤ x && x ≤ i.high * unit
  else i.low * unit < x && x < i.high * unit

/-- Whether the lower of two neighbours is tried first: `n`, for a number that lies `part / unit` of
the way up to `n + 1`. -/
def prefersLower (ties : TieRule) (n part unit : Nat) : Bool :=
  2 * part < unit || (2 * part == unit && ties == .even && n % 2 == 0)

/-- The neighbour of the value on the grid `10 ^ e` that lies in the interval, the nearer one if
both do. -/
def Interval.onGrid? (i : Interval) (ties : TieRule) (e : Int) : Option Decimal :=
  let top := i.value * Nat.pow 10 (-e).toNat
  let unit := i.scale * Nat.pow 10 e.toNat
  let below := top / unit
  let nearer :=
    if prefersLower ties below (top % unit) unit then [below, below + 1] else [below + 1, below]
  (nearer.find? fun n => n != 0 && i.holds n e).map (⟨·, e⟩)

/-- The shortest decimal of an interval.  Seventeen digits always do. -/
def Interval.shortest (i : Interval) (ties : TieRule) : Decimal :=
  let place := i.magnitude
  let found := (List.range 17).findSome? fun n : Nat => i.onGrid? ties (place - (n + 1))
  reduce 20 (found.getD ⟨0, 0⟩)

/-- The bit of a number's exponent with the least weight; the bits below it are the fraction. -/
def exponentUnit : Nat := Nat.pow 2 52

/-- The bit of a number that holds its sign. -/
def signUnit : Nat := Nat.pow 2 63

/-- The shortest decimal that reads back as the size of a finite `x`. -/
def shortest (ties : TieRule) (x : Float) : Decimal :=
  let bits := x.toBits.toNat % signUnit
  let fraction := bits % exponentUnit
  let biased : Nat := bits / exponentUnit
  if bits == 0 then ⟨0, 0⟩
  else if biased == 0 then (Interval.of fraction (-1074) false).shortest ties
  else
    (Interval.of (exponentUnit + fraction) ((biased : Int) - 1075)
      (fraction == 0 && biased != 1)).shortest ties

/-! ### Texts -/

/-- All digits around the decimal point, with `.0` behind a whole number if asked for. -/
def positional (pointed : Bool) (d : Decimal) : String :=
  let digits := digits d.coefficient
  if 0 ≤ d.exponent then
    String.ofList (digits ++ List.replicate d.exponent.toNat '0') ++ (if pointed then ".0" else "")
  else
    let places := (-d.exponent).toNat
    let padded := List.replicate (places + 1 - digits.length) '0' ++ digits
    String.ofList (padded.take (padded.length - places)) ++ "."
      ++ String.ofList (padded.drop (padded.length - places))

/-- The power of ten of the first digit. -/
def scientificExponent (d : Decimal) : Int := d.exponent + (digits d.coefficient).length - 1

/-- One digit before the point, and a signed power of ten. -/
def scientific (d : Decimal) : String :=
  let e := d.scientificExponent
  let mantissa :=
    match digits d.coefficient with
    | c :: [] => String.ofList [c]
    | c :: rest => String.ofList (c :: '.' :: rest)
    | [] => ""
  mantissa ++ (if e < 0 then "e-" else "e+") ++ toString e.natAbs

end Decimal

/-- Whether the sign bit of a number is set. -/
def signed (x : Float) : Bool := Decimal.signUnit ≤ x.toBits.toNat

/-- A finite number with all its digits, whole numbers without a point. -/
def plainText (x : Float) : String :=
  if x.isNaN then "NaN"
  else
    (if signed x then "-" else "") ++
      (if x.isInf then "inf" else (Decimal.shortest .larger x).positional false)

/-- A number as data files write it: positional from `1e-5` up to `1e16`, with at least one digit
behind the point, and scientific beyond. -/
def dataText (x : Float) : String :=
  if x.isNaN || x.isInf then "null"
  else
    let d := Decimal.shortest .even x
    let e := d.scientificExponent
    (if signed x then "-" else "") ++
      (if d.coefficient == 0 then "0.0"
      else if -5 ≤ e && e < 16 then d.positional true
      else d.scientific)

end Pagefold
