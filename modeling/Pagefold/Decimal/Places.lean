/-! # Quotients with decimal places

Quotients of natural numbers, rounded to the nearest (`roundedQuotient`) and written with two decimal
places (`hundredths`).  A half goes to the even neighbour.  Sizes of files are told in this way
(`sizeText`). -/

namespace Pagefold.Decimal

/-- The natural number nearest to `n / d`; of two the even one. -/
def roundedQuotient (n d : Nat) : Nat :=
  let q := n / d
  let r := n % d
  if 2 * r < d then q
  else if d < 2 * r then q + 1
  else if q % 2 == 0 then q else q + 1

/-- Whatever is rounded lies within a half of what it is rounded to. -/
theorem roundedQuotient_within_half {n d : Nat} (h : 0 < d) :
    2 * (roundedQuotient n d * d) ≤ 2 * n + d ∧ 2 * n ≤ 2 * (roundedQuotient n d * d) + d := by
  have hn := Nat.div_add_mod n d
  have hr := Nat.mod_lt n h
  have hq : (n / d + 1) * d = d * (n / d) + d := by rw [Nat.add_mul, Nat.mul_comm]; omega
  have hc : n / d * d = d * (n / d) := Nat.mul_comm _ _
  unfold roundedQuotient
  dsimp only
  split
  · rw [hc]; omega
  · split
    · rw [hq]; omega
    · split
      · rw [hc]; omega
      · rw [hq]; omega

/-- How many binary digits of a number count. -/
def precision : Nat := 53

/-- The nearest number with no more binary digits than count. -/
def nearestRepresentable (n : Nat) : Nat :=
  let unit := Nat.pow 2 (n.log2 + 1 - precision)
  roundedQuotient n unit * unit

/-- A quotient with two decimal places. -/
def hundredths (n d : Nat) : String :=
  let cents := roundedQuotient (100 * n) d
  let digits := Nat.toDigits 10 (cents % 100)
  toString (cents / 100) ++ "." ++ (if digits.length < 2 then "0" else "") ++ String.ofList digits

def kilobyte : Nat := 1024

def megabyte : Nat := 1024 * kilobyte

def gigabyte : Nat := 1024 * megabyte

/-- The size of a file: below 1024 bytes in bytes, and otherwise in the largest unit that it
reaches. -/
def sizeText (bytes : Nat) : String :=
  let n := nearestRepresentable bytes
  if n < kilobyte then s!"{bytes} B"
  else if n < megabyte then hundredths n kilobyte ++ " KB"
  else if n < gigabyte then hundredths n megabyte ++ " MB"
  else hundredths n gigabyte ++ " GB"

end Pagefold.Decimal
