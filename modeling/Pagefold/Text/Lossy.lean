/-! # Bytes that may be no text

Bytes that may be no text are read with U+FFFD in the place of what is no character (`lossy`), once for
each stretch that begins like a character and then breaks off. -/

namespace Pagefold.Text

/-- How many bytes follow the first byte of a character, and from where to where the next one lies. -/
def behindFirst? (b : UInt8) : Option (Nat × UInt8 × UInt8) :=
  if 0xC2 ≤ b ∧ b ≤ 0xDF then some (1, 0x80, 0xBF)
  else if b = 0xE0 then some (2, 0xA0, 0xBF)
  else if b = 0xED then some (2, 0x80, 0x9F)
  else if 0xE1 ≤ b ∧ b ≤ 0xEF then some (2, 0x80, 0xBF)
  else if b = 0xF0 then some (3, 0x90, 0xBF)
  else if 0xF1 ≤ b ∧ b ≤ 0xF3 then some (3, 0x80, 0xBF)
  else if b = 0xF4 then some (3, 0x80, 0x8F)
  else none

/-- How many of the bytes behind `b` go on with a character that begins with `b`. -/
def continued (b : UInt8) (rest : List UInt8) : Nat :=
  match behindFirst? b, rest with
  | some (count, low, high), next :: rest =>
    if low ≤ next ∧ next ≤ high then
      1 + ((rest.take (count - 1)).takeWhile fun b => 0x80 ≤ b ∧ b ≤ 0xBF).length
    else 0
  | _, _ => 0

/-- Reads bytes as a text, with U+FFFD for each longest stretch that only begins like a character. -/
def lossy : List UInt8 → List Char
  | [] => []
  | b :: rest =>
    match (b :: rest).toByteArray.utf8DecodeChar? 0 with
    | some c => c :: lossy (rest.drop (c.utf8Size - 1))
    | none => '\uFFFD' :: lossy (rest.drop (continued b rest))
termination_by bytes => bytes.length
decreasing_by
  · simp only [List.length_drop, List.length_cons]
    omega
  · simp only [List.length_drop, List.length_cons]
    omega

/-- A character that breaks off behind a text is one U+FFFD, and so is each byte that begins none. -/
example : lossy [0x61, 0xE2, 0x82, 0x62, 0xF0, 0x80, 0xED, 0xA0, 0xFF]
    = ['a', '\uFFFD', 'b', '\uFFFD', '\uFFFD', '\uFFFD', '\uFFFD', '\uFFFD'] := by
  decide +kernel

end Pagefold.Text
