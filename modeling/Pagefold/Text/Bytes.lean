/-! # Byte positions in a text

Positions in a document count the bytes of its UTF-8 form.  `cutAtByte` cuts a text at a position,
and `splice` puts a text in the place of what lies between two positions. -/

namespace Pagefold.Text

/-- How many bytes a text takes. -/
def byteSize (s : List Char) : Nat := s.foldl (fun n c => n + c.utf8Size) 0

/-- Goes on cutting, with the characters already passed last one first. -/
def cutAtByteFrom (front : List Char) : (position : Nat) → List Char → List Char × List Char
  | _, [] => (front.reverse, [])
  | position, c :: rest =>
    if c.utf8Size ≤ position then cutAtByteFrom (c :: front) (position - c.utf8Size) rest
    else (front.reverse, c :: rest)

/-- What lies before a position and behind it. -/
def cutAtByte (position : Nat) (s : List Char) : List Char × List Char :=
  cutAtByteFrom [] position s

/-- What lies between two positions. -/
def slice (start stop : Nat) (s : List Char) : List Char :=
  (cutAtByte (stop - start) (cutAtByte start s).2).1

/-- `text` in the place of what lies between two positions. -/
def splice (start stop : Nat) (text s : List Char) : List Char :=
  (cutAtByte start s).1 ++ text ++ (cutAtByte stop s).2

theorem foldl_utf8Size (n : Nat) (s : List Char) :
    s.foldl (fun n c => n + c.utf8Size) n = n + byteSize s := by
  induction s generalizing n with
  | nil => rfl
  | cons c s ih =>
    have : byteSize (c :: s) = 0 + c.utf8Size + byteSize s := ih (0 + c.utf8Size)
    rw [List.foldl_cons, ih, this]
    omega

@[simp] theorem byteSize_cons (c : Char) (s : List Char) :
    byteSize (c :: s) = c.utf8Size + byteSize s := by
  have := foldl_utf8Size (0 + c.utf8Size) s
  simpa [byteSize] using this

@[simp] theorem byteSize_append (s t : List Char) :
    byteSize (s ++ t) = byteSize s + byteSize t := by
  rw [byteSize, List.foldl_append, foldl_utf8Size]
  rfl

theorem cutAtByteFrom_byteSize (front s t : List Char) :
    cutAtByteFrom front (byteSize s) (s ++ t) = (front.reverse ++ s, t) := by
  induction s generalizing front with
  | nil =>
    cases t with
    | nil => simp [cutAtByteFrom]
    | cons c t =>
      have : ¬ c.utf8Size ≤ 0 := by
        have := Char.utf8Size_pos c
        omega
      simp [cutAtByteFrom, byteSize, this]
  | cons c s ih => simp [cutAtByteFrom, ih]

/-- A cut at the end of a part gives the part back. -/
theorem cutAtByte_byteSize (s t : List Char) : cutAtByte (byteSize s) (s ++ t) = (s, t) := by
  simpa [cutAtByte] using cutAtByteFrom_byteSize [] s t

end Pagefold.Text
