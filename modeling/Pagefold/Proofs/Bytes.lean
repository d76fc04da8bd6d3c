import Mathlib.Data.List.Infix
import Pagefold.Text.Bytes

/-! # Byte positions

A byte position that lies between two characters cuts a text in one way only
(`append_inj_of_byteSize`), and of two such positions the later one lies behind the earlier one
(`exists_gap_of_byteSize_le`).  A stretch that is replaced by bytes is the stretch between two such
cuts (`splice_append`). -/

namespace Pagefold.Text

variable {front back s t : List Char}

@[simp] theorem byteSize_nil : byteSize [] = 0 := rfl

theorem byteSize_ofList (s : List Char) : (String.ofList s).utf8ByteSize = byteSize s := by
  induction s with
  | nil => rfl
  | cons c s ih =>
      have hsplit : String.ofList (c :: s) = String.singleton c ++ String.ofList s := by
        rw [String.singleton_eq_ofList, ← String.ofList_append]
        rfl
      rw [hsplit, String.utf8ByteSize_append, ih, byteSize_cons, String.utf8ByteSize_singleton]

/-- The bytes of a text are those of its characters. -/
theorem byteSize_toList (s : String) : byteSize s.toList = s.utf8ByteSize := by
  rw [← byteSize_ofList, String.ofList_toList]

theorem eq_nil_of_byteSize_eq_zero (h : byteSize s = 0) : s = [] := by
  cases s with
  | nil => rfl
  | cons c s =>
      have hpos := Char.utf8Size_pos c
      rw [byteSize_cons] at h
      omega

theorem byteSize_pos (h : s ≠ []) : 0 < byteSize s :=
  Nat.pos_of_ne_zero fun h0 => h (eq_nil_of_byteSize_eq_zero h0)

/-- Of two cuts of a text, the later one leaves a gap behind the earlier one. -/
theorem exists_gap_of_byteSize_le (h : front ++ s = back ++ t) (hle : byteSize front ≤ byteSize back) :
    ∃ gap, back = front ++ gap ∧ s = gap ++ t := by
  rcases List.append_eq_append_iff.1 h with ⟨gap, hback, hs⟩ | ⟨gap, hfront, ht⟩
  · exact ⟨gap, hback, hs⟩
  · -- Then the gap lies on the other side, so there is none.
    rw [hfront, byteSize_append] at hle
    obtain rfl : gap = [] := eq_nil_of_byteSize_eq_zero (by omega)
    exact ⟨[], by simpa using hfront.symm, by simpa using ht.symm⟩

/-- A text is cut at a position in one way. -/
theorem append_inj_of_byteSize (h : front ++ s = back ++ t) (he : byteSize front = byteSize back) :
    front = back ∧ s = t := by
  obtain ⟨gap, hback, hs⟩ := exists_gap_of_byteSize_le h (Nat.le_of_eq he)
  rw [hback, byteSize_append] at he
  obtain rfl : gap = [] := eq_nil_of_byteSize_eq_zero (by omega)
  exact ⟨by simpa using hback.symm, hs⟩

/-- A replacement puts its text in the place of the stretch between its positions. -/
theorem splice_append (front own back text : List Char) :
    splice (byteSize front) (byteSize front + byteSize own) text (front ++ own ++ back)
      = front ++ text ++ back := by
  have hstop : byteSize front + byteSize own = byteSize (front ++ own) := (byteSize_append _ _).symm
  rw [splice, hstop, cutAtByte_byteSize, List.append_assoc front own back, cutAtByte_byteSize]

end Pagefold.Text
