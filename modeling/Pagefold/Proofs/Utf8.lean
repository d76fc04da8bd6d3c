import Pagefold.Proofs.Bytes
import Pagefold.Text.Lossy

/-! # UTF-8

The bytes of a text, character by character (`utf8`): a character of the lower half is one byte, and any
other one is bytes of the upper half only (`utf8EncodeChar_cases`), so the byte of a character of the
lower half is found nowhere else.

When bytes that may be no text are read with U+FFFD in the place of what is no character (`lossy`), the
bytes of a text are read as the text (`lossy_utf8`).  No other bytes are read without U+FFFD
(`utf8_lossy`), and none as a character of the lower half but its own (`toUInt8_mem_of_mem_lossy`). -/

namespace Pagefold.Text

variable {s : List Char} {c d : Char} {rest : List UInt8}

/-! ### The bytes of a text -/

/-- The bytes of a text. -/
def utf8 (s : List Char) : List UInt8 := s.flatMap String.utf8EncodeChar

@[simp] theorem utf8_nil : utf8 [] = [] := rfl

@[simp] theorem utf8_cons (c : Char) (s : List Char) :
    utf8 (c :: s) = String.utf8EncodeChar c ++ utf8 s := rfl

theorem utf8_toList (s : String) : utf8 s.toList = s.toUTF8.data.toList := by
  have hbytes : s.toUTF8 = (utf8 s.toList).toByteArray := (String.utf8Encode_toList (b := s)).symm
  rw [hbytes, List.data_toByteArray]

/-- A character is one byte of the lower half, or a byte that starts it and others, all of the upper half. -/
theorem utf8EncodeChar_cases (c : Char) :
    c.toNat < 0x80 ∧ String.utf8EncodeChar c = [c.toUInt8] ∨
    0x80 ≤ c.toNat ∧ ∃ first more, String.utf8EncodeChar c = first :: more ∧ 0xC0 ≤ first.toNat ∧
      ∀ b ∈ more, 0x80 ≤ b.toNat := by
  have hval : c.val.toNat = c.toNat := rfl
  have hmax : c.toNat < 0x110000 := by
    rcases c.valid with h | h
    · omega
    · omega
  unfold String.utf8EncodeChar
  simp only [hval]
  split_ifs with h1 h2 h3
  · exact .inl ⟨by omega, rfl⟩
  · refine .inr ⟨by omega, _, _, rfl, ?_, ?_⟩ <;> simp <;> omega
  · refine .inr ⟨by omega, _, _, rfl, ?_, ?_⟩ <;> simp <;> omega
  · refine .inr ⟨by omega, _, _, rfl, ?_, ?_⟩ <;> simp <;> omega

theorem utf8EncodeChar_of_lt (h : d.toNat < 0x80) : String.utf8EncodeChar d = [d.toUInt8] := by
  rcases utf8EncodeChar_cases d with ⟨_, hd⟩ | ⟨hd, _⟩
  · exact hd
  · omega

theorem toNat_toUInt8 (h : d.toNat < 0x80) : d.toUInt8.toNat = d.toNat := by
  have hval : d.toUInt8.toNat = d.toNat % 256 := UInt32.toNat_toUInt8 d.val
  omega

/-- The byte of a character of the lower half belongs to no other character. -/
theorem eq_of_mem_utf8EncodeChar (hd : d.toNat < 0x80) (h : d.toUInt8 ∈ String.utf8EncodeChar c) :
    c = d := by
  rcases utf8EncodeChar_cases c with ⟨hc, hbytes⟩ | ⟨_, first, more, hbytes, hfirst, hmore⟩
  · rw [hbytes, List.mem_singleton] at h
    have := congrArg UInt8.toNat h
    rw [toNat_toUInt8 hd, toNat_toUInt8 hc] at this
    exact Char.toNat_inj.1 this.symm
  · rw [hbytes, List.mem_cons] at h
    have := toNat_toUInt8 hd
    rcases h with h | h
    · rw [← h] at hfirst
      omega
    · have := hmore _ h
      omega

/-- The first byte of a text tells whether it starts with a given character of the lower half. -/
theorem head?_utf8_eq_some_iff (hd : d.toNat < 0x80) :
    (utf8 s).head? = some d.toUInt8 ↔ s.head? = some d := by
  cases s with
  | nil => simp
  | cons c s =>
      obtain ⟨first, more, hc⟩ := List.exists_cons_of_ne_nil (String.utf8EncodeChar_ne_nil (c := c))
      rw [utf8_cons, hc, List.cons_append, List.head?_cons, List.head?_cons, Option.some.injEq,
        Option.some.injEq]
      constructor
      · rintro rfl
        exact eq_of_mem_utf8EncodeChar hd (by rw [hc]; exact List.mem_cons_self)
      · rintro rfl
        rw [utf8EncodeChar_of_lt hd] at hc
        exact (List.cons.inj hc).1.symm

/-- Whether a character may start with the first of some bytes, or no byte is left. -/
def startsCharacter : List UInt8 → Bool
  | [] => true
  | b :: _ => b < 0x80 || 0xC0 ≤ b

theorem startsCharacter_utf8 (s : List Char) : startsCharacter (utf8 s) = true := by
  cases s with
  | nil => rfl
  | cons c s =>
      rw [utf8_cons]
      rcases utf8EncodeChar_cases c with ⟨hc, hbytes⟩ | ⟨_, first, more, hbytes, hfirst, _⟩
      · rw [hbytes]
        have := toNat_toUInt8 hc
        simp [startsCharacter, UInt8.lt_iff_toNat_lt, this, hc]
      · rw [hbytes]
        simp [startsCharacter, UInt8.le_iff_toNat_le, hfirst]

theorem utf8_append (s t : List Char) : utf8 (s ++ t) = utf8 s ++ utf8 t := List.flatMap_append

theorem length_utf8 (s : List Char) : (utf8 s).length = byteSize s := by
  induction s with
  | nil => rfl
  | cons c s ih => rw [utf8_cons, List.length_append, String.length_utf8EncodeChar, ih, byteSize_cons]

theorem ne_of_mem_utf8EncodeChar {b : UInt8} (hd : d.toNat < 0x80) (hne : c ≠ d)
    (h : b ∈ String.utf8EncodeChar c) : b ≠ d.toUInt8 :=
  fun he => hne (eq_of_mem_utf8EncodeChar hd (he ▸ h))

theorem toUInt8_ne (hc : c.toNat < 0x80) (hd : d.toNat < 0x80) (hne : c ≠ d) : c.toUInt8 ≠ d.toUInt8 :=
  ne_of_mem_utf8EncodeChar hd hne (by rw [utf8EncodeChar_of_lt hc]; exact List.mem_singleton_self _)

theorem ne_of_le {b : UInt8} (hd : d.toNat < 0x80) (h : 0x80 ≤ b.toNat) : b ≠ d.toUInt8 := by
  rintro rfl
  have := toNat_toUInt8 hd
  omega

theorem utf8_cons_of_lt (hd : d.toNat < 0x80) : utf8 (d :: s) = d.toUInt8 :: utf8 s := by
  rw [utf8_cons, utf8EncodeChar_of_lt hd, List.singleton_append]

/-! ### Reading bytes that may be no text -/

theorem lossy_append (c : Char) (rest : List UInt8) :
    lossy (String.utf8EncodeChar c ++ rest) = c :: lossy rest := by
  obtain ⟨b, more, hc⟩ := List.exists_cons_of_ne_nil (String.utf8EncodeChar_ne_nil (c := c))
  have hlength := String.length_utf8EncodeChar c
  have hdecode : (b :: (more ++ rest)).toByteArray.utf8DecodeChar? 0 = some c := by
    rw [← List.cons_append, ← hc, List.toByteArray_append]
    exact ByteArray.utf8DecodeChar?_utf8EncodeChar_append
  rw [hc] at hlength ⊢
  rw [List.cons_append, lossy, hdecode]
  have hdrop : (more ++ rest).drop (c.utf8Size - 1) = rest := by
    rw [← hlength, List.length_cons, Nat.add_sub_cancel, List.drop_left]
  simp only [hdrop]

/-- **The bytes of a text** are read as the text. -/
theorem lossy_utf8 (s : List Char) : lossy (utf8 s) = s := by
  induction s with
  | nil => rw [utf8_nil, lossy]
  | cons c s ih => rw [utf8_cons, lossy_append, ih]

theorem lossy_toUTF8 (s : String) : lossy s.toUTF8.data.toList = s.toList := by
  rw [← utf8_toList, lossy_utf8]

/-! ### The text that is read -/

/-- A character that can be read is there with all its bytes. -/
theorem bytes_of_decode {b : UInt8} (h : (b :: rest).toByteArray.utf8DecodeChar? 0 = some c) :
    b :: rest = String.utf8EncodeChar c ++ rest.drop (c.utf8Size - 1) := by
  obtain ⟨more, hmore⟩ := ByteArray.exists_of_utf8DecodeChar?_eq_some h
  have hbytes : b :: rest = String.utf8EncodeChar c ++ more.data.toList := by
    simpa using congrArg (fun bytes => bytes.data.toList) hmore
  have hlength := String.length_utf8EncodeChar c
  obtain ⟨first, others, hc⟩ := List.exists_cons_of_ne_nil (String.utf8EncodeChar_ne_nil (c := c))
  rw [hc, List.cons_append, List.cons.injEq] at hbytes
  rw [hc] at hlength
  rw [hc, List.cons_append, hbytes.1, hbytes.2, ← hlength, List.length_cons, Nat.add_sub_cancel, List.drop_left]

theorem lossy_of_decode {b : UInt8} (h : (b :: rest).toByteArray.utf8DecodeChar? 0 = some c) :
    lossy (b :: rest) = c :: lossy (rest.drop (c.utf8Size - 1)) := by
  simp only [lossy, h]

theorem lossy_of_not_decode {b : UInt8} (h : (b :: rest).toByteArray.utf8DecodeChar? 0 = none) :
    lossy (b :: rest) = '\uFFFD' :: lossy (rest.drop (continued b rest)) := by
  simp only [lossy, h]

theorem lossy_ne_nil {bytes : List UInt8} (h : bytes ≠ []) : lossy bytes ≠ [] := by
  obtain ⟨b, rest, rfl⟩ := List.exists_cons_of_ne_nil h
  cases hdecode : (b :: rest).toByteArray.utf8DecodeChar? 0 with
  | some c =>
      rw [lossy_of_decode hdecode]
      exact List.cons_ne_nil _ _
  | none =>
      rw [lossy_of_not_decode hdecode]
      exact List.cons_ne_nil _ _

/-- Where no U+FFFD is read, the bytes are those of the text that is read. -/
theorem utf8_lossy {bytes : List UInt8} (h : '\uFFFD' ∉ lossy bytes) : utf8 (lossy bytes) = bytes := by
  induction bytes using lossy.induct with
  | case1 => rw [lossy, utf8_nil]
  | case2 b rest c hdecode ih =>
      rw [lossy_of_decode hdecode, List.mem_cons, not_or] at h
      rw [lossy_of_decode hdecode, utf8_cons, ih h.2]
      exact (bytes_of_decode hdecode).symm
  | case3 b rest hdecode ih =>
      rw [lossy_of_not_decode hdecode] at h
      exact absurd List.mem_cons_self h

/-- A character of the lower half is read only where its byte is. -/
theorem toUInt8_mem_of_mem_lossy {bytes : List UInt8} (hd : d.toNat < 0x80) (h : d ∈ lossy bytes) :
    d.toUInt8 ∈ bytes := by
  induction bytes using lossy.induct with
  | case1 =>
      rw [lossy] at h
      cases h
  | case2 b rest c hdecode ih =>
      rw [bytes_of_decode hdecode, List.mem_append]
      rw [lossy_of_decode hdecode] at h
      rcases List.mem_cons.1 h with rfl | h
      · rw [utf8EncodeChar_of_lt hd]
        exact .inl List.mem_cons_self
      · exact .inr (ih h)
  | case3 b rest hdecode ih =>
      rw [lossy_of_not_decode hdecode] at h
      rcases List.mem_cons.1 h with rfl | h
      · exact absurd hd (by decide)
      · exact List.mem_cons_of_mem _ (List.mem_of_mem_drop (ih h))

end Pagefold.Text
