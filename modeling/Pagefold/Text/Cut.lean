/-! # Cutting a text at a character

`until? p s` is the text before the first character that satisfies `p`, and the text after it;
`lastOf? p s` cuts at the last such character (`lastOf?_append_cons`).  The parts and the character
at the cut make up the text again (`append_of_until?`), and the rest is shorter
(`length_of_until?`). -/

namespace Pagefold.Text

/-- The text before and after the first character that satisfies `p`, if there is one. -/
def until? (p : Char → Bool) (s : List Char) : Option (List Char × List Char) :=
  match s.dropWhile (!p ·) with
  | [] => none
  | _ :: rest => some (s.takeWhile (!p ·), rest)

/-- The text before and after the last character that satisfies `p`, if there is one. -/
def lastOf? (p : Char → Bool) (s : List Char) : Option (List Char × List Char) :=
  (until? p s.reverse).map fun (after, before) => (before.reverse, after.reverse)

/-- A cut loses nothing but the character at the cut. -/
theorem append_of_until? {p : Char → Bool} {s a b : List Char} (h : until? p s = some (a, b)) :
    ∃ c, p c = true ∧ s = a ++ c :: b := by
  unfold until? at h
  split at h
  · simp at h
  · rename_i c rest hd
    obtain ⟨rfl, rfl⟩ := by simpa using h
    refine ⟨c, ?_, ?_⟩
    · have := List.head_dropWhile_not (fun x => !p x) (l := s) (by simp [hd])
      simpa [hd] using this
    · rw [← hd, List.takeWhile_append_dropWhile]

/-- The text before a cut holds no cutting character. -/
theorem not_of_mem_until? {p : Char → Bool} {s a b : List Char} (h : until? p s = some (a, b)) :
    ∀ c ∈ a, p c = false := by
  unfold until? at h
  split at h
  · simp at h
  · obtain ⟨rfl, rfl⟩ := by simpa using h
    intro c hc
    have hall := List.all_takeWhile (p := fun x => !p x) (l := s)
    simpa using List.all_eq_true.1 hall c hc

theorem length_of_until? {p : Char → Bool} {s a b : List Char} (h : until? p s = some (a, b)) :
    b.length < s.length := by
  obtain ⟨c, _, rfl⟩ := append_of_until? h
  simp
  omega

/-- Of several cutting characters the last one cuts. -/
theorem lastOf?_append_cons {p : Char → Bool} {a b : List Char} {c : Char} (hc : p c = true)
    (hb : ∀ x ∈ b, p x = false) : lastOf? p (a ++ c :: b) = some (a, b) := by
  have hback : ∀ x ∈ b.reverse, (!p x) = true := fun x hx => by simp [hb x (List.mem_reverse.1 hx)]
  have hcut : (a ++ c :: b).reverse = b.reverse ++ c :: a.reverse := by simp
  rw [lastOf?, until?, hcut, List.dropWhile_append_of_pos hback, List.takeWhile_append_of_pos hback]
  simp [hc]

theorem lastOf?_eq_none {p : Char → Bool} {s : List Char} (h : ∀ x ∈ s, p x = false) :
    lastOf? p s = none := by
  have hback : ∀ x ∈ s.reverse, (!p x) = true := fun x hx => by simp [h x (List.mem_reverse.1 hx)]
  rw [lastOf?, until?, ← List.append_nil s.reverse, List.dropWhile_append_of_pos hback]
  rfl

end Pagefold.Text
