import Pagefold.Proofs.Bytes
import Pagefold.Proofs.Readers

/-! # Where tags lie

What is found in a text covers a stretch of it between two characters, and more than nothing
(`Covers`).  Tags are kept by position, so when no two of them overlap each one ends before the next
one starts (`tags_apart`). -/

namespace Pagefold

open Text

namespace Text

variable {s before : List Char} {position start stop : Nat}

/-- In a text that starts at `position`, some stretch, not an empty one, reaches from `start` to
`stop`. -/
def Covers (position : Nat) (s : List Char) (start stop : Nat) : Prop :=
  ∃ front own back, s = front ++ own ++ back ∧ own ≠ [] ∧ start = position + byteSize front ∧
    stop = start + byteSize own

theorem Covers.lt (h : Covers position s start stop) : start < stop := by
  obtain ⟨front, own, back, _, hown, _, rfl⟩ := h
  have := byteSize_pos hown
  omega

/-- An instance lies in a text that starts at `position`: it is read where its own text starts, and
reading leaves what is behind that. -/
def Found {α : Type} (read : List Char → Option (α × List Char)) (position : Nat) (s : List Char)
    (o : Occurrence α) : Prop :=
  ∃ front own back, s = front ++ own ++ back ∧ own ≠ [] ∧ o.start = position + byteSize front ∧
    o.stop = o.start + byteSize own ∧ read (own ++ back) = some (o.value, back)

section

variable {α : Type} {read : List Char → Option (α × List Char)} {o : Occurrence α}

theorem Found.covers (h : Found read position s o) : Covers position s o.start o.stop := by
  obtain ⟨front, own, back, hs, hown, hstart, hstop, _⟩ := h
  exact ⟨front, own, back, hs, hown, hstart, hstop⟩

theorem Found.behind (h : Found read (position + byteSize before) s o) :
    Found read position (before ++ s) o := by
  obtain ⟨front, own, back, rfl, hown, hstart, hrest⟩ := h
  refine ⟨before ++ front, own, back, by simp, hown, ?_, hrest⟩
  rw [hstart, byteSize_append]
  omega

theorem found_of_mem_occurrencesFrom (hread : ∀ s value rest, read s = some (value, rest) → rest <:+ s)
    (h : o ∈ occurrencesFrom read position s) : Found read position s o := by
  fun_induction occurrencesFrom read position s with
  | case1 => cases h
  | case2 position c tail hnone ih => exact @Found.behind _ [c] _ _ _ _ (by simpa using ih h)
  | case3 position c tail value rest hsome hlen stop ih =>
      have htake := Lists.take_append_of_suffix (hread _ _ _ hsome)
      rcases List.mem_cons.1 h with rfl | h
      · refine ⟨[], _, rest, htake.symm, ?_, rfl, rfl, by rw [htake, hsome]⟩
        intro hnil
        have := congrArg List.length hnil
        rw [List.length_take, List.length_nil] at this
        omega
      · rw [← htake]
        exact (ih h).behind
  | case4 position c tail value rest hsome hlen ih =>
      exact @Found.behind _ [c] _ _ _ _ (by simpa using ih h)

theorem occurrencesFrom_of_none {c : Char} (h : read (c :: s) = none) :
    occurrencesFrom read position (c :: s) = occurrencesFrom read (position + c.utf8Size) s := by
  rw [occurrencesFrom]
  split
  · rfl
  · rename_i hsome
    rw [h] at hsome
    cases hsome

theorem occurrencesFrom_of_some {own : List Char} {value : α} (hown : own ≠ [])
    (h : read (own ++ s) = some (value, s)) : occurrencesFrom read position (own ++ s)
      = ⟨position, position + byteSize own, value⟩ ::
        occurrencesFrom read (position + byteSize own) s := by
  obtain ⟨c, tail, rfl⟩ := List.exists_cons_of_ne_nil hown
  rw [List.cons_append] at h ⊢
  rw [occurrencesFrom]
  split
  · rename_i hnone
    rw [h] at hnone
    cases hnone
  · rename_i value' rest hsome
    rw [h] at hsome
    cases hsome
    have hlen : s.length < (c :: (tail ++ s)).length := by
      rw [List.length_cons, List.length_append]
      omega
    have htake : (c :: (tail ++ s)).take ((c :: (tail ++ s)).length - s.length) = c :: tail := by
      have hsplit : (c :: (tail ++ s)).length - s.length = (c :: tail).length := by
        simp only [List.length_cons, List.length_append]
        omega
      rw [hsplit, ← List.cons_append, List.take_left']
      rfl
    rw [dif_pos hlen, htake]

/-- Each instance is found behind the one before. -/
theorem pairwise_occurrencesFrom (hread : ∀ s value rest, read s = some (value, rest) → rest <:+ s)
    (position : Nat) (s : List Char) :
    (occurrencesFrom read position s).Pairwise fun o o' => o.stop ≤ o'.start := by
  fun_induction occurrencesFrom read position s with
  | case1 => exact .nil
  | case2 position c tail hnone ih => exact ih
  | case3 position c tail value rest hsome hlen stop ih =>
      refine List.pairwise_cons.2 ⟨fun o ho => ?_, ih⟩
      obtain ⟨front, own, back, _, _, hstart, _⟩ := found_of_mem_occurrencesFrom hread ho
      rw [hstart]
      exact Nat.le_add_right stop _
  | case4 position c tail value rest hsome hlen ih => exact ih

end

end Text

namespace Page

variable {page : String} {t : Tag}

/-- The tags of a page, the scripts before the links. -/
def foundTags (page : String) : List Tag :=
  scriptTags page.toList
    ++ (linkTags page.toList).filter fun link => !(scriptTags page.toList).any link.within

theorem tags_perm (page : String) : (tags page).Perm (foundTags page) := List.mergeSort_perm _ _

/-- Tags that are found in order are kept in order. -/
theorem tags_of_sorted (h : (foundTags page).Pairwise fun t u => t.start ≤ u.start) :
    tags page = foundTags page :=
  List.mergeSort_of_pairwise (h.imp fun hle => decide_eq_true hle)

theorem tags_sorted (page : String) : (tags page).Pairwise fun t u => t.start ≤ u.start := by
  have h := @List.pairwise_mergeSort Tag (fun t u => decide (t.start ≤ u.start))
    (fun a b c hab hbc => by simp only [decide_eq_true_eq] at *; omega)
    (fun a b => by simp only [Bool.or_eq_true, decide_eq_true_eq]; omega) (foundTags page)
  exact h.imp fun hle => of_decide_eq_true hle

/-- The tags of a page are what is found, in the order of the places. -/
theorem tags_eq_of_perm {ts : List Tag} (hperm : ts.Perm (foundTags page))
    (hts : ts.Pairwise fun t u => t.start < u.start) : tags page = ts := by
  have hstarts : (ts.map Tag.start).Nodup := List.pairwise_map.2 (hts.imp Nat.ne_of_lt)
  have hsame : (tags page).Perm ts := (tags_perm page).trans hperm.symm
  refine List.Perm.eq_of_pairwise ?_ (tags_sorted page) (hts.imp Nat.le_of_lt) hsame
  intro t u ht hu hle hle'
  exact List.inj_on_of_nodup_map hstarts (hsame.subset ht) hu (Nat.le_antisymm hle hle')

/-- A tag covers a stretch of its page. -/
theorem covers_of_mem_tags (h : t ∈ tags page) : Covers 0 page.toList t.start t.stop := by
  rcases List.mem_append.1 ((tags_perm page).subset h) with h | h
  · obtain ⟨o, ho, rfl⟩ := List.mem_map.1 h
    exact (found_of_mem_occurrencesFrom (fun _ _ _ => suffix_of_readScript?) ho).covers
  · obtain ⟨o, ho, rfl⟩ := List.mem_map.1 (List.mem_filter.1 h).1
    exact (found_of_mem_occurrencesFrom (fun _ _ _ => suffix_of_readLink?) ho).covers

/-- The tags of a page do not overlap. -/
def Apart (page : String) : Prop :=
  (tags page).Pairwise fun t u => t.stop ≤ u.start ∨ u.stop ≤ t.start

instance : Decidable (Apart page) :=
  decidable_of_iff ((foundTags page).Pairwise fun t u => t.stop ≤ u.start ∨ u.stop ≤ t.start)
    ((tags_perm page).pairwise_iff Or.symm).symm

/-- **Tags that do not overlap** follow each other. -/
theorem tags_apart (h : Apart page) : (tags page).Pairwise fun t u => t.stop ≤ u.start := by
  refine List.Pairwise.imp_of_mem ?_ (h.and (tags_sorted page))
  rintro t u ht hu ⟨hle | hle, hstart⟩
  · exact hle
  · have := (covers_of_mem_tags hu).lt
    omega

end Page

end Pagefold
