import Pagefold.Fold.Plan
import Pagefold.Proofs.Positions

/-! # Replacements made from the back

`Rewritten` says of two texts that the second one is the first one with the stretch of each tag
replaced, all at once, and every byte between the tags as it was; there is only one such text
(`Rewritten.unique`).  A plan makes its replacements one after the other in the text that it changes.
It starts with the last one, so the positions of the others stay right, and when no two tags overlap
the outcome is the text with all of them replaced at once (`rewritten_foldr`). -/

namespace Pagefold.Fold

open Page Text

/-! ### All at once -/

/-- The text `s` starts at `position` and holds the tags; in `result` each of them has given place to
what `what` says. -/
inductive Rewritten (what : Tag → (own new : List Char) → Prop) :
    (position : Nat) → List Tag → (s result : List Char) → Prop
  | rest {position} (s) : Rewritten what position [] s s
  | tag {position t ts gap own new s result} (hstart : t.start = position + byteSize gap)
      (hstop : t.stop = t.start + byteSize own) (hw : what t own new)
      (h : Rewritten what t.stop ts s result) :
      Rewritten what position (t :: ts) (gap ++ own ++ s) (gap ++ new ++ result)

variable {what what' : Tag → (own new : List Char) → Prop} {position : Nat} {ts : List Tag}
  {s result : List Char}

theorem Rewritten.mono (hsub : ∀ t ∈ ts, ∀ own new, what t own new → what' t own new)
    (h : Rewritten what position ts s result) : Rewritten what' position ts s result := by
  induction h with
  | rest s => exact .rest s
  | tag hstart hstop hw _ ih =>
      exact .tag hstart hstop (hsub _ List.mem_cons_self _ _ hw)
        (ih fun t ht => hsub t (List.mem_cons_of_mem _ ht))

/-- **There is one text** in which the tags have given place to what is said of them. -/
theorem Rewritten.unique (hone : ∀ t ∈ ts, ∀ own new new', what t own new → what t own new' → new = new')
    (h : Rewritten what position ts s result) {result' : List Char}
    (h' : Rewritten what position ts s result') : result = result' := by
  induction h generalizing result' with
  | rest s =>
      cases h'
      rfl
  | @tag position t ts gap own new s result hstart hstop hw h ih =>
      generalize hs : gap ++ own ++ s = whole at h'
      cases h' with
      | @tag _ _ _ gap' own' new' s' result' hstart' hstop' hw' h' =>
          -- The positions of the tag cut the text in one way.
          rw [List.append_assoc, List.append_assoc] at hs
          have hgap := append_inj_of_byteSize hs (by omega)
          have hown := append_inj_of_byteSize hgap.2 (by omega)
          obtain ⟨rfl, -⟩ := hgap
          obtain ⟨rfl, rfl⟩ := hown
          rw [hone t List.mem_cons_self _ _ _ hw hw',
            ih (fun u hu => hone u (List.mem_cons_of_mem t hu)) h']

/-! ### One after the other -/

/-- Makes one replacement in a text. -/
def Replacement.make (r : Replacement) (page : List Char) : List Char :=
  splice r.start r.stop r.text.toList page

/-- The replacements of the tags that are edited. -/
def editsOf (edit : Tag → Option String) (ts : List Tag) : List Replacement :=
  ts.filterMap fun t => (edit t).map fun text => ⟨t.start, t.stop, text⟩

/-- The place of a tag holds its edit, or what it held. -/
def Edited (edit : Tag → Option String) (t : Tag) (own new : List Char) : Prop :=
  new = (edit t).elim own String.toList

/-- **Replacements made from the back** come to the same as all at once. -/
theorem rewritten_foldr {edit : Tag → Option String} {page front : List Char}
    (hcovers : ∀ t ∈ ts, Covers 0 page t.start t.stop) (hbehind : ∀ t ∈ ts, byteSize front ≤ t.start)
    (hapart : ts.Pairwise fun t u => t.stop ≤ u.start) (hpage : page = front ++ s) :
    ∃ result, (editsOf edit ts).foldr Replacement.make page = front ++ result ∧
      Rewritten (Edited edit) (byteSize front) ts s result := by
  induction ts generalizing front s with
  | nil => exact ⟨s, hpage, .rest s⟩
  | cons t ts ih =>
      rw [List.pairwise_cons] at hapart
      obtain ⟨before, own, back, hown, _, hstart, hstop⟩ := hcovers t List.mem_cons_self
      rw [Nat.zero_add] at hstart
      -- The tag lies behind `front`, at a distance of `gap`.
      have hcut : front ++ s = before ++ (own ++ back) := by
        rw [← hpage, hown, List.append_assoc]
      obtain ⟨gap, rfl, rfl⟩ := exists_gap_of_byteSize_le hcut (hstart ▸ hbehind t List.mem_cons_self)
      have hsize : byteSize (front ++ gap ++ own) = t.stop := by
        rw [byteSize_append, hstop, hstart]
      have hnext : ∀ u ∈ ts, byteSize (front ++ gap ++ own) ≤ u.start := by
        intro u hu
        rw [hsize]
        exact hapart.1 u hu
      obtain ⟨result, hresult, hrewritten⟩ := @ih back (front ++ gap ++ own)
        (fun u hu => hcovers u (List.mem_cons_of_mem t hu)) hnext hapart.2 hown
      rw [hsize] at hrewritten
      rw [byteSize_append] at hstart
      have hsplit : gap ++ (own ++ back) = gap ++ own ++ back := (List.append_assoc _ _ _).symm
      rw [hsplit]
      cases hedit : edit t with
      | none =>
          refine ⟨gap ++ own ++ result, ?_, .tag hstart hstop ?_ hrewritten⟩
          · rw [editsOf, List.filterMap_cons_none (by rw [hedit]; rfl)]
            rw [editsOf] at hresult
            rw [hresult]
            simp only [List.append_assoc]
          · rw [Edited, hedit]
            rfl
      | some text =>
          refine ⟨gap ++ text.toList ++ result, ?_, .tag hstart hstop ?_ hrewritten⟩
          · rw [editsOf, List.filterMap_cons_some (by rw [hedit]; rfl), List.foldr_cons]
            rw [editsOf] at hresult
            rw [hresult, Replacement.make, hstop, hstart, ← byteSize_append, splice_append]
            simp only [List.append_assoc]
          · rw [Edited, hedit]
            rfl

/-! ### The order of the replacements -/

theorem editsOf_pairwise {edit : Tag → Option String} (hnonempty : ∀ t ∈ ts, t.start < t.stop)
    (hapart : ts.Pairwise fun t u => t.stop ≤ u.start) :
    (editsOf edit ts).Pairwise fun r r' => r.start < r'.start := by
  rw [editsOf, List.pairwise_filterMap]
  refine List.Pairwise.imp_of_mem ?_ hapart
  intro t u ht _ hle r hr r' hr'
  obtain ⟨_, _, rfl⟩ := Option.map_eq_some_iff.1 hr
  obtain ⟨_, _, rfl⟩ := Option.map_eq_some_iff.1 hr'
  exact Nat.lt_of_lt_of_le (hnonempty t ht) hle

/-- Replacements at different places are sorted in one way. -/
theorem mergeSort_eq_reverse {l edits : List Replacement} (hperm : l.Perm edits)
    (hedits : edits.Pairwise fun r r' => r.start < r'.start) :
    l.mergeSort (fun r r' => r'.start ≤ r.start) = edits.reverse := by
  have hsorted := @List.pairwise_mergeSort Replacement (fun r r' => decide (r'.start ≤ r.start))
    (fun a b c hab hbc => by simp only [decide_eq_true_eq] at *; omega)
    (fun a b => by simp only [Bool.or_eq_true, decide_eq_true_eq]; omega) l
  have hstarts : (edits.map Replacement.start).Nodup := List.pairwise_map.2 (hedits.imp Nat.ne_of_lt)
  refine List.Perm.eq_of_pairwise ?_ hsorted (List.pairwise_reverse.2 (hedits.imp fun hlt => ?_)) ?_
  · intro r r' hr hr' hle hle'
    simp only [decide_eq_true_eq] at hle hle'
    exact List.inj_on_of_nodup_map hstarts (hperm.subset (List.mem_mergeSort.1 hr))
      (List.mem_reverse.1 hr') (Nat.le_antisymm hle' hle)
  · simpa using Nat.le_of_lt hlt
  · exact (List.mergeSort_perm _ _).trans (hperm.trans edits.reverse_perm.symm)

/-- **What a plan makes of a page**, when its replacements are edits of tags that do not overlap. -/
theorem rewritten_of_perm {plan : Plan} {page : String} {edit : Tag → Option String}
    (hapart : Apart page) (hperm : plan.replacements.Perm (editsOf edit (tags page))) :
    Rewritten (Edited edit) 0 (tags page) page.toList (plan.rewritten page).toList := by
  have hcovers : ∀ t ∈ tags page, Covers 0 page.toList t.start t.stop := fun _ => covers_of_mem_tags
  have hedits := @editsOf_pairwise (tags page) edit (fun t ht => (hcovers t ht).lt) (tags_apart hapart)
  obtain ⟨result, hresult, hrewritten⟩ := @rewritten_foldr (tags page) page.toList edit page.toList []
    hcovers (fun _ _ => Nat.zero_le _) (tags_apart hapart) rfl
  have hplan : (plan.rewritten page).toList = result := by
    rw [Plan.rewritten, String.toList_ofList, mergeSort_eq_reverse hperm hedits, List.foldl_reverse]
    exact hresult
  rwa [hplan]

end Pagefold.Fold
