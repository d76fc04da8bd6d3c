import Mathlib.Data.List.Pairwise
import Pagefold.Proofs.Openings
import Pagefold.Proofs.Positions

/-! # One pass over a page

Script elements and link tags are searched for apart.  When no two tags overlap, one pass from left to
right finds the same tags (`Scanned`): it passes what opens with neither, and takes a script element or
a link tag off the text where one can be read.  A page whose tags do not overlap is scanned in this way
(`exists_scanned`), and the tags that such a pass finds are those of the page (`Scanned.tags_eq`). -/

namespace Pagefold

open Text

namespace Text

section

variable {α : Type} {read : List Char → Option (α × List Char)} {s gap own : List Char} {position : Nat}

/-- Nothing is found where nothing is read. -/
theorem occurrencesFrom_append_of_none (h : ∀ y, y <:+ gap → y ≠ [] → read (y ++ s) = none) :
    occurrencesFrom read position (gap ++ s) = occurrencesFrom read (position + byteSize gap) s := by
  induction gap generalizing position with
  | nil => simp
  | cons c gap ih =>
      have hc : read (c :: (gap ++ s)) = none := h (c :: gap) List.suffix_rfl (by simp)
      rw [List.cons_append, occurrencesFrom_of_none hc,
        ih fun y hy => h y (hy.trans (List.suffix_cons c gap)), byteSize_cons, Nat.add_assoc]

/-- Each instance that is read takes something off the text. -/
def Consumes (read : List Char → Option (α × List Char)) : Prop :=
  ∀ s value rest, read s = some (value, rest) → ∃ own, own ≠ [] ∧ s = own ++ rest

theorem Consumes.ne_nil {own rest : List Char} {value : α} (hread : Consumes read)
    (h : read (own ++ rest) = some (value, rest)) : own ≠ [] := by
  obtain ⟨own', hown', hsplit⟩ := hread _ _ _ h
  rwa [List.append_cancel_right hsplit]

/-- Where something can be read in a stretch, something is found that starts in the stretch. -/
theorem exists_occurrence (hread : Consumes read)
    (h : ∃ y, y <:+ own ∧ y ≠ [] ∧ (read (y ++ s)).isSome = true) :
    ∃ o ∈ occurrencesFrom read position (own ++ s),
      position ≤ o.start ∧ o.start < position + byteSize own := by
  induction own generalizing position with
  | nil =>
      obtain ⟨y, hy, hne, _⟩ := h
      exact absurd (List.suffix_nil.1 hy) hne
  | cons c own ih =>
      have hpos := Char.utf8Size_pos c
      cases hc : read (c :: (own ++ s)) with
      | some found =>
          obtain ⟨value, rest⟩ := found
          obtain ⟨taken, htaken, hs⟩ := hread _ _ _ hc
          rw [hs] at hc
          refine ⟨⟨position, position + byteSize taken, value⟩, ?_, Nat.le_refl _, ?_⟩
          · rw [List.cons_append, hs, occurrencesFrom_of_some htaken hc]
            exact List.mem_cons_self
          · rw [byteSize_cons]
            dsimp only
            omega
      | none =>
          obtain ⟨y, hy, hne, hsome⟩ := h
          rcases List.suffix_cons_iff.1 hy with rfl | hy
          · rw [List.cons_append, hc] at hsome
            cases hsome
          · obtain ⟨o, ho, hle, hlt⟩ := @ih (position + c.utf8Size) ⟨y, hy, hne, hsome⟩
            refine ⟨o, ?_, by omega, by rw [byteSize_cons]; omega⟩
            rwa [List.cons_append, occurrencesFrom_of_none hc]

end

/-- Every end of a text, but for the empty one, has a mark. -/
def Marked (s : List Char) : Prop := ∀ y, y <:+ s → y ≠ [] → '>' ∈ y

theorem marked_append_mark (s : List Char) : Marked (s ++ ['>']) := by
  rintro y ⟨front, hy⟩ hne
  have hlast := congrArg List.getLast? hy
  rw [List.getLast?_append_of_ne_nil _ hne] at hlast
  exact List.mem_of_getLast? (hlast.trans (by simp))

theorem Marked.suffix {s y : List Char} (h : Marked s) (hy : y <:+ s) : Marked y :=
  fun z hz hne => h z (hz.trans hy) hne

end Text

namespace Page

variable {s gap own r : List Char} {position : Nat} {ts : List Tag} {t : Tag}

/-- A link tag that starts in a text that ends in a mark lies in it. -/
theorem occurrencesFrom_readLink?_append (hown : Marked own) :
    occurrencesFrom readLink? position (own ++ s)
      = occurrencesFrom readLink? position own
        ++ occurrencesFrom readLink? (position + byteSize own) s := by
  induction hn : own.length using Nat.strong_induction_on generalizing own position with
  | _ n ih =>
      subst hn
      cases own with
      | nil => simp [occurrencesFrom]
      | cons c own =>
          have hmark := hown _ List.suffix_rfl (by simp)
          have hread : readLink? (c :: (own ++ s)) = (readLink? (c :: own)).map fun p => (p.1, p.2 ++ s) :=
            openingTag?_append isPlain_linkName hmark
          cases hc : readLink? (c :: own) with
          | none =>
              rw [hc, Option.map_none] at hread
              rw [List.cons_append, occurrencesFrom_of_none hread, occurrencesFrom_of_none hc,
                ih own.length (by simp) (hown.suffix (List.suffix_cons c own)) rfl, byteSize_cons,
                Nat.add_assoc]
          | some found =>
              obtain ⟨value, rest⟩ := found
              rw [hc, Option.map_some] at hread
              obtain ⟨inner, _, hsplit, _⟩ := exists_own_of_readLink? hc
              obtain ⟨taken, htaken, hsplit⟩ : ∃ taken, taken ≠ [] ∧ c :: own = taken ++ rest :=
                ⟨inner ++ ['>'], by simp, by simpa using hsplit⟩
              have hlen : rest.length < (c :: own).length := by
                have := List.length_pos_of_ne_nil htaken
                rw [hsplit, List.length_append]
                omega
              rw [← List.cons_append, hsplit, List.append_assoc] at hread
              rw [hsplit] at hc hown ⊢
              rw [List.append_assoc, occurrencesFrom_of_some htaken hread,
                occurrencesFrom_of_some htaken hc, List.cons_append,
                ih rest.length hlen (hown.suffix (List.suffix_append _ _)) rfl, byteSize_append,
                Nat.add_assoc]

/-! ### The pass -/

/-- In front of `s`, no end of `gap` opens with a script element or a link tag. -/
def Silent (gap s : List Char) : Prop :=
  ∀ y, y <:+ gap → y ≠ [] → readScript? (y ++ s) = none ∧ readLink? (y ++ s) = none

/-- The tag of the script element `own`. -/
def scriptTag (start : Nat) (own : List Char) (element : List Char × List Char) : Tag :=
  ⟨.script, start, start + byteSize own, attributesOf element.1, String.ofList element.2⟩

/-- The tag of the link tag `own`. -/
def linkTag (start : Nat) (own attributes : List Char) : Tag :=
  ⟨.link, start, start + byteSize own, attributesOf attributes, ""⟩

/-- One pass over a text that starts at `position`, and the tags that it finds.  No script element opens
inside a link tag that is taken off. -/
inductive Scanned : (position : Nat) → (s : List Char) → List Tag → Prop
  | rest {position : Nat} {s : List Char} (hs : Silent s []) : Scanned position s []
  | script {position : Nat} {gap own s : List Char} {element ts} (hgap : Silent gap (own ++ s))
      (hread : readScript? (own ++ s) = some (element, s))
      (h : Scanned (position + byteSize gap + byteSize own) s ts) :
      Scanned position (gap ++ own ++ s) (scriptTag (position + byteSize gap) own element :: ts)
  | link {position : Nat} {gap own s : List Char} {attributes ts} (hgap : Silent gap (own ++ s))
      (hread : readLink? (own ++ s) = some (attributes, s))
      (hinside : ∀ y, y <:+ own → y ≠ [] → readScript? (y ++ s) = none)
      (h : Scanned (position + byteSize gap + byteSize own) s ts) :
      Scanned position (gap ++ own ++ s) (linkTag (position + byteSize gap) own attributes :: ts)

theorem Silent.append {front : List Char} (hfront : Silent front (gap ++ s)) (hgap : Silent gap s) :
    Silent (front ++ gap) s := by
  intro y hy hne
  rcases Lists.suffix_append_cases hy with h | ⟨z, hz, hzne, rfl⟩
  · exact hgap y h hne
  · rw [List.append_assoc]
    exact hfront z hz hzne

/-- More text that opens with no tag can stand in front. -/
theorem Scanned.prepend {front : List Char} (hfront : Silent front s)
    (h : Scanned (position + byteSize front) s ts) : Scanned position (front ++ s) ts := by
  generalize hp : position + byteSize front = p at h
  cases h with
  | rest hs =>
      refine .rest (Silent.append ?_ hs)
      simpa using hfront
  | @script _ gap own s element ts hgap hread h =>
      have hsplit : front ++ (gap ++ own ++ s) = front ++ gap ++ own ++ s := by simp
      have hstart : p + byteSize gap = position + byteSize (front ++ gap) := by
        rw [byteSize_append, ← hp, Nat.add_assoc]
      rw [hstart] at h ⊢
      rw [hsplit]
      exact .script (Silent.append (by simpa using hfront) hgap) hread h
  | @link _ gap own s attributes ts hgap hread hinside h =>
      have hsplit : front ++ (gap ++ own ++ s) = front ++ gap ++ own ++ s := by simp
      have hstart : p + byteSize gap = position + byteSize (front ++ gap) := by
        rw [byteSize_append, ← hp, Nat.add_assoc]
      rw [hstart] at h ⊢
      rw [hsplit]
      exact .link (Silent.append (by simpa using hfront) hgap) hread hinside h

/-! ### What is taken off -/

theorem consumes_readScript? : Consumes readScript? := by
  intro s element rest h
  obtain ⟨own, rfl, _⟩ := exists_own_of_readScript? h
  exact ⟨own ++ ['>'], by simp, by simp⟩

theorem consumes_readLink? : Consumes readLink? := by
  intro s attributes rest h
  obtain ⟨own, _, rfl, _⟩ := exists_own_of_readLink? h
  exact ⟨own ++ ['>'], by simp, by simp⟩

theorem marked_of_readScript? {element : List Char × List Char}
    (h : readScript? (own ++ s) = some (element, s)) : own ≠ [] ∧ Marked own := by
  obtain ⟨inner, hinner, _⟩ := exists_own_of_readScript? h
  obtain rfl : own = inner ++ ['>'] := List.append_cancel_right (hinner.trans (by simp))
  exact ⟨by simp, marked_append_mark inner⟩

theorem marked_of_readLink? {attributes : List Char}
    (h : readLink? (own ++ s) = some (attributes, s)) : own ≠ [] ∧ Marked own := by
  obtain ⟨inner, _, hinner, _⟩ := exists_own_of_readLink? h
  obtain rfl : own = inner ++ ['>'] := List.append_cancel_right (hinner.trans (by simp))
  exact ⟨by simp, marked_append_mark inner⟩

/-- What is read for a script element does not depend on what follows it. -/
theorem readScript?_append {element : List Char × List Char}
    (h : readScript? (own ++ s) = some (element, s)) (r : List Char) :
    readScript? (own ++ r) = some (element, r) := by
  obtain ⟨inner, hinner, hread⟩ := exists_own_of_readScript? h
  obtain rfl : own = inner ++ ['>'] := List.append_cancel_right (hinner.trans (by simp))
  simpa using hread r

theorem readLink?_append {attributes : List Char} (h : readLink? (own ++ s) = some (attributes, s))
    (r : List Char) : readLink? (own ++ r) = some (attributes, r) := by
  obtain ⟨inner, _, hinner, hread⟩ := exists_own_of_readLink? h
  obtain rfl : own = inner ++ ['>'] := List.append_cancel_right (hinner.trans (by simp))
  simpa using hread r

/-! ### Pages without overlaps -/

/-- No script element that is found starts inside a link tag that is found. -/
def Clear (position : Nat) (s : List Char) : Prop :=
  ∀ o ∈ occurrencesFrom readScript? position s, ∀ o' ∈ occurrencesFrom readLink? position s,
    o'.start < o.start → o'.stop ≤ o.start

theorem Clear.behind_script {element : List Char × List Char} (h : Clear position (own ++ s))
    (hread : readScript? (own ++ s) = some (element, s)) : Clear (position + byteSize own) s := by
  obtain ⟨hne, hmarked⟩ := marked_of_readScript? hread
  intro o ho o' ho'
  refine h o ?_ o' ?_
  · rw [occurrencesFrom_of_some hne hread]
    exact List.mem_cons_of_mem _ ho
  · rw [occurrencesFrom_readLink?_append hmarked]
    exact List.mem_append_right _ ho'

/-- No script element opens inside a link tag that is found. -/
theorem Clear.inside_link {attributes : List Char} (h : Clear position (own ++ s))
    (hread : readLink? (own ++ s) = some (attributes, s)) (hnone : readScript? (own ++ s) = none) :
    ∀ y, y <:+ own → y ≠ [] → readScript? (y ++ s) = none := by
  have hne := (marked_of_readLink? hread).1
  obtain ⟨c, own, rfl⟩ := List.exists_cons_of_ne_nil hne
  intro y hy hyne
  by_contra hsome
  rcases List.suffix_cons_iff.1 hy with rfl | hy
  · exact hsome hnone
  · -- The first element that opens inside would be found, and it starts before the link tag ends.
    obtain ⟨o, ho, hle, hlt⟩ := @exists_occurrence _ _ s own (position + c.utf8Size)
      consumes_readScript? ⟨y, hy, hyne, Option.isSome_iff_ne_none.2 hsome⟩
    have hpos := Char.utf8Size_pos c
    have hskip : occurrencesFrom readScript? position (c :: (own ++ s))
        = occurrencesFrom readScript? (position + c.utf8Size) (own ++ s) :=
      occurrencesFrom_of_none hnone
    have hlink := h o (by rwa [List.cons_append, hskip])
      ⟨position, position + byteSize (c :: own), attributes⟩
      (by rw [occurrencesFrom_of_some hne hread]; exact List.mem_cons_self)
    dsimp only at hlink
    rw [byteSize_cons] at hlink
    have := hlink (by omega)
    omega

theorem Clear.behind_link {attributes : List Char} (h : Clear position (own ++ s))
    (hread : readLink? (own ++ s) = some (attributes, s))
    (hinside : ∀ y, y <:+ own → y ≠ [] → readScript? (y ++ s) = none) :
    Clear (position + byteSize own) s := by
  intro o ho o' ho'
  refine h o ?_ o' ?_
  · rwa [occurrencesFrom_append_of_none hinside]
  · rw [occurrencesFrom_of_some (marked_of_readLink? hread).1 hread]
    exact List.mem_cons_of_mem _ ho'

/-- **A page whose tags do not overlap** is scanned in one pass. -/
theorem exists_scanned (h : Clear position s) : ∃ ts, Scanned position s ts := by
  induction hn : s.length using Nat.strong_induction_on generalizing s position with
  | _ n ih =>
      subst hn
      have hnothing : ∀ l, Silent [] l := fun l y hy hne => absurd (List.suffix_nil.1 hy) hne
      cases hs : readScript? s with
      | some found =>
          obtain ⟨element, rest⟩ := found
          obtain ⟨inner, hinner, _⟩ := exists_own_of_readScript? hs
          obtain ⟨own, rfl⟩ : ∃ own, s = own ++ rest := ⟨inner ++ ['>'], by simpa using hinner⟩
          have hlen := List.length_pos_of_ne_nil (marked_of_readScript? hs).1
          obtain ⟨ts, hts⟩ := ih rest.length (by rw [List.length_append]; omega) (h.behind_script hs) rfl
          exact ⟨_, .script (hnothing _) hs hts⟩
      | none =>
          cases hl : readLink? s with
          | some found =>
              obtain ⟨attributes, rest⟩ := found
              obtain ⟨inner, _, hinner, _⟩ := exists_own_of_readLink? hl
              obtain ⟨own, rfl⟩ : ∃ own, s = own ++ rest := ⟨inner ++ ['>'], by simpa using hinner⟩
              have hlen := List.length_pos_of_ne_nil (marked_of_readLink? hl).1
              have hinside := h.inside_link hl hs
              obtain ⟨ts, hts⟩ := ih rest.length (by rw [List.length_append]; omega)
                (h.behind_link hl hinside) rfl
              exact ⟨_, .link (hnothing _) hl hinside hts⟩
          | none =>
              cases s with
              | nil => exact ⟨[], .rest (hnothing _)⟩
              | cons c s =>
                  rw [Clear, occurrencesFrom_of_none hs, occurrencesFrom_of_none hl] at h
                  obtain ⟨ts, hts⟩ := ih s.length (by simp) h rfl
                  refine ⟨ts, @Scanned.prepend s position ts [c] ?_ (by simpa using hts)⟩
                  intro y hy hne
                  obtain rfl := (List.suffix_cons_iff.1 hy).resolve_right
                    fun hnil => hne (List.suffix_nil.1 hnil)
                  exact ⟨hs, hl⟩

theorem Tag.within_iff {u : Tag} : t.within u = true ↔ u.start ≤ t.start ∧ t.stop ≤ u.stop := by
  simp [Tag.within]

theorem clear_of_apart {page : String} (h : Apart page) : Clear 0 page.toList := by
  intro o ho o' ho' hlt
  have hfound : Found readScript? 0 page.toList o :=
    found_of_mem_occurrencesFrom (fun _ _ _ => suffix_of_readScript?) ho
  have hscript := hfound.covers.lt
  by_cases hin : ∃ script ∈ scriptTags page.toList, script.start ≤ o'.start ∧ o'.stop ≤ script.stop
  · -- The link tag lies in another script element, and that one ends before this one starts.
    obtain ⟨_, hm, hstart, hstop⟩ := hin
    obtain ⟨o₂, ho₂, rfl⟩ := List.mem_map.1 hm
    have hscripts : (occurrences readScript? page.toList).Pairwise
        fun o o' => o.stop ≤ o'.start ∨ o'.stop ≤ o.start :=
      (pairwise_occurrencesFrom (fun _ _ _ => suffix_of_readScript?) 0 page.toList).imp .inl
    have hne : o ≠ o₂ := by
      rintro rfl
      dsimp only at hstart
      omega
    have hsymm : Std.Symm fun o o' : Occurrence (List Char × List Char) =>
        o.stop ≤ o'.start ∨ o'.stop ≤ o.start := ⟨fun _ _ => Or.symm⟩
    have hcases := hscripts.forall ho ho₂ hne
    dsimp only at hstart hstop
    omega
  · have hfound := ((tags_perm page).pairwise_iff Or.symm).1 h
    have hlink : ⟨.link, o'.start, o'.stop, attributesOf o'.value, ""⟩
        ∈ (linkTags page.toList).filter fun link => !(scriptTags page.toList).any link.within := by
      refine List.mem_filter.2 ⟨List.mem_map.2 ⟨o', ho', rfl⟩, ?_⟩
      simp only [Bool.not_eq_true', List.any_eq_false, Tag.within_iff]
      exact fun script hm hw => hin ⟨script, hm, hw⟩
    have hcases := (List.pairwise_append.1 hfound).2.2 _ (List.mem_map.2 ⟨o, ho, rfl⟩) _ hlink
    dsimp only at hcases
    omega

/-! ### What a pass finds -/

/-- Nothing is found in front of where a pass starts, and each tag ends before the next one starts. -/
theorem Scanned.ordered (h : Scanned position s ts) : (∀ t ∈ ts, position ≤ t.start ∧ t.start < t.stop) ∧
    ts.Pairwise fun t u => t.stop ≤ u.start := by
  have hcons : ∀ {t : Tag} {ts : List Tag} {p : Nat}, p ≤ t.start → t.start < t.stop →
      (∀ u ∈ ts, t.stop ≤ u.start ∧ u.start < u.stop) ∧ ts.Pairwise (fun t u => t.stop ≤ u.start) →
      (∀ u ∈ t :: ts, p ≤ u.start ∧ u.start < u.stop) ∧
        (t :: ts).Pairwise fun t u => t.stop ≤ u.start := by
    intro t ts p hp ht ⟨hts, hpair⟩
    refine ⟨List.forall_mem_cons.2 ⟨⟨hp, ht⟩, fun u hu => ?_⟩,
      List.pairwise_cons.2 ⟨fun u hu => (hts u hu).1, hpair⟩⟩
    have := hts u hu
    omega
  induction h with
  | rest hs => exact ⟨by simp, .nil⟩
  | script hgap hread h ih =>
      have hpos := byteSize_pos (marked_of_readScript? hread).1
      exact hcons (Nat.le_add_right _ _) (Nat.lt_add_of_pos_right hpos) ih
  | link hgap hread hinside h ih =>
      have hpos := byteSize_pos (marked_of_readLink? hread).1
      exact hcons (Nat.le_add_right _ _) (Nat.lt_add_of_pos_right hpos) ih

theorem Scanned.scripts (h : Scanned position s ts) :
    (occurrencesFrom readScript? position s).map (fun o =>
      (⟨.script, o.start, o.stop, attributesOf o.value.1, String.ofList o.value.2⟩ : Tag))
      = ts.filter fun t => t.kind = .script := by
  induction h with
  | @rest position s hs =>
      have hskip := @occurrencesFrom_append_of_none _ readScript? [] s position fun y hy hne => (hs y hy hne).1
      rw [List.append_nil] at hskip
      simp [hskip, occurrencesFrom]
  | script hgap hread h ih =>
      rw [List.append_assoc, occurrencesFrom_append_of_none fun y hy hne => (hgap y hy hne).1,
        occurrencesFrom_of_some (marked_of_readScript? hread).1 hread, List.map_cons, ih,
        List.filter_cons_of_pos (by rfl)]
      rfl
  | link hgap hread hinside h ih =>
      rw [List.append_assoc, occurrencesFrom_append_of_none fun y hy hne => (hgap y hy hne).1,
        occurrencesFrom_append_of_none hinside, ih, List.filter_cons_of_neg (by simp [linkTag])]

theorem bounds_of_mem_links {o : Occurrence (List Char)} (h : o ∈ occurrencesFrom readLink? position s) :
    position ≤ o.start ∧ o.start < o.stop ∧ o.stop ≤ position + byteSize s := by
  have hfound : Found readLink? position s o :=
    found_of_mem_occurrencesFrom (fun _ _ _ => suffix_of_readLink?) h
  have hlt := hfound.covers.lt
  obtain ⟨front, own, back, rfl, _, hstart, hstop, _⟩ := hfound
  simp only [byteSize_append]
  omega

theorem Scanned.links (h : Scanned position s ts) :
    ((occurrencesFrom readLink? position s).map fun o =>
      (⟨.link, o.start, o.stop, attributesOf o.value, ""⟩ : Tag)).filter
        (fun link => !(ts.filter fun t => t.kind = .script).any link.within)
      = ts.filter fun t => t.kind = .link := by
  induction h with
  | @rest position s hs =>
      have hskip := @occurrencesFrom_append_of_none _ readLink? [] s position fun y hy hne => (hs y hy hne).2
      rw [List.append_nil] at hskip
      simp [hskip, occurrencesFrom]
  | @script position gap own s element ts hgap hread h ih =>
      -- The links in the element are dropped, and those behind it do not lie in it.
      rw [List.append_assoc, occurrencesFrom_append_of_none fun y hy hne => (hgap y hy hne).2,
        occurrencesFrom_readLink?_append (marked_of_readScript? hread).2, List.map_append,
        List.filter_append, List.filter_cons_of_pos (by rfl), List.filter_cons_of_neg (by simp [scriptTag]),
        ← ih]
      have hinside : ∀ link ∈ (occurrencesFrom readLink? (position + byteSize gap) own).map fun o =>
          (⟨.link, o.start, o.stop, attributesOf o.value, ""⟩ : Tag),
          link.within (scriptTag (position + byteSize gap) own element) = true := by
        rintro _ hm
        obtain ⟨o, ho, rfl⟩ := List.mem_map.1 hm
        have hbounds := bounds_of_mem_links ho
        rw [Tag.within_iff]
        exact ⟨hbounds.1, hbounds.2.2⟩
      have hbehind : ∀ link ∈
          (occurrencesFrom readLink? (position + byteSize gap + byteSize own) s).map fun o =>
            (⟨.link, o.start, o.stop, attributesOf o.value, ""⟩ : Tag),
          link.within (scriptTag (position + byteSize gap) own element) = false := by
        rintro _ hm
        obtain ⟨o, ho, rfl⟩ := List.mem_map.1 hm
        have hbounds := bounds_of_mem_links ho
        rw [Bool.eq_false_iff, ne_eq, Tag.within_iff, scriptTag]
        dsimp only
        omega
      rw [List.filter_eq_nil_iff.2, List.nil_append]
      · refine List.filter_congr fun link hm => ?_
        rw [List.any_cons, hbehind link hm, Bool.false_or]
      · intro link hm
        rw [List.any_cons, hinside link hm]
        simp
  | @link position gap own s attributes ts hgap hread hinside h ih =>
      rw [List.append_assoc, occurrencesFrom_append_of_none fun y hy hne => (hgap y hy hne).2,
        occurrencesFrom_of_some (marked_of_readLink? hread).1 hread, List.map_cons]
      have hscripts :
          ((linkTag (position + byteSize gap) own attributes :: ts).filter fun t => t.kind = .script)
          = ts.filter fun t => t.kind = .script := List.filter_cons_of_neg (by simp [linkTag])
      rw [hscripts, List.filter_cons_of_pos, ih, List.filter_cons_of_pos (by rfl)]
      · rfl
      · -- All script elements behind the link tag start where it has ended.
        have hpos := byteSize_pos (marked_of_readLink? hread).1
        simp only [Bool.not_eq_true', List.any_eq_false, Tag.within_iff]
        intro script hm hw
        have := (h.ordered.1 script (List.mem_of_mem_filter hm)).1
        omega

/-- **What a pass finds** are the tags of the page. -/
theorem Scanned.tags_eq {page : String} (h : Scanned 0 page.toList ts) : tags page = ts := by
  have hfound : foundTags page
      = (ts.filter fun t => t.kind = .script) ++ ts.filter fun t => t.kind = .link := by
    have hscripts : scriptTags page.toList = ts.filter fun t => t.kind = .script := h.scripts
    rw [foundTags, hscripts]
    exact congrArg _ h.links
  refine tags_eq_of_perm ?_ ?_
  · have hkinds : (ts.filter fun t => t.kind = .link) = ts.filter fun t => !decide (t.kind = .script) := by
      refine List.filter_congr fun t _ => ?_
      cases t.kind with
      | script => rfl
      | link => rfl
    rw [hfound, hkinds]
    exact (List.filter_append_perm _ ts).symm
  · refine List.Pairwise.imp_of_mem ?_ h.ordered.2
    intro t u ht _ hle
    exact Nat.lt_of_lt_of_le (h.ordered.1 t ht).2 hle

/-- **Tags that do not overlap** are found in one pass. -/
theorem scanned_of_apart {page : String} (h : Apart page) : Scanned 0 page.toList (tags page) := by
  obtain ⟨ts, hts⟩ := exists_scanned (clear_of_apart h)
  rwa [hts.tags_eq]

end Page

end Pagefold
