import Pagefold.Proofs.Documents
import Pagefold.Proofs.Openings

/-! # Where tags overlap

Script elements are found among themselves without overlaps, and link tags too, but the two are
searched for apart, and only the links inside a script element are dropped.  So a link tag that is still
open where a script element starts takes the opening of the element with it (`Swallows`): it ends at the
first `>` and the element begins before that.  These are all the overlaps there are (`tags_in_place`).
Without them the replacements of a plan are made one after the other at the places where they were
planned (`Makeable`). -/

namespace Pagefold.Page

open Text

variable {page : String} {t u : Tag} {s own inner own' : List Char}

/-- A link tag is still open where a script element starts. -/
def Swallows (page : String) (link script : Tag) : Prop :=
  link.kind = .link ∧ script.kind = .script ∧ '>' ∉ slice link.start script.start page.toList

instance : Decidable (Swallows page t u) := inferInstanceAs (Decidable (_ ∧ _ ∧ _))

/-! ### Two places of a text -/

theorem slice_append (front own back : List Char) :
    slice (byteSize front) (byteSize front + byteSize own) (front ++ own ++ back) = own := by
  rw [slice, Nat.add_sub_cancel_left, List.append_assoc, cutAtByte_byteSize, cutAtByte_byteSize]

/-- What ends at the first mark is still open behind a gap just when there is no mark in the gap. -/
theorem open_behind_iff {gap back rest : List Char} (hinner : '>' ∉ inner)
    (h : inner ++ '>' :: back = gap ++ rest) (hrest : rest.head? ≠ some '>') :
    byteSize gap < byteSize (inner ++ ['>']) ↔ '>' ∉ gap := by
  constructor
  · intro hlt hm
    obtain ⟨back', rfl, _⟩ := exists_of_mark_mem hm hinner h.symm
    rw [byteSize_append, byteSize_append, byteSize_cons, byteSize_cons, byteSize_nil] at hlt
    omega
  · intro hm
    rcases List.append_eq_append_iff.1 h with ⟨as, rfl, has⟩ | ⟨bs, rfl, _⟩
    · cases as with
      | nil =>
          rw [List.nil_append] at has
          rw [← has] at hrest
          exact absurd rfl hrest
      | cons c as =>
          obtain ⟨rfl, _⟩ := List.cons.inj has
          simp at hm
    · rw [byteSize_append, byteSize_append]
      have := byteSize_pos (s := ['>']) (by simp)
      omega

/-- What ends at the first mark and starts in something that ends in a mark lies in it. -/
theorem within_of_start {gap back rest : List Char} (hinner : '>' ∉ inner)
    (h : own ++ '>' :: back = gap ++ (inner ++ '>' :: rest))
    (hlt : byteSize gap < byteSize (own ++ ['>'])) :
    byteSize (gap ++ (inner ++ ['>'])) ≤ byteSize (own ++ ['>']) := by
  have h : (own ++ ['>']) ++ back = gap ++ (inner ++ '>' :: rest) := by simpa using h
  obtain ⟨tail, htail, hrest⟩ := exists_gap_of_byteSize_le h.symm (Nat.le_of_lt hlt)
  -- The tail of the outer text is not empty, so it ends in the mark.
  have hmark : '>' ∈ tail := by
    have hne : tail ≠ [] := by
      rintro rfl
      rw [htail, List.append_nil] at hlt
      omega
    have hlast := congrArg List.getLast? htail
    rw [List.getLast?_append_of_ne_nil _ hne] at hlast
    exact List.mem_of_getLast? (hlast.symm.trans (by simp))
  obtain ⟨rest', rfl, _⟩ := exists_of_mark_mem hmark hinner hrest.symm
  rw [htail]
  simp only [byteSize_append, byteSize_cons, byteSize_nil]
  omega

/-! ### Two tags of a page -/

/-- How a tag and one that starts behind it lie: the first one takes the opening of the second one with
it, or ends before it. -/
def Follows (page : String) (t u : Tag) : Prop :=
  t.start < u.start → (u.start < t.stop ↔ Swallows page t u)

/-- Two tags start at different places, and of the two the earlier one lies as `Follows` says. -/
def Arranged (page : String) (t u : Tag) : Prop :=
  t.start ≠ u.start ∧ Follows page t u ∧ Follows page u t

theorem Arranged.symm (h : Arranged page t u) : Arranged page u t := ⟨h.1.symm, h.2.2, h.2.1⟩

/-- Tags that end before the next ones start, none of which is swallowed. -/
theorem arranged_of_apart (hlt : t.start < t.stop) (hle : t.stop ≤ u.start)
    (hkind : t.kind = .script ∨ u.kind = .link) : Arranged page t u := by
  refine ⟨by omega, fun _ => ?_, fun _ => by omega⟩
  constructor
  · intro h
    omega
  · rintro ⟨hlink, hscript, _⟩
    rcases hkind with h | h
    · rw [h] at hlink
      cases hlink
    · rw [h] at hscript
      cases hscript

/-- A script element and a link tag that does not lie in it. -/
theorem arranged_script_link {script link : Tag} (hs : script ∈ scriptTags page.toList)
    (hl : link ∈ linkTags page.toList) (hout : link.within script = false) :
    Arranged page script link := by
  obtain ⟨o, ho, rfl⟩ := List.mem_map.1 hs
  obtain ⟨o', ho', rfl⟩ := List.mem_map.1 hl
  have hfound : Found readScript? 0 page.toList o :=
    found_of_mem_occurrencesFrom (fun _ _ _ => suffix_of_readScript?) ho
  have hfound' : Found readLink? 0 page.toList o' :=
    found_of_mem_occurrencesFrom (fun _ _ _ => suffix_of_readLink?) ho'
  have hlt := hfound.covers.lt
  obtain ⟨front, own, back, hpage, _, hstart, hstop, hread⟩ := hfound
  obtain ⟨front', own', back', hpage', _, hstart', hstop', hread'⟩ := hfound'
  rw [Nat.zero_add] at hstart hstart'
  obtain ⟨outer, houter, _⟩ := exists_own_of_readScript? hread
  obtain ⟨inner, hinner, hlink, _⟩ := exists_own_of_readLink? hread'
  obtain rfl : own = outer ++ ['>'] := List.append_cancel_right (houter.trans (by simp))
  obtain rfl : own' = inner ++ ['>'] := List.append_cancel_right (hlink.trans (by simp))
  have hsame : front ++ (outer ++ '>' :: back) = front' ++ (inner ++ '>' :: back') := by
    simpa using hpage.symm.trans hpage'
  have hopens : (openingTag? scriptName (outer ++ '>' :: back)).isSome = true := by
    refine (isSome_readScript?.1 ?_).1
    rw [← houter, hread]
    rfl
  have hopens' : (openingTag? linkName (inner ++ '>' :: back')).isSome = true := by
    rw [← hlink]
    exact Option.isSome_of_mem hread'
  rcases Nat.lt_trichotomy (byteSize front) (byteSize front') with hless | heq | hgt
  · obtain ⟨gap, rfl, hgap⟩ := exists_gap_of_byteSize_le hsame (Nat.le_of_lt hless)
    rw [byteSize_append] at hstart'
    -- A link tag that starts in the element would lie in it.
    have hapart : o.stop ≤ o'.start := by
      by_contra hover
      have hin := within_of_start hinner hgap (by omega)
      rw [byteSize_append] at hin
      have hwithin : o.start ≤ o'.start ∧ o'.stop ≤ o.stop := by omega
      simp [Tag.within, hwithin] at hout
    exact arranged_of_apart hlt hapart (.inl rfl)
  · rw [(append_inj_of_byteSize hsame heq).2] at hopens
    exact (not_script_and_link hopens hopens').elim
  · obtain ⟨gap, rfl, hgap⟩ := exists_gap_of_byteSize_le hsame.symm (Nat.le_of_lt hgt)
    rw [byteSize_append] at hstart hgt
    have hslice : slice o'.start o.start page.toList = gap := by
      rw [hpage, hstart, hstart', List.append_assoc]
      exact slice_append front' gap _
    refine ⟨by dsimp only; omega, fun h => absurd h (by dsimp only; omega), fun _ => ?_⟩
    have hopen := open_behind_iff hinner hgap (by rw [head?_of_openingTag? hopens]; decide)
    have hplaces : o.start < o'.stop ↔ byteSize gap < byteSize (inner ++ ['>']) := by omega
    rw [Swallows, hslice]
    exact ⟨fun h => ⟨rfl, rfl, hopen.1 (hplaces.1 h)⟩, fun h => hplaces.2 (hopen.2 h.2.2)⟩

/-- **Any two tags of a page** start at different places, and the earlier one ends before the later one
starts or swallows it. -/
theorem tags_arranged (page : String) :
    (tags page).Pairwise fun t u => t.start < u.start ∧ (u.start < t.stop ↔ Swallows page t u) := by
  have hfound : (foundTags page).Pairwise (Arranged page) := by
    refine List.pairwise_append.2 ⟨?_, ?_, ?_⟩
    · refine List.pairwise_map.2 (List.Pairwise.imp_of_mem ?_
        (pairwise_occurrencesFrom (fun _ _ _ => suffix_of_readScript?) 0 page.toList))
      intro o o' ho _ hle
      exact arranged_of_apart (found_of_mem_occurrencesFrom (fun _ _ _ => suffix_of_readScript?) ho).covers.lt
        hle (.inl rfl)
    · refine (List.pairwise_map.2 (List.Pairwise.imp_of_mem ?_
        (pairwise_occurrencesFrom (fun _ _ _ => suffix_of_readLink?) 0 page.toList))).filter _
      intro o o' ho _ hle
      exact arranged_of_apart (found_of_mem_occurrencesFrom (fun _ _ _ => suffix_of_readLink?) ho).covers.lt
        hle (.inr rfl)
    · intro script hs link hl
      obtain ⟨hl, hout⟩ := List.mem_filter.1 hl
      refine arranged_script_link hs hl ?_
      simp only [Bool.not_eq_true', List.any_eq_false, Bool.not_eq_true] at hout
      exact hout script hs
  refine (((tags_perm page).pairwise_iff Arranged.symm).2 hfound).imp₂ ?_ (tags_sorted page)
  rintro t u ⟨hne, hfollows, _⟩ hle
  have hlt : t.start < u.start := by omega
  exact ⟨hlt, hfollows hlt⟩

theorem apart_of_not_swallows (h : (tags page).Pairwise fun t u => ¬ Swallows page t u) : Apart page := by
  refine (tags_arranged page).imp₂ ?_ h
  rintro t u ⟨_, hiff⟩ hnot
  exact .inl (Nat.le_of_not_lt fun hover => hnot (hiff.1 hover))

end Pagefold.Page

namespace Pagefold.Fold

open Page Text

variable {page : String} {ts : List Tag} {edit : Tag → Option String}

/-! ### One replacement after the other -/

/-- In the text `s`, what a replacement takes out is what stands at this place in `page`, and so is
everything before it. -/
def StillAt (page s : List Char) (r : Replacement) : Prop :=
  ∃ front own back back', page = front ++ own ++ back ∧ s = front ++ own ++ back' ∧ own ≠ [] ∧
    r.start = byteSize front ∧ r.stop = byteSize front + byteSize own

/-- The replacements can be made in the text `s`, one after the other, and each one takes out what
stands at its place in `page`. -/
def Makeable (page : List Char) : List Replacement → List Char → Prop
  | [], _ => True
  | r :: rs, s => StillAt page s r ∧ Makeable page rs (r.make s)

theorem Makeable.concat {page s : List Char} {rs : List Replacement} {r : Replacement}
    (h : Makeable page rs s) (hr : StillAt page (rs.foldl (fun s r => r.make s) s) r) :
    Makeable page (rs ++ [r]) s := by
  induction rs generalizing s with
  | nil => exact ⟨hr, trivial⟩
  | cons r' rs ih => exact ⟨h.1, ih h.2 hr⟩

/-- Edits of tags that follow each other can be made from the back. -/
theorem makeable_reverse_editsOf {page : List Char} (hcovers : ∀ t ∈ ts, Covers 0 page t.start t.stop)
    (hapart : ts.Pairwise fun t u => t.stop ≤ u.start) :
    Makeable page (editsOf edit ts).reverse page := by
  induction ts with
  | nil => exact trivial
  | cons t ts ih =>
      rw [List.pairwise_cons] at hapart
      have hrest := ih (fun u hu => hcovers u (List.mem_cons_of_mem t hu)) hapart.2
      obtain ⟨front, own, back, hpage, hown, hstart, hstop⟩ := hcovers t List.mem_cons_self
      rw [Nat.zero_add] at hstart
      have hsize : byteSize (front ++ own) = t.stop := by rw [byteSize_append, hstop, hstart]
      -- The later edits leave everything up to the end of this tag.
      obtain ⟨result, hresult, _⟩ := @rewritten_foldr ts back edit page (front ++ own)
        (fun u hu => hcovers u (List.mem_cons_of_mem t hu)) (fun u hu => hsize ▸ hapart.1 u hu) hapart.2
        hpage
      cases hedit : edit t with
      | none =>
          rw [editsOf, List.filterMap_cons_none (by rw [hedit]; rfl)]
          exact hrest
      | some text =>
          rw [editsOf, List.filterMap_cons_some (by rw [hedit]; rfl), List.reverse_cons]
          refine hrest.concat ?_
          rw [List.foldl_reverse]
          exact ⟨front, own, back, result, hpage, hresult, hown, hstart, by rw [hstop, hstart]⟩

/-- **Tags and their places.**  The tags of a page come in strictly increasing order, each one covers a
stretch of the page between two characters, and of two tags the earlier one reaches beyond the start of
the later one just when it is a link tag that swallows a script element.  When none does, the
replacements that a run plans for a document with this page are made from the back, each at a place
where the text is still that of the page, and come to the text in which all tags have given place at
once; the chunks of the build are to have names of scripts. -/
theorem tags_in_place (page : String) :
    (∀ t ∈ tags page, Covers 0 page.toList t.start t.stop) ∧
    ((tags page).Pairwise fun t u => t.start < u.start ∧ (u.start < t.stop ↔ Swallows page t u)) ∧
    (∀ (options : Options) (selection : Glob.Selection) (build : Build) (document : String),
      NamesScripts build → build.text? document = some page →
      ((tags page).Pairwise fun t u => ¬ Swallows page t u) →
      Makeable page.toList ((Plan.of (.of build options selection) document).replacements.mergeSort
        fun r r' => r'.start ≤ r.start) page.toList ∧
      Rewritten (TakesPlace (.of build options selection) document) 0 (tags page) page.toList
        ((Plan.of (.of build options selection) document).rewritten page).toList) := by
  refine ⟨fun _ => covers_of_mem_tags, tags_arranged page, ?_⟩
  intro options selection build document hs hp hfree
  have hapart := apart_of_not_swallows hfree
  have hplan : Plan.of (.of build options selection) document
      = Plan.ofText (.of build options selection) document page := Plan.of_eq_ofText hp
  rw [hplan]
  have hperm := @replacements_perm (.of build options selection) document page hp
    fun _ _ _ => not_preloads_of_folds hs
  constructor
  · rw [mergeSort_eq_reverse hperm (editsOf_pairwise (fun t ht => (covers_of_mem_tags ht).lt)
      (tags_apart hapart))]
    exact makeable_reverse_editsOf (fun _ => covers_of_mem_tags) (tags_apart hapart)
  · exact (rewritten_of_perm hapart hperm).mono fun _ _ _ _ => takesPlace_of_edited hp

/-- A page with two tags behind a character of two bytes. -/
def accentedPage : String := "\u00e9<link rel=stylesheet href=a.css><script src=a.js></script>"

/-- The document `p.html` is that page. -/
def accentedSite : Build :=
  .ofList [("a.css", .asset "a".toUTF8), ("a.js", .chunk "a()"), ("p.html", .asset accentedPage.toUTF8)]

theorem accentedSite_in_place :
    NamesScripts accentedSite ∧ accentedSite.text? "p.html" = some accentedPage ∧
    ((tags accentedPage).Pairwise fun t u => ¬ Swallows accentedPage t u) ∧
    Makeable accentedPage.toList [⟨34, 60, "<script>a()</script>"⟩, ⟨2, 34, "<style>a</style>"⟩]
      accentedPage.toList := by
  have hnames : NamesScripts accentedSite := by decide +kernel
  have hpage : accentedSite.text? "p.html" = some accentedPage := by decide +kernel
  have htags : tags accentedPage = [⟨.link, 2, 34, [⟨"rel", some "stylesheet"⟩, ⟨"href", some "a.css"⟩], ""⟩,
      ⟨.script, 34, 60, [⟨"src", some "a.js"⟩], ""⟩] :=
    tags_eq_of_perm (by decide +kernel) (by decide +kernel)
  have hfree : (tags accentedPage).Pairwise fun t u => ¬ Swallows accentedPage t u := by
    rw [htags]
    decide +kernel
  have hmake := ((tags_in_place accentedPage).2.2 {} ⟨[]⟩ accentedSite "p.html" hnames hpage hfree).1
  have hplan : Plan.of (.of accentedSite {} ⟨[]⟩) "p.html"
      = Plan.ofText (.of accentedSite {} ⟨[]⟩) "p.html" accentedPage := Plan.of_eq_ofText hpage
  have hsorted : (Plan.ofText (.of accentedSite {} ⟨[]⟩) "p.html" accentedPage).replacements.mergeSort
      (fun r r' => r'.start ≤ r.start) = [⟨34, 60, "<script>a()</script>"⟩, ⟨2, 34, "<style>a</style>"⟩] := by
    have hedits : [⟨2, 34, "<style>a</style>"⟩, ⟨34, 60, "<script>a()</script>"⟩].Pairwise
        fun r r' : Replacement => r.start < r'.start := by
      decide +kernel
    refine (mergeSort_eq_reverse (.of_eq ?_) hedits).trans rfl
    rw [Plan.ofText, htags]
    decide +kernel
  rw [hplan, hsorted] at hmake
  exact ⟨hnames, hpage, hfree, hmake⟩

/-- A link tag without an end in front of a script element. -/
def openLinkPage : String := "<link rel=stylesheet href=a.css <script src=a.js></script>"

/-- The link tag of that page swallows the opening of its script element. -/
theorem openLink_overlaps : ¬ (tags openLinkPage).Pairwise fun t u => t.stop ≤ u.start := by
  have htags : tags openLinkPage = [⟨.link, 0, 49, [⟨"rel", some "stylesheet"⟩, ⟨"href", some "a.css"⟩,
      ⟨"script", none⟩, ⟨"src", some "a.js"⟩], ""⟩, ⟨.script, 32, 58, [⟨"src", some "a.js"⟩], ""⟩] :=
    tags_eq_of_perm (by decide +kernel) (by decide +kernel)
  rw [htags]
  decide +kernel

end Pagefold.Fold
