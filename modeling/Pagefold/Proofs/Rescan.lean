import Pagefold.Proofs.Edits
import Pagefold.Proofs.Scanning

/-! # Scanning a rewritten page

A page is rewritten: of its tags some stay, script elements give place to script elements without a
`src`, link tags to texts in which no tag starts (`Inert`), and link tags to nothing.  Then one pass over
the new page finds no more than the tags that stayed and the new script elements
(`rescanned_of_rewritten`), provided that nothing in front of a tag that goes away could grow into a tag
with what comes behind it (`Unfinished`).  The proof compares what stands behind a gap in the two pages
(`Calmer`): behind the gap no more may open, and no more may close. -/

namespace Pagefold.Page

open Text Fold

variable {word s r own new gap y a b result : List Char} {left : Tag → Prop} {page : List Char}
  {ts : List Tag} {t : Tag}

/-! ### Texts in front of a tag -/

/-- What a text without a mark opens with before a `<` does not depend on what follows. -/
theorem isSome_openingTag?_before (hw : IsPlain word) (hy : y ≠ []) (hmark : '>' ∉ y) (hr : '>' ∈ r)
    (h : (openingTag? word (y ++ '<' :: s)).isSome = true) :
    (openingTag? word (y ++ '<' :: r)).isSome = true := by
  obtain ⟨⟨attributes, rest⟩, h⟩ := Option.isSome_iff_exists.1 h
  obtain ⟨name, hname, _, hword, heq⟩ := openingTag?_eq_some_iff.1 h
  obtain ⟨c, y, rfl⟩ := List.exists_cons_of_ne_nil hy
  rw [List.cons_append, List.cons_append, List.cons_append, List.append_assoc, List.cons.injEq] at heq
  obtain ⟨rfl, heq⟩ := heq
  -- The name has no `<`, so it lies in front of the one that follows the text.
  obtain ⟨more, rfl, hmore⟩ : ∃ more, y = name ++ more ∧ more ++ '<' :: s = attributes ++ '>' :: rest := by
    rcases List.append_eq_append_iff.1 heq with ⟨bs, rfl, hbs⟩ | ⟨more, hy, hmore⟩
    · cases bs with
      | nil => exact ⟨[], by simp, by simpa using hbs⟩
      | cons d bs =>
          obtain ⟨rfl, _⟩ := List.cons.inj hbs
          exact absurd (by simp) (hname.not_mem hw).1
    · exact ⟨more, hy, hmore.symm⟩
  obtain ⟨a, b, rfl, ha⟩ := List.eq_append_cons_of_mem hr
  have hmarks : '>' ∉ more ∧ '>' ∉ more ++ '<' :: a := by
    simp only [List.mem_cons, List.mem_append, not_or] at hmark ⊢
    exact ⟨hmark.2.2, hmark.2.2, by decide, ha⟩
  have hhead : (more ++ '<' :: a).head?.any isWordChar = false := by
    cases more with
    | nil => rfl
    | cons d more =>
        cases attributes with
        | nil =>
            obtain ⟨rfl, _⟩ := List.cons.inj hmore
            exact absurd List.mem_cons_self hmarks.1
        | cons e attributes =>
            obtain ⟨rfl, _⟩ := List.cons.inj hmore
            exact hword
  have hopen : openingTag? word ('<' :: (name ++ more) ++ '<' :: (a ++ '>' :: b))
      = some (more ++ '<' :: a, b) :=
    openingTag?_eq_some_iff.2 ⟨name, hname, hmarks.2, hhead, by simp⟩
  rw [hopen]
  rfl

/-- Before a `<`, no text without a mark closes an element. -/
theorem closingTag?_before (hw : IsPlain word) (hy : y ≠ []) (hmark : '>' ∉ y) :
    closingTag? word (y ++ '<' :: s) = none := by
  by_contra hsome
  obtain ⟨rest, h⟩ := Option.ne_none_iff_exists'.1 hsome
  obtain ⟨name, blanks, hname, hblanks, heq⟩ := closingTag?_eq_some_iff.1 h
  obtain ⟨c, y, rfl⟩ := List.exists_cons_of_ne_nil hy
  have hopen : '<' ∉ '/' :: name ++ blanks := by
    have hblank : '<' ∉ blanks := fun hm => absurd (hblanks _ hm) (by decide)
    simp [(hname.not_mem hw).1, hblank]
  have heq : y ++ '<' :: s = ('/' :: name ++ blanks) ++ '>' :: rest := (List.cons.inj heq).2
  rcases List.append_eq_append_iff.1 heq with ⟨bs, hbs, hrest⟩ | ⟨bs, rfl, hrest⟩
  · cases bs with
    | nil => cases hrest
    | cons d bs =>
        obtain ⟨rfl, _⟩ := List.cons.inj hrest
        exact hopen (by rw [hbs]; simp)
  · cases bs with
    | nil => cases hrest
    | cons d bs =>
        obtain ⟨rfl, _⟩ := List.cons.inj hrest
        simp at hmark

/-- A text with a mark opens or closes an element by itself. -/
theorem isSome_openingTag?_of_mark (hw : IsPlain word) (hmark : '>' ∈ y)
    (h : (openingTag? word (y ++ s)).isSome = true) : (openingTag? word (y ++ r)).isSome = true := by
  rw [openingTag?_append hw hmark, Option.isSome_map] at h ⊢
  exact h

theorem isSome_closingTag?_of_mark (hw : IsPlain word) (hmark : '>' ∈ y)
    (h : (closingTag? word (y ++ s)).isSome = true) : (closingTag? word (y ++ r)).isSome = true := by
  rw [closingTag?_append hw hmark, Option.isSome_map] at h ⊢
  exact h

theorem isSome_openingTag?_of_open (hw : IsPlain word) (hs : s.head? = some '<') (hr : r.head? = some '<')
    (hmark : '>' ∈ r) (hy : y ≠ []) (h : (openingTag? word (y ++ s)).isSome = true) :
    (openingTag? word (y ++ r)).isSome = true := by
  by_cases hym : '>' ∈ y
  · exact isSome_openingTag?_of_mark hw hym h
  · obtain ⟨s, rfl⟩ := List.head?_eq_some_iff.1 hs
    obtain ⟨r, rfl⟩ := List.head?_eq_some_iff.1 hr
    exact isSome_openingTag?_before hw hy hym (by simpa using hmark) h

theorem isSome_closingTag?_of_open (hw : IsPlain word) (hs : s.head? = some '<') (hy : y ≠ [])
    (h : (closingTag? word (y ++ s)).isSome = true) : (closingTag? word (y ++ r)).isSome = true := by
  by_cases hym : '>' ∈ y
  · exact isSome_closingTag?_of_mark hw hym h
  · obtain ⟨s, rfl⟩ := List.head?_eq_some_iff.1 hs
    rw [closingTag?_before hw hy hym] at h
    cases h

/-- A text that could grow into an opening tag or a closing one. -/
def Unfinished (s : List Char) : Prop :=
  s ≠ [] ∧ '>' ∉ s ∧ ∃ more, (openingTag? scriptName (s ++ more)).isSome = true ∨
    (openingTag? linkName (s ++ more)).isSome = true ∨ (closingTag? scriptName (s ++ more)).isSome = true

/-- A text in which no tag starts. -/
def Inert (s : List Char) : Prop :=
  ∀ y, y <:+ s → openingTag? scriptName y = none ∧ openingTag? linkName y = none ∧
    closingTag? scriptName y = none

instance : Decidable (Inert s) :=
  decidable_of_iff (∀ y ∈ s.tails, openingTag? scriptName y = none ∧ openingTag? linkName y = none ∧
    closingTag? scriptName y = none) (by simp only [List.mem_tails]; rfl)

/-! ### Calmer texts -/

/-- Behind `gap`, `s` lets no more open and close than `r` does. -/
structure Calmer (gap s r : List Char) : Prop where
  opening : ∀ word ∈ [scriptName, linkName], ∀ y, y <:+ gap → y ≠ [] →
    (openingTag? word (y ++ s)).isSome = true → (openingTag? word (y ++ r)).isSome = true
  closing : ∀ y, y <:+ gap → y ≠ [] →
    (closingTag? scriptName (y ++ s)).isSome = true → (closingTag? scriptName (y ++ r)).isSome = true
  closed : HasClosing s → HasClosing r
  behind : HasClosing (behindMark s) → HasClosing (behindMark r)

theorem Calmer.suffix (h : Calmer gap s r) (hy : y <:+ gap) : Calmer y s r where
  opening word hw z hz := h.opening word hw z (hz.trans hy)
  closing z hz := h.closing z (hz.trans hy)
  closed := h.closed
  behind := h.behind

theorem Calmer.hasClosing (h : Calmer gap s r) (hc : HasClosing (gap ++ s)) : HasClosing (gap ++ r) := by
  obtain ⟨u, hu, hsome⟩ := hc
  rcases Lists.suffix_append_cases hu with hu | ⟨y, hy, hne, rfl⟩
  · obtain ⟨u', hu', hsome'⟩ := h.closed ⟨u, hu, hsome⟩
    exact ⟨u', hu'.trans (List.suffix_append _ _), hsome'⟩
  · exact ⟨y ++ r, List.suffix_append_self_iff.2 hy, h.closing y hy hne hsome⟩

theorem Calmer.hasClosing_behindMark (h : Calmer gap s r) (hc : HasClosing (behindMark (gap ++ s))) :
    HasClosing (behindMark (gap ++ r)) := by
  by_cases hmark : '>' ∈ gap
  · obtain ⟨a, b, rfl, ha⟩ := List.eq_append_cons_of_mem hmark
    rw [List.append_assoc, List.cons_append, behindMark_append ha] at hc ⊢
    exact (h.suffix ((List.suffix_cons _ _).trans (List.suffix_append _ _))).hasClosing hc
  · have hskip : ∀ l, behindMark (gap ++ l) = behindMark l := by
      intro l
      have hall : ∀ c ∈ gap, (c != '>') = true := by
        intro c hc
        rw [bne_iff_ne]
        rintro rfl
        exact hmark hc
      rw [behindMark, List.dropWhile_append_of_pos hall, behindMark]
    rw [hskip] at hc ⊢
    exact h.behind hc

/-- Where a script element is read in the calmer text, one is read in the other. -/
theorem Calmer.isSome_readScript? (h : Calmer gap s r) (hy : y <:+ gap) (hne : y ≠ [])
    (hsome : (readScript? (y ++ s)).isSome = true) : (readScript? (y ++ r)).isSome = true := by
  obtain ⟨hopen, hclose⟩ := Page.isSome_readScript?.1 hsome
  exact Page.isSome_readScript?.2
    ⟨h.opening _ (by simp) y hy hne hopen, (h.suffix hy).hasClosing_behindMark hclose⟩

/-- A gap that opens with no tag stays so. -/
theorem Calmer.silent (h : Calmer gap s r) (hr : Silent gap r) : Silent gap s := by
  intro y hy hne
  obtain ⟨hscript, hlink⟩ := hr y hy hne
  constructor
  · by_contra hsome
    have hsome' := h.isSome_readScript? hy hne (Option.isSome_iff_ne_none.2 hsome)
    rw [hscript] at hsome'
    cases hsome'
  · by_contra hsome
    have hsome' : (readLink? (y ++ r)).isSome = true :=
      h.opening _ (by simp) y hy hne (Option.isSome_iff_ne_none.2 hsome)
    rw [hlink] at hsome'
    cases hsome'

/-- Calmer texts behind a gap make up calmer texts with it. -/
theorem Calmer.whole (h : Calmer gap s r) : Calmer [] (gap ++ s) (gap ++ r) where
  opening _ _ _ hy hne := absurd (List.suffix_nil.1 hy) hne
  closing _ hy hne := absurd (List.suffix_nil.1 hy) hne
  closed := h.hasClosing
  behind := h.hasClosing_behindMark

theorem isPlain_of_mem (h : word ∈ [scriptName, linkName]) : IsPlain word := by
  rcases List.mem_pair.1 h with rfl | rfl
  · exact isPlain_scriptName
  · exact isPlain_linkName

theorem HasClosing.mono (h : HasClosing s) (hs : s <:+ r) : HasClosing r := by
  obtain ⟨u, hu, hsome⟩ := h
  exact ⟨u, hu.trans hs, hsome⟩

theorem behindMark_suffix (s : List Char) : behindMark s <:+ s :=
  (List.tail_suffix _).trans (List.dropWhile_suffix _)

/-- What stands in front does not matter when both texts open with a `<`. -/
theorem Calmer.before_open (h : Calmer [] s r) (hs : s.head? = some '<') (hr : r.head? = some '<')
    (hmark : '>' ∈ r) : Calmer gap s r where
  opening _ hw _ _ hne := isSome_openingTag?_of_open (isPlain_of_mem hw) hs hr hmark hne
  closing _ _ hne := isSome_closingTag?_of_open isPlain_scriptName hs hne
  closed := h.closed
  behind := h.behind

/-- What stands in front decides alone when all its ends have a mark. -/
theorem Calmer.behind_marked (h : Calmer [] s r) (hgap : Marked gap) : Calmer gap s r where
  opening _ hw y hy hne := isSome_openingTag?_of_mark (isPlain_of_mem hw) (hgap y hy hne)
  closing y hy hne := isSome_closingTag?_of_mark isPlain_scriptName (hgap y hy hne)
  closed := h.closed
  behind := h.behind

/-- Where a script element is read, everything is calmer. -/
theorem calmer_of_script (hread : (readScript? r).isSome = true) : Calmer [] s r where
  opening _ _ _ hy hne := absurd (List.suffix_nil.1 hy) hne
  closing _ hy hne := absurd (List.suffix_nil.1 hy) hne
  closed _ := (isSome_readScript?.1 hread).2.mono (behindMark_suffix r)
  behind _ := (isSome_readScript?.1 hread).2

/-- In an inert text nothing is closed. -/
theorem Inert.hasClosing (h : Inert s) (hs : Marked s) (hc : HasClosing (s ++ r)) : HasClosing r := by
  obtain ⟨u, hu, hsome⟩ := hc
  rcases Lists.suffix_append_cases hu with hu | ⟨y, hy, hne, rfl⟩
  · exact ⟨u, hu, hsome⟩
  · rw [closingTag?_append isPlain_scriptName (hs y hy hne), (h y hy).2.2] at hsome
    cases hsome

theorem Inert.silent (h : Inert s) (hs : Marked s) : Silent s r := by
  intro y hy hne
  have hmark := hs y hy hne
  constructor
  · by_contra hsome
    have hopen := (isSome_readScript?.1 (Option.isSome_iff_ne_none.2 hsome)).1
    rw [openingTag?_append isPlain_scriptName hmark, (h y hy).1] at hopen
    cases hopen
  · rw [readLink?, openingTag?_append isPlain_linkName hmark, (h y hy).2.1, Option.map_none]

/-- In the place of a link tag an inert text is calmer. -/
theorem Inert.calmer {attributes : List Char} (h : Inert new) (hne : new ≠ []) (hnew : Marked new)
    (hread : readLink? (own ++ s) = some (attributes, s)) (hrest : Calmer [] result s) :
    Calmer [] (new ++ result) (own ++ s) where
  opening _ _ _ hy hne := absurd (List.suffix_nil.1 hy) hne
  closing _ hy hne := absurd (List.suffix_nil.1 hy) hne
  closed hc := (hrest.closed (h.hasClosing hnew hc)).mono (List.suffix_append _ _)
  behind hc := by
    obtain ⟨a, b, rfl, ha⟩ := List.eq_append_cons_of_mem (hnew new List.suffix_rfl hne)
    have hb : b <:+ a ++ '>' :: b := (List.suffix_cons _ _).trans (List.suffix_append _ _)
    rw [List.append_assoc, List.cons_append, behindMark_append ha] at hc
    rw [behindMark_of_openingTag? isPlain_linkName hread]
    have hinert : Inert b := fun y hy => h y (hy.trans hb)
    exact hrest.closed (hinert.hasClosing (hnew.suffix hb) hc)

/-- When a link tag goes away behind a gap that could not grow into a tag, the rest is calmer. -/
theorem calmer_of_gone {attributes : List Char} (hgap : ∀ y, y <:+ gap → ¬ Unfinished y)
    (hread : readLink? (own ++ s) = some (attributes, s)) (hrest : Calmer [] result s) :
    Calmer gap result (own ++ s) where
  opening word hw y hy hne h := by
    by_cases hmark : '>' ∈ y
    · exact isSome_openingTag?_of_mark (isPlain_of_mem hw) hmark h
    · refine absurd ⟨hne, hmark, result, ?_⟩ (hgap y hy)
      rcases List.mem_pair.1 hw with rfl | rfl
      · exact .inl h
      · exact .inr (.inl h)
  closing y hy hne h := by
    by_cases hmark : '>' ∈ y
    · exact isSome_closingTag?_of_mark isPlain_scriptName hmark h
    · exact absurd ⟨hne, hmark, result, .inr (.inr h)⟩ (hgap y hy)
  closed hc := (hrest.closed hc).mono (List.suffix_append _ _)
  behind hc := by
    rw [behindMark_of_openingTag? isPlain_linkName hread]
    exact (hrest.behind hc).mono (behindMark_suffix s)

/-! ### Rewritten pages -/

/-- In front of a tag nothing stands that could grow into a tag. -/
def ClearBefore (page : List Char) (t : Tag) : Prop :=
  ∀ front back, page = front ++ back → byteSize front = t.start → ∀ y, y <:+ front → ¬ Unfinished y

/-- In front of a tag that stands behind a mark there is nothing of the kind. -/
theorem clearBefore_of_marked {front back : List Char} (hpage : page = front ++ back)
    (hstart : byteSize front = t.start) (h : Marked front) : ClearBefore page t := by
  intro front' back' hpage' hstart' y hy hunfinished
  obtain ⟨rfl, _⟩ := append_inj_of_byteSize (hpage.symm.trans hpage') (hstart.trans hstart'.symm)
  exact hunfinished.2.1 (h y hy hunfinished.1)

/-- What may take the place of a tag; `page` is the text before. -/
inductive Swap (left : Tag → Prop) (page : List Char) (t : Tag) : (own new : List Char) → Prop
  | left {own : List Char} (h : left t) : Swap left page t own own
  | script {own new : List Char} {element} (hk : t.kind = .script)
      (hsrc : ∀ a ∈ attributesOf element.1, a.name ≠ "src")
      (hread : ∀ r, readScript? (new ++ r) = some (element, r)) : Swap left page t own new
  | inert {own new : List Char} (hk : t.kind = .link) (hopen : new.head? = some '<') (hnew : Marked new)
      (hinert : Inert new) : Swap left page t own new
  | gone {own : List Char} (hk : t.kind = .link) (hclear : ClearBefore page t) : Swap left page t own []

/-- A tag of the new page: a script element without a `src`, or one like a tag that stayed. -/
def Remains (left : Tag → Prop) (ts : List Tag) (t' : Tag) : Prop :=
  (t'.kind = .script ∧ ∀ a ∈ t'.attributes, a.name ≠ "src") ∨
    ∃ t ∈ ts, left t ∧ t'.kind = t.kind ∧ t'.attributes = t.attributes

/-- The tag that a pass takes off first. -/
inductive Taken (t : Tag) (own s : List Char) : Prop
  | script {element} (ht : t = scriptTag t.start own element)
      (hread : readScript? (own ++ s) = some (element, s))
  | link {attributes} (ht : t = linkTag t.start own attributes)
      (hread : readLink? (own ++ s) = some (attributes, s))
      (hinside : ∀ y, y <:+ own → y ≠ [] → readScript? (y ++ s) = none)

theorem Scanned.uncons {position : Nat} (h : Scanned position (gap ++ own ++ s) (t :: ts))
    (hstart : t.start = position + byteSize gap) (hstop : t.stop = t.start + byteSize own) :
    Silent gap (own ++ s) ∧ Taken t own s ∧ Scanned t.stop s ts := by
  generalize hs : gap ++ own ++ s = whole at h
  cases h with
  | @script _ gap' own' s' element _ hgap hread h =>
      -- The positions of the tag cut the text in one way.
      have hstart : position + byteSize gap' = position + byteSize gap := hstart
      have hstop : position + byteSize gap' + byteSize own' = position + byteSize gap' + byteSize own := hstop
      rw [List.append_assoc, List.append_assoc] at hs
      have hcut := append_inj_of_byteSize hs (by omega)
      have hcut' := append_inj_of_byteSize hcut.2 (by omega)
      obtain ⟨rfl, -⟩ := hcut
      obtain ⟨rfl, rfl⟩ := hcut'
      exact ⟨hgap, .script rfl hread, h⟩
  | @link _ gap' own' s' attributes _ hgap hread hinside h =>
      have hstart : position + byteSize gap' = position + byteSize gap := hstart
      have hstop : position + byteSize gap' + byteSize own' = position + byteSize gap' + byteSize own := hstop
      rw [List.append_assoc, List.append_assoc] at hs
      have hcut := append_inj_of_byteSize hs (by omega)
      have hcut' := append_inj_of_byteSize hcut.2 (by omega)
      obtain ⟨rfl, -⟩ := hcut
      obtain ⟨rfl, rfl⟩ := hcut'
      exact ⟨hgap, .link rfl hread hinside, h⟩

/-- A pass over the new page finds no more than what remains. -/
structure Rescanned (left : Tag → Prop) (ts : List Tag) (result s : List Char) : Prop where
  calmer : Calmer [] result s
  scanned : ∀ position, ∃ ts', Scanned position result ts' ∧ ∀ t' ∈ ts', Remains left ts t'

theorem Remains.cons {t' : Tag} (h : Remains left ts t') (t : Tag) : Remains left (t :: ts) t' := by
  rcases h with h | ⟨u, hu, h⟩
  · exact .inl h
  · exact .inr ⟨u, List.mem_cons_of_mem t hu, h⟩

/-- More text in front that opens with no tag. -/
theorem Rescanned.prepend {s' : List Char} (h : Rescanned left ts result s) (hs : Silent gap result)
    (hcalmer : Calmer [] (gap ++ result) s') : Rescanned left (t :: ts) (gap ++ result) s' := by
  refine ⟨hcalmer, fun position => ?_⟩
  obtain ⟨ts', hscanned, hremains⟩ := h.scanned (position + byteSize gap)
  exact ⟨ts', hscanned.prepend hs, fun t' ht' => (hremains t' ht').cons t⟩

theorem open_of_readScript? (h : (readScript? s).isSome = true) : s.head? = some '<' ∧ '>' ∈ s := by
  have hopen := (isSome_readScript?.1 h).1
  refine ⟨head?_of_openingTag? hopen, ?_⟩
  obtain ⟨⟨_, _⟩, h⟩ := Option.isSome_iff_exists.1 hopen
  obtain ⟨_, _, _, _, rfl⟩ := openingTag?_eq_some_iff.1 h
  simp

theorem open_of_readLink? (h : (readLink? s).isSome = true) : s.head? = some '<' ∧ '>' ∈ s := by
  refine ⟨head?_of_openingTag? h, ?_⟩
  obtain ⟨⟨_, _⟩, h⟩ := Option.isSome_iff_exists.1 h
  obtain ⟨_, _, _, _, rfl⟩ := openingTag?_eq_some_iff.1 h
  simp

/-- A script element in the place of a script element. -/
theorem Rescanned.script {element : List Char × List Char} (h : Rescanned left ts result s)
    (hgap : Silent gap (own ++ s)) (hread : (readScript? (own ++ s)).isSome = true)
    (hnew : readScript? (new ++ result) = some (element, result))
    (hremains : ∀ start, Remains left (t :: ts) (scriptTag start new element)) :
    Rescanned left (t :: ts) (gap ++ new ++ result) (gap ++ own ++ s) := by
  have hopen := open_of_readScript? hread
  have hopen' := open_of_readScript? (Option.isSome_of_mem hnew)
  have hcalmer : Calmer gap (new ++ result) (own ++ s) :=
    (calmer_of_script hread).before_open hopen'.1 hopen.1 hopen.2
  refine ⟨by simpa using hcalmer.whole, fun position => ?_⟩
  obtain ⟨ts', hscanned, hold⟩ := h.scanned (position + byteSize gap + byteSize new)
  exact ⟨_, .script (hcalmer.silent hgap) hnew hscanned,
    List.forall_mem_cons.2 ⟨hremains _, fun t' ht' => (hold t' ht').cons t⟩⟩

/-- A link tag that stays. -/
theorem Rescanned.link {attributes : List Char} (h : Rescanned left ts result s)
    (hgap : Silent gap (own ++ s)) (hread : readLink? (own ++ s) = some (attributes, s))
    (hinside : ∀ y, y <:+ own → y ≠ [] → readScript? (y ++ s) = none)
    (hremains : ∀ start, Remains left (t :: ts) (linkTag start own attributes)) :
    Rescanned left (t :: ts) (gap ++ own ++ result) (gap ++ own ++ s) := by
  have hnew := readLink?_append hread result
  have hopen := open_of_readLink? (Option.isSome_of_mem hread)
  have hopen' := open_of_readLink? (Option.isSome_of_mem hnew)
  have hown : Calmer own result s := h.calmer.behind_marked (marked_of_readLink? hread).2
  have hcalmer : Calmer gap (own ++ result) (own ++ s) :=
    hown.whole.before_open hopen'.1 hopen.1 hopen.2
  refine ⟨by simpa using hcalmer.whole, fun position => ?_⟩
  obtain ⟨ts', hscanned, hold⟩ := h.scanned (position + byteSize gap + byteSize own)
  refine ⟨_, .link (hcalmer.silent hgap) hnew ?_ hscanned,
    List.forall_mem_cons.2 ⟨hremains _, fun t' ht' => (hold t' ht').cons t⟩⟩
  intro y hy hne
  by_contra hsome
  have hsome' := hown.isSome_readScript? hy hne (Option.isSome_iff_ne_none.2 hsome)
  rw [hinside y hy hne] at hsome'
  cases hsome'

/-- An inert text in the place of a link tag. -/
theorem Rescanned.inert {attributes : List Char} (h : Rescanned left ts result s)
    (hgap : Silent gap (own ++ s)) (hread : readLink? (own ++ s) = some (attributes, s))
    (hopen : new.head? = some '<') (hnew : Marked new) (hinert : Inert new) :
    Rescanned left (t :: ts) (gap ++ new ++ result) (gap ++ own ++ s) := by
  have hne : new ≠ [] := by
    rintro rfl
    cases hopen
  have hopen' := open_of_readLink? (Option.isSome_of_mem hread)
  have hhead : (new ++ result).head? = some '<' := by rw [List.head?_append, hopen, Option.some_or]
  have hcalmer : Calmer gap (new ++ result) (own ++ s) :=
    (hinert.calmer hne hnew hread h.calmer).before_open hhead hopen'.1 hopen'.2
  refine h.prepend ((hcalmer.silent hgap).append (hinert.silent hnew)) ?_
  simpa using hcalmer.whole

/-- Nothing in the place of a link tag. -/
theorem Rescanned.gone {attributes : List Char} (h : Rescanned left ts result s)
    (hgap : Silent gap (own ++ s)) (hread : readLink? (own ++ s) = some (attributes, s))
    (hclear : ∀ y, y <:+ gap → ¬ Unfinished y) :
    Rescanned left (t :: ts) (gap ++ [] ++ result) (gap ++ own ++ s) := by
  have hcalmer := calmer_of_gone hclear hread h.calmer
  rw [List.append_nil]
  refine h.prepend (hcalmer.silent hgap) ?_
  simpa using hcalmer.whole

/-- **Scanning a rewritten page** finds only tags like those that stayed, and script elements without a
`src`. -/
theorem rescanned_of_rewritten {front : List Char} (hscan : Scanned (byteSize front) s ts)
    (h : Rewritten (Swap left page) (byteSize front) ts s result) (hpage : page = front ++ s) :
    Rescanned left ts result s := by
  generalize hp : byteSize front = position at hscan h
  induction h generalizing front with
  | rest s =>
      refine ⟨⟨fun _ _ _ _ _ => id, fun _ _ _ => id, id, id⟩, fun position => ?_⟩
      cases hscan with
      | rest hs => exact ⟨[], .rest hs, by simp⟩
  | @tag position t ts gap own new s result hstart hstop hswap h ih =>
      obtain ⟨hgap, htaken, hrest⟩ := hscan.uncons hstart hstop
      have hend : byteSize (front ++ gap ++ own) = t.stop := by
        rw [byteSize_append, byteSize_append, hp, ← hstart, ← hstop]
      have ih := ih (by simpa using hpage) hend hrest
      cases htaken with
      | @script element ht hread =>
          cases hswap with
          | left hleft =>
              refine ih.script hgap (Option.isSome_of_mem hread) (readScript?_append hread result) fun start =>
                .inr ⟨t, List.mem_cons_self, hleft, ?_, ?_⟩
              · rw [ht]
                rfl
              · rw [ht]
                rfl
          | script hk hsrc hnew =>
              exact ih.script hgap (Option.isSome_of_mem hread) (hnew result) fun start => .inl ⟨rfl, hsrc⟩
          | inert hk =>
              rw [ht] at hk
              cases hk
          | gone hk =>
              rw [ht] at hk
              cases hk
      | @link attributes ht hread hinside =>
          cases hswap with
          | left hleft =>
              refine ih.link hgap hread hinside fun start => .inr ⟨t, List.mem_cons_self, hleft, ?_, ?_⟩
              · rw [ht]
                rfl
              · rw [ht]
                rfl
          | script hk =>
              rw [ht] at hk
              cases hk
          | inert hk hopen hnew hinert => exact ih.inert hgap hread hopen hnew hinert
          | gone hk hclear =>
              refine ih.gone hgap hread fun y hy => ?_
              refine hclear (front ++ gap) (own ++ s) (by simpa using hpage) ?_ y
                (hy.trans (List.suffix_append _ _))
              rw [byteSize_append, hp, hstart]

end Pagefold.Page
