import Pagefold.Proofs.Scanning

/-! # Where the name of a tag ends

The name of a tag that is found is followed by a character that makes up no words
(`exists_followsName`); this need not be a character that ends a name in markup, so a custom element
such as `<link-card>` counts as well.  A search from left to right misses no place where something can
be read, unless what was found before covers the place (`mem_or_covered`).  So a `<link` up to a `>`, or a
`<script` up to the first closing tag, that no tag before it covers is a tag exactly when no word
character stands behind its name (`tag_names`). -/

namespace Pagefold

open Text

namespace Text

variable {α : Type} {read : List Char → Option (α × List Char)} {s front own : List Char} {position : Nat}
  {value : α}

/-- **A search misses nothing** that can be read, but for what lies behind the start and before the end of
an instance that it has found. -/
theorem mem_or_covered (hread : Consumes read) (h : read (own ++ s) = some (value, s)) :
    ⟨position + byteSize front, position + byteSize front + byteSize own, value⟩
        ∈ occurrencesFrom read position (front ++ own ++ s) ∨
      ∃ o ∈ occurrencesFrom read position (front ++ own ++ s),
        o.start < position + byteSize front ∧ position + byteSize front < o.stop := by
  induction hn : front.length using Nat.strong_induction_on generalizing front position with
  | _ n ih =>
      subst hn
      cases front with
      | nil =>
          left
          rw [List.nil_append, occurrencesFrom_of_some (hread.ne_nil h) h]
          exact List.mem_cons_self
      | cons c front =>
          have hpos := Char.utf8Size_pos c
          cases hc : read (c :: front ++ own ++ s) with
          | none =>
              have hskip : occurrencesFrom read position (c :: front ++ own ++ s)
                  = occurrencesFrom read (position + c.utf8Size) (front ++ own ++ s) :=
                occurrencesFrom_of_none hc
              rw [hskip, byteSize_cons, ← Nat.add_assoc]
              exact ih front.length (by simp) rfl
          | some found =>
              obtain ⟨value', rest⟩ := found
              obtain ⟨taken, htaken, hsplit⟩ := hread _ _ _ hc
              rw [hsplit] at hc
              rw [hsplit, occurrencesFrom_of_some htaken hc]
              rcases Nat.lt_or_ge (byteSize (c :: front)) (byteSize taken) with hlt | hge
              · right
                refine ⟨_, List.mem_cons_self, ?_, ?_⟩
                · rw [byteSize_cons]
                  dsimp only
                  omega
                · exact Nat.add_lt_add_left hlt position
              · -- What was found ends in front of the place, and the search goes on behind it.
                rw [List.append_assoc] at hsplit
                obtain ⟨gap, hgap, rfl⟩ := exists_gap_of_byteSize_le hsplit.symm hge
                have hlen := congrArg List.length hgap
                have htakenLen := List.length_pos_of_ne_nil htaken
                rw [List.length_append] at hlen
                have hih := @ih gap.length (by omega) gap (position + byteSize taken) rfl
                rw [hgap, byteSize_append, ← Nat.add_assoc]
                rw [List.append_assoc] at hih
                rcases hih with hmem | ⟨o, ho, hcovers⟩
                · exact .inl (List.mem_cons_of_mem _ hmem)
                · exact .inr ⟨o, List.mem_cons_of_mem _ ho, hcovers⟩

end Text

namespace Page

variable {page : String} {t : Tag} {kind : TagKind} {front own s name inner attributes : List Char}
  {start : Nat} {c d : Char}

/-! ### Names and what follows them -/

/-- The name of a kind of tags, in lower case. -/
def TagKind.elementName : TagKind → List Char
  | .script => scriptName
  | .link => linkName

/-- In a page the name of a kind of tags stands behind a `<` at `start`, and `c` stands right behind it. -/
def FollowsName (page : List Char) (kind : TagKind) (start : Nat) (c : Char) : Prop :=
  ∃ front name rest, page = front ++ '<' :: name ++ c :: rest ∧ byteSize front = start ∧
    Spells kind.elementName name

/-- The characters that end the name of a tag in markup. -/
def endsName (c : Char) : Bool := isBlank c || c == '/' || c == '>'

/-- One character stands right behind a name. -/
theorem FollowsName.unique {page : List Char} (hc : FollowsName page kind start c)
    (hd : FollowsName page kind start d) : c = d := by
  obtain ⟨front, name, rest, rfl, hstart, hname⟩ := hc
  obtain ⟨front', name', rest', hpage, hstart', hname'⟩ := hd
  rw [List.append_assoc, List.append_assoc] at hpage
  have hbehind := (append_inj_of_byteSize hpage (hstart.trans hstart'.symm)).2
  have hlength : name.length = name'.length := hname.length_eq.symm.trans hname'.length_eq
  have hrest := (List.append_inj (List.cons.inj hbehind).2 hlength).2
  exact (List.cons.inj hrest).1

/-- Behind the name in an opening tag there is a character that makes up no words. -/
theorem exists_of_openingTag? {word r : List Char} (h : openingTag? word s = some (attributes, r)) :
    ∃ name c rest, Spells word name ∧ isWordChar c = false ∧ s = '<' :: name ++ c :: rest := by
  obtain ⟨name, hname, _, hword, rfl⟩ := openingTag?_eq_some_iff.1 h
  cases attributes with
  | nil => exact ⟨name, '>', r, hname, by decide, by simp⟩
  | cons c attributes => exact ⟨name, c, attributes ++ '>' :: r, hname, by simpa using hword, by simp⟩

/-- **The name of a tag** that is found ends where a character follows that makes up no words. -/
theorem exists_followsName (h : t ∈ tags page) :
    ∃ c, FollowsName page.toList t.kind t.start c ∧ isWordChar c = false := by
  have hfollows : ∀ {kind front own attributes back r}, page.toList = front ++ own ++ back →
      openingTag? kind.elementName (own ++ back) = some (attributes, r) →
      ∃ c, FollowsName page.toList kind (0 + byteSize front) c ∧ isWordChar c = false := by
    intro kind front own attributes back r hpage hopen
    obtain ⟨name, c, rest, hname, hword, hsplit⟩ := exists_of_openingTag? hopen
    refine ⟨c, ⟨front, name, rest, ?_, (Nat.zero_add _).symm, hname⟩, hword⟩
    rw [hpage, List.append_assoc, hsplit, List.append_assoc]
  rcases List.mem_append.1 ((tags_perm page).subset h) with h | h
  · obtain ⟨o, ho, rfl⟩ := List.mem_map.1 h
    have hfound : Found readScript? 0 page.toList o :=
      found_of_mem_occurrencesFrom (fun _ _ _ => suffix_of_readScript?) ho
    obtain ⟨front, own, back, hpage, _, hstart, _, hread⟩ := hfound
    obtain ⟨_, hopen, _⟩ := readScript?_eq_some_iff.1 hread
    exact hstart ▸ @hfollows .script _ _ _ _ _ hpage hopen
  · obtain ⟨o, ho, rfl⟩ := List.mem_map.1 (List.mem_filter.1 h).1
    have hfound : Found readLink? 0 page.toList o :=
      found_of_mem_occurrencesFrom (fun _ _ _ => suffix_of_readLink?) ho
    obtain ⟨front, own, back, hpage, _, hstart, _, hread⟩ := hfound
    exact hstart ▸ @hfollows .link _ _ _ _ _ hpage hread

/-! ### Which openings are tags -/

/-- No tag of a page starts before `position` and ends behind it. -/
def Uncovered (page : String) (position : Nat) : Prop :=
  ∀ t ∈ tags page, t.start < position → t.stop ≤ position

instance : Decidable (Uncovered page start) := List.decidableBAll _ _

theorem mem_tags_of_mem_scripts (h : t ∈ scriptTags page.toList) : t ∈ tags page :=
  (tags_perm page).symm.subset (List.mem_append_left _ h)

/-- A script element that can be read is a tag, unless a tag before it covers its start. -/
theorem scriptTag_mem_tags {element : List Char × List Char} (hpage : page.toList = front ++ own ++ s)
    (hread : readScript? (own ++ s) = some (element, s)) (h : Uncovered page (byteSize front)) :
    scriptTag (byteSize front) own element ∈ tags page := by
  have hfound := @mem_or_covered _ readScript? s front own 0 element consumes_readScript? hread
  rw [← hpage, Nat.zero_add] at hfound
  rcases hfound with hmem | ⟨o, ho, hstart, hstop⟩
  · exact mem_tags_of_mem_scripts (List.mem_map.2 ⟨_, hmem, rfl⟩)
  · have hle := h _ (mem_tags_of_mem_scripts (List.mem_map.2 ⟨o, ho, rfl⟩)) hstart
    exact absurd hstop (Nat.not_lt.2 hle)

/-- A link tag is a tag of its page, or it lies in a script element. -/
theorem mem_tags_or_within (h : t ∈ linkTags page.toList) :
    t ∈ tags page ∨ ∃ u ∈ scriptTags page.toList, u.start ≤ t.start ∧ t.stop ≤ u.stop := by
  by_cases hin : (scriptTags page.toList).any t.within = true
  · obtain ⟨u, hu, hwithin⟩ := List.any_eq_true.1 hin
    exact .inr ⟨u, hu, Tag.within_iff.1 hwithin⟩
  · refine .inl ((tags_perm page).symm.subset (List.mem_append_right _ (List.mem_filter.2 ⟨h, ?_⟩)))
    simpa using hin

/-- A link tag that can be read is a tag, unless a tag before it covers its start. -/
theorem linkTag_mem_tags (hpage : page.toList = front ++ own ++ s)
    (hread : readLink? (own ++ s) = some (attributes, s)) (h : Uncovered page (byteSize front)) :
    linkTag (byteSize front) own attributes ∈ tags page := by
  -- A script element that holds the link tag starts before it, for both cannot start at one place.
  have hbefore : ∀ u ∈ scriptTags page.toList, u.start ≤ byteSize front → u.stop ≤ byteSize front := by
    intro u hu hle
    refine h u (mem_tags_of_mem_scripts hu) (Nat.lt_of_le_of_ne hle fun hstart => ?_)
    obtain ⟨o, ho, rfl⟩ := List.mem_map.1 hu
    have hfound : Found readScript? 0 page.toList o :=
      found_of_mem_occurrencesFrom (fun _ _ _ => suffix_of_readScript?) ho
    obtain ⟨front', own', back', hpage', _, hstart', _, hread'⟩ := hfound
    rw [hpage, List.append_assoc, List.append_assoc] at hpage'
    have hsame := (append_inj_of_byteSize hpage' (by dsimp only at hstart; omega)).2
    rw [← hsame] at hread'
    exact not_script_and_link (isSome_readScript?.1 (Option.isSome_of_mem hread')).1
      (Option.isSome_of_mem hread)
  have hfound := @mem_or_covered _ readLink? s front own 0 attributes consumes_readLink? hread
  have hpos := byteSize_pos (consumes_readLink?.ne_nil hread)
  rw [← hpage, Nat.zero_add] at hfound
  rcases hfound with hmem | ⟨o, ho, hstart, hstop⟩
  · have hlink : linkTag (byteSize front) own attributes ∈ linkTags page.toList :=
      List.mem_map.2 ⟨_, hmem, rfl⟩
    rcases mem_tags_or_within hlink with hin | ⟨u, hu, hle, hend⟩
    · exact hin
    · have hout := hbefore u hu hle
      rw [linkTag] at hend
      dsimp only at hend
      omega
  · have hlink : ⟨.link, o.start, o.stop, attributesOf o.value, ""⟩ ∈ linkTags page.toList :=
      List.mem_map.2 ⟨o, ho, rfl⟩
    rcases mem_tags_or_within hlink with hin | ⟨u, hu, hle, hend⟩
    · have hout := h _ hin hstart
      dsimp only at hout
      omega
    · have hout := hbefore u hu (by dsimp only at hle; omega)
      dsimp only at hend
      omega

theorem not_word_of_mem_tags {back : List Char} (h : t ∈ tags page)
    (hpage : page.toList = front ++ '<' :: name ++ inner ++ '>' :: back)
    (hstart : byteSize front = t.start) (hname : Spells t.kind.elementName name) :
    inner.head?.any isWordChar = false := by
  obtain ⟨c, hfollows, hword⟩ := exists_followsName h
  cases inner with
  | nil => rfl
  | cons d inner =>
      have hnext : FollowsName page.toList t.kind t.start d :=
        ⟨front, name, inner ++ '>' :: back, by simpa using hpage, hstart, hname⟩
      rw [← hfollows.unique hnext]
      simpa using hword

/-- **The names of tags.**  Behind the name of each tag of a page stands a character that makes up no words.
Whatever character it is, a `<link` with a `>` behind it is a link tag, and a `<script` with a closing tag
behind it is a script element up to the first one, unless a tag before it covers its start; and they are
not when a word character stands there. -/
theorem tag_names (page : String) :
    (∀ t ∈ tags page, ∃ c, FollowsName page.toList t.kind t.start c ∧ isWordChar c = false) ∧
    (∀ front name inner back, page.toList = front ++ ('<' :: name ++ inner ++ ['>']) ++ back →
      Spells linkName name → '>' ∉ inner → Uncovered page (byteSize front) →
      (linkTag (byteSize front) ('<' :: name ++ inner ++ ['>']) inner ∈ tags page ↔
        inner.head?.any isWordChar = false)) ∧
    ∀ front name inner rest body back, page.toList = front ++ ('<' :: name ++ inner ++ '>' :: rest) ++ back →
      Spells scriptName name → '>' ∉ inner → untilClosing? scriptName [] (rest ++ back) = some (body, back) →
      Uncovered page (byteSize front) →
      (scriptTag (byteSize front) ('<' :: name ++ inner ++ '>' :: rest) (inner, body) ∈ tags page ↔
        inner.head?.any isWordChar = false) := by
  refine ⟨fun t => exists_followsName, ?_, ?_⟩
  · intro front name inner back hpage hname hinner hclear
    constructor
    · intro h
      exact not_word_of_mem_tags h (by simpa using hpage) rfl hname
    · intro hword
      exact linkTag_mem_tags hpage (openingTag?_eq_some_iff.2 ⟨name, hname, hinner, hword, by simp⟩) hclear
  · intro front name inner rest body back hpage hname hinner hbody hclear
    constructor
    · intro h
      exact not_word_of_mem_tags h (by simpa using hpage) rfl hname
    · intro hword
      refine scriptTag_mem_tags hpage (readScript?_eq_some_iff.2 ⟨rest ++ back, ?_, hbody⟩) hclear
      exact openingTag?_eq_some_iff.2 ⟨name, hname, hinner, hword, by simp⟩

/-- A page with two custom elements, whose names begin like those of tags, and a script element. -/
def customPage : String :=
  "<link-card href=a></link-card><script-loader></script-loader><p></p><script src=a.js></script>"

/-- The first custom element is a link tag, and the second one a script element that reaches up to the end
of the page. -/
theorem tags_customPage : tags customPage = [⟨.link, 0, 18, [⟨"-card", none⟩, ⟨"href", some "a"⟩], ""⟩,
    ⟨.script, 30, 94, [⟨"-loader", none⟩], "</script-loader><p></p><script src=a.js>"⟩] :=
  tags_eq_of_perm (by decide +kernel) (by decide +kernel)

theorem customPage_names :
    customPage.toList = [] ++ ('<' :: linkName ++ "-card href=a".toList ++ ['>'])
      ++ "</link-card><script-loader></script-loader><p></p><script src=a.js></script>".toList ∧
    Spells linkName linkName ∧ '>' ∉ "-card href=a".toList ∧ Uncovered customPage (byteSize []) ∧
    linkTag 0 "<link-card href=a>".toList "-card href=a".toList ∈ tags customPage := by
  have hpage : customPage.toList = [] ++ ('<' :: linkName ++ "-card href=a".toList ++ ['>'])
      ++ "</link-card><script-loader></script-loader><p></p><script src=a.js></script>".toList := by
    decide +kernel
  have hname : Spells linkName linkName := spells_self linkName
  have hinner : '>' ∉ "-card href=a".toList := by decide +kernel
  have hclear : Uncovered customPage (byteSize []) := fun t _ h => absurd h (Nat.not_lt_zero _)
  refine ⟨hpage, hname, hinner, hclear, ?_⟩
  have hown : "<link-card href=a>".toList = '<' :: linkName ++ "-card href=a".toList ++ ['>'] := by decide +kernel
  rw [hown]
  exact ((tag_names customPage).2.1 [] linkName _ _ hpage hname hinner hclear).2 (by decide +kernel)

/-- The name of a custom element is taken for that of a tag. -/
theorem customElements_scanned :
    ∃ t ∈ tags customPage, ∃ u ∈ tags customPage, t.kind = .link ∧ u.kind = .script ∧
      FollowsName customPage.toList .link t.start '-' ∧ FollowsName customPage.toList .script u.start '-' ∧
      endsName '-' = false := by
  rw [tags_customPage]
  refine ⟨_, List.mem_cons_self, _, List.mem_cons_of_mem _ List.mem_cons_self, rfl, rfl, ?_, ?_, by decide⟩
  · exact ⟨[], linkName, customPage.toList.drop 6, by decide +kernel, rfl, spells_self linkName⟩
  · exact ⟨customPage.toList.take 30, scriptName, customPage.toList.drop 38, by decide +kernel, by decide +kernel,
      spells_self scriptName⟩

end Page

end Pagefold
