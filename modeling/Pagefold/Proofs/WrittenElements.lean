import Pagefold.Proofs.Elements
import Pagefold.Proofs.Scanning

/-! # A script element is a page with one tag

Guarding puts a backslash behind the `<` of each closing tag and leaves all other characters as they
are (`Guarded`); there is one way to do so (`guarded_iff`).  A page that is nothing but a written script
element has one tag: the element from end to end, with the attributes that it keeps and the guarded code
in its body; and whatever text follows, this is the first script element that is found
(`scriptElement_read_back`). -/

namespace Pagefold

open Text

namespace Text

variable {word name s a guarded : List Char} {c : Char}

/-! ### Guarded texts -/

/-- A closing tag of the element `word` begins at the front of a text. -/
def BeginsClosing (word s : List Char) : Prop :=
  ∃ name rest, Spells word name ∧ s = '<' :: '/' :: name ++ rest

/-- `guarded` is `s` with a backslash behind the `<` of each `</word`.  The letters of `word` may be of
any case, and stay as they are. -/
inductive Guarded (word : List Char) : (s guarded : List Char) → Prop
  | nil : Guarded word [] []
  | closing {name s guarded : List Char} (hname : Spells word name) (h : Guarded word s guarded) :
      Guarded word ('<' :: '/' :: name ++ s) ('<' :: '\\' :: '/' :: name ++ guarded)
  | other {c : Char} {s guarded : List Char} (hc : ¬ BeginsClosing word (c :: s))
      (h : Guarded word s guarded) : Guarded word (c :: s) (c :: guarded)

theorem guardClosing_of_closing (hname : Spells word name) : guardClosing word ('<' :: '/' :: name ++ s)
    = '<' :: '\\' :: guardClosing word ('/' :: name ++ s) := by
  have hdrop : dropCaseless? word (name ++ s) = some s := dropCaseless?_eq_some_iff.2 ⟨name, hname, rfl⟩
  rw [List.cons_append, List.cons_append, guardClosing, guardClosingFrom, if_pos (by simp [hdrop]),
    Page.guardClosingFrom_eq]
  rfl

theorem guardClosing_of_not_closing (h : ¬ BeginsClosing word (c :: s)) :
    guardClosing word (c :: s) = c :: guardClosing word s := by
  have hnot : ¬ (c == '<' && s.head? == some '/' && (dropCaseless? word s.tail).isSome) = true := by
    simp only [Bool.and_eq_true, beq_iff_eq]
    rintro ⟨⟨rfl, hslash⟩, hdrop⟩
    obtain ⟨rest, hrest⟩ := Option.isSome_iff_exists.1 hdrop
    obtain ⟨name, hname, htail⟩ := dropCaseless?_eq_some_iff.1 hrest
    obtain ⟨s, rfl⟩ := List.head?_eq_some_iff.1 hslash
    exact h ⟨name, rest, hname, congrArg (fun l => '<' :: '/' :: l) htail⟩
  rw [guardClosing, guardClosingFrom, if_neg hnot, Page.guardClosingFrom_eq]
  rfl

/-- A text without a `<` is passed over as it is. -/
theorem guardClosing_append (ha : '<' ∉ a) :
    guardClosing word (a ++ s) = a ++ guardClosing word s := by
  induction a with
  | nil => rfl
  | cons c a ih =>
      rw [List.mem_cons, not_or] at ha
      have hnot : ¬ BeginsClosing word (c :: (a ++ s)) := by
        rintro ⟨name, rest, _, heq⟩
        exact ha.1 (List.cons.inj heq).1.symm
      rw [List.cons_append, guardClosing_of_not_closing hnot, ih ha.2, List.cons_append]

theorem guarded_guardClosing (hw : IsPlain word) (s : List Char) :
    Guarded word s (guardClosing word s) := by
  induction hn : s.length using Nat.strong_induction_on generalizing s with
  | _ n ih =>
      subst hn
      by_cases hbegins : BeginsClosing word s
      · obtain ⟨name, rest, hname, rfl⟩ := hbegins
        have hopen : '<' ∉ '/' :: name := by simp [(hname.not_mem hw).1]
        rw [guardClosing_of_closing hname, guardClosing_append hopen]
        exact .closing hname (ih rest.length (by simp; omega) rest rfl)
      · cases s with
        | nil => exact .nil
        | cons c s =>
            rw [guardClosing_of_not_closing hbegins]
            exact .other hbegins (ih s.length (by simp) s rfl)

/-- **There is one guarded text.** -/
theorem guarded_iff (hw : IsPlain word) : Guarded word s guarded ↔ guarded = guardClosing word s := by
  constructor
  · intro h
    induction h with
    | nil => rfl
    | @closing name s guarded hname _ ih =>
        have hopen : '<' ∉ '/' :: name := by simp [(hname.not_mem hw).1]
        rw [guardClosing_of_closing hname, guardClosing_append hopen, ih, List.cons_append,
          List.cons_append]
    | other hc _ ih => rw [guardClosing_of_not_closing hc, ih]
  · rintro rfl
    exact guarded_guardClosing hw s

end Text

namespace Page

variable {page : String} {t : Tag}

/-! ### The tags of a script element -/

/-- The tag that is found where a script element is written. -/
def writtenTag (t : Tag) (code : String) (cdata : Bool) : Tag where
  kind := .script
  start := 0
  stop := (scriptElement t code cdata).utf8ByteSize
  attributes := (keptAttributes t).map Attribute.written
  body := elementBody code cdata

theorem scriptTag_scriptElement (ht : ∀ a ∈ t.attributes, a.IsProper) (code : String) (cdata : Bool) :
    scriptTag 0 (scriptElement t code cdata).toList
      ((keptAttributes t).flatMap fun a => a.text.toList, (elementBody code cdata).toList)
      = writtenTag t code cdata := by
  rw [scriptTag, writtenTag, attributesOf_keptAttributes ht, byteSize_toList, Nat.zero_add,
    String.ofList_toList]

theorem toList_scriptElement_ne_nil (t : Tag) (code : String) (cdata : Bool) :
    (scriptElement t code cdata).toList ≠ [] := by
  rw [toList_scriptElement]
  simp

/-- One pass over a script element takes it off as a whole. -/
theorem scanned_scriptElement (ht : ∀ a ∈ t.attributes, a.IsProper) (code : String) (cdata : Bool) :
    Scanned 0 (scriptElement t code cdata).toList [writtenTag t code cdata] := by
  have hnothing : ∀ s, Silent [] s := fun s y hy hne => absurd (List.suffix_nil.1 hy) hne
  have hscan := @Scanned.script 0 [] _ [] _ [] (hnothing _) (readScript?_scriptElement ht code cdata [])
    (.rest (hnothing []))
  rwa [byteSize_nil, Nat.add_zero, List.nil_append, List.append_nil,
    scriptTag_scriptElement ht] at hscan

/-- Whatever follows a script element, it is the first one that is found. -/
theorem head?_scriptTags_scriptElement (ht : ∀ a ∈ t.attributes, a.IsProper) (code : String) (cdata : Bool)
    (behind : List Char) : (scriptTags ((scriptElement t code cdata).toList ++ behind)).head?
      = some (writtenTag t code cdata) := by
  rw [scriptTags, occurrences, occurrencesFrom_of_some (toList_scriptElement_ne_nil t code cdata)
    (readScript?_scriptElement ht code cdata behind), List.map_cons, List.head?_cons, Nat.zero_add,
    ← scriptTag_scriptElement ht, scriptTag, Nat.zero_add]

/-- **A script element is read back.**  The script element that is written for a tag of a page is a page
with one tag.  It reaches from end to end; its attributes are those of the tag in their order, without the
ones about loading and with the values as they are written; and its body is the guarded code, between the
lines of a section if that is asked for.  Nothing in the code ends the element: whatever text stands behind
it, the first script element that is found is this one. -/
theorem scriptElement_read_back (h : t ∈ tags page) (code : String) (cdata : Bool) :
    ∃ (guarded : String) (element : Tag), Guarded scriptName code.toList guarded.toList ∧
      element = {
        kind := .script
        start := 0
        stop := (scriptElement t code cdata).utf8ByteSize
        attributes := (t.attributes.filter fun a => a.name ∉ ["src", "crossorigin", "integrity"]).map
          Attribute.written
        body := if cdata then "//<![CDATA[\n" ++ guarded ++ "\n//]]>" else guarded } ∧
      tags (scriptElement t code cdata) = [element] ∧
      ∀ behind, (scriptTags ((scriptElement t code cdata).toList ++ behind)).head? = some element := by
  have ht : ∀ a ∈ t.attributes, a.IsProper := fun a ha => isProper_of_mem_tags h ha
  have hguarded : Guarded scriptName code.toList (guardScript code).toList := by
    rw [guardScript, String.toList_ofList]
    exact guarded_guardClosing isPlain_scriptName code.toList
  refine ⟨guardScript code, writtenTag t code cdata, hguarded, ?_,
    (scanned_scriptElement ht code cdata).tags_eq, head?_scriptTags_scriptElement ht code cdata⟩
  have hkept : keptAttributes t
      = t.attributes.filter fun a => a.name ∉ ["src", "crossorigin", "integrity"] := by
    refine List.filter_congr fun a _ => ?_
    simp [loadingAttributes]
  rw [writtenTag, elementBody, hkept]

/-- A page with one script element, and quotes and a link tag in the value of an attribute. -/
def quotingPage : String := "<p><script src=a.js defer data-x='\"<link \"'></script>"

def quotingTag : Tag :=
  ⟨.script, 3, 53, [⟨"src", some "a.js"⟩, ⟨"defer", none⟩, ⟨"data-x", some "\"<link \""⟩], ""⟩

theorem quotingTag_read_back : quotingTag ∈ tags quotingPage ∧
    tags (scriptElement quotingTag "end=\"</SCRIPT>\"" true) = [{
      kind := .script
      start := 0
      stop := 85
      attributes := [⟨"defer", none⟩, ⟨"data-x", some "&quot;<link &quot;"⟩]
      body := "//<![CDATA[\nend=\"<\\/SCRIPT>\"\n//]]>" }] := by
  have hmem : quotingTag ∈ tags quotingPage := by
    rw [@tags_eq_of_perm quotingPage [quotingTag] (by decide +kernel) (by decide +kernel)]
    exact List.mem_cons_self
  obtain ⟨guarded, element, hguarded, rfl, htags, _⟩ :=
    scriptElement_read_back hmem "end=\"</SCRIPT>\"" true
  have hsame : guarded = "end=\"<\\/SCRIPT>\"" := by
    rw [← String.toList_inj, (guarded_iff isPlain_scriptName).1 hguarded]
    decide +kernel
  refine ⟨hmem, ?_⟩
  rw [htags, hsame]
  decide +kernel

end Page

end Pagefold
