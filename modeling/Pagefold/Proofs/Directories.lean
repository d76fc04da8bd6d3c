import Pagefold.Proofs.Dictionary
import Pagefold.Proofs.Trees
import Pagefold.Proofs.Utf8

/-! # Trees as a disk holds them

On a disk each entry has a name that an entry can have and stands in a directory, and the current directory
is there (`FileTree.WellFormed`).  The names of strays are bytes that a name can be, and read as text they are
steps of a path all the same (`IsRawName.isPlainName`).  So above what stands somewhere there are directories
only (`WellFormed.directory_above`), and a reduced path to it can be followed, unless it has too many bytes
(`WellFormed.locate_ofSteps`).

What can be followed stays so as long as directories stay.  `OpensOnly` says that from one tree to another
they do, and at which places new ones may have appeared; together with `AltersOnly` it tells where the
trees do not differ at all (`get?_of_altersOnly`). -/

namespace Pagefold

open Pagefold.Path Pagefold.Text

/-- A text by which a path goes one step down. -/
structure IsPlainName (step : String) : Prop where
  isName : IsName step.toList
  no_nul : '\x00' ∉ step.toList

/-- A name that an entry of a directory can have. -/
structure IsEntryName (step : String) : Prop extends IsPlainName step where
  fits : step.utf8ByteSize ≤ FileTree.nameLimit

/-- Bytes that can be the name of an entry of a directory. -/
structure IsRawName (step : List UInt8) : Prop where
  ne_nil : step ≠ []
  ne_dot : step ≠ [0x2E]
  ne_up : step ≠ [0x2E, 0x2E]
  no_slash : 0x2F ∉ step
  no_nul : 0x00 ∉ step
  fits : step.length ≤ FileTree.nameLimit

namespace Path

instance {step : List Char} : Decidable (IsName step) :=
  decidable_of_iff (step ≠ [] ∧ step ≠ ['.'] ∧ '/' ∉ step ∧ step ≠ up)
    ⟨fun ⟨hne, hdot, hslash, hup⟩ => ⟨⟨hne, hdot, hslash⟩, hup⟩,
      fun h => ⟨h.ne_nil, h.ne_dot, h.no_slash, h.ne_up⟩⟩

end Path

instance {step : String} : Decidable (IsEntryName step) :=
  decidable_of_iff (IsName step.toList ∧ '\x00' ∉ step.toList ∧ step.utf8ByteSize ≤ FileTree.nameLimit)
    ⟨fun ⟨hname, hnul, hfits⟩ => ⟨⟨hname, hnul⟩, hfits⟩, fun h => ⟨h.isName, h.no_nul, h.fits⟩⟩

instance {step : List UInt8} : Decidable (IsRawName step) :=
  decidable_of_iff (step ≠ [] ∧ step ≠ [0x2E] ∧ step ≠ [0x2E, 0x2E] ∧ 0x2F ∉ step ∧ 0x00 ∉ step ∧
      step.length ≤ FileTree.nameLimit)
    ⟨fun ⟨hne, hdot, hup, hslash, hnul, hfits⟩ => ⟨hne, hdot, hup, hslash, hnul, hfits⟩,
      fun h => ⟨h.ne_nil, h.ne_dot, h.ne_up, h.no_slash, h.no_nul, h.fits⟩⟩

/-- **The name of an entry as text** goes one step down, too. -/
theorem IsRawName.isPlainName {step : List UInt8} (h : IsRawName step) :
    IsPlainName (String.ofList (lossy step)) := by
  have hdots : ∀ s : List Char, '\uFFFD' ∉ s → lossy step = s → step = utf8 s := by
    rintro s hs rfl
    exact (utf8_lossy hs).symm
  constructor
  · rw [String.toList_ofList]
    exact ⟨⟨lossy_ne_nil h.ne_nil, fun he => h.ne_dot (hdots _ (by decide) he),
      fun hmem => h.no_slash (toUInt8_mem_of_mem_lossy (by decide) hmem)⟩,
      fun he => h.ne_up (hdots _ (by decide) he)⟩
  · rw [String.toList_ofList]
    exact fun hmem => h.no_nul (toUInt8_mem_of_mem_lossy (by decide) hmem)

namespace FileTree

variable {t t' t'' : FileTree} {P Q : Place → Prop} {place p : Place} {entry : FileEntry} {path step : String}
  {bytes : ByteArray} {l : List (List Char)} {rooted : Bool}

/-- A tree as a disk holds it. -/
structure WellFormed (t : FileTree) : Prop where
  once : (t.entries.map (·.1)).Nodup
  named : ∀ e ∈ t.entries, e.1 ≠ [] ∧ ∀ step ∈ e.1, IsEntryName step
  held : ∀ e ∈ t.entries, t.get? e.1.dropLast = some .directory
  current : t.get? t.current = some .directory
  strays : ∀ e ∈ t.strays, ∀ step ∈ e.1, IsRawName step

instance : Decidable t.WellFormed :=
  decidable_of_iff ((t.entries.map (·.1)).Nodup ∧ (∀ e ∈ t.entries, e.1 ≠ [] ∧ ∀ step ∈ e.1, IsEntryName step) ∧
      (∀ e ∈ t.entries, t.get? e.1.dropLast = some .directory) ∧ t.get? t.current = some .directory ∧
      ∀ e ∈ t.strays, ∀ step ∈ e.1, IsRawName step)
    ⟨fun ⟨honce, hnamed, hheld, hcurrent, hstrays⟩ => ⟨honce, hnamed, hheld, hcurrent, hstrays⟩,
      fun h => ⟨h.once, h.named, h.held, h.current, h.strays⟩⟩

/-! ### Entries -/

theorem get?_eq_some_iff (h : (t.entries.map (·.1)).Nodup) (hplace : place ≠ []) :
    t.get? place = some entry ↔ (place, entry) ∈ t.entries := by
  unfold get?
  rw [if_neg (by simpa using hplace)]
  exact Dictionary.lookup_eq_some_iff_mem h

theorem relative?_eq_some_iff {α : Type} [BEq α] [LawfulBEq α] {place p steps : List α} :
    relative? place p = some steps ↔ p = place ++ steps := by
  induction place generalizing p with
  | nil => simp [relative?, eq_comm]
  | cons first place ih =>
      cases p with
      | nil => simp [relative?]
      | cons step p =>
          unfold relative?
          by_cases hstep : first = step
          · simp [hstep, ih]
          · simp [hstep, Ne.symm hstep]

/-- What stands below a directory, by its steps from there. -/
theorem mem_below_iff {α : Type} [BEq α] [LawfulBEq α] {place steps : List α}
    {entries : List (List α × FileEntry)} :
    (steps, entry) ∈ below place entries ↔ steps ≠ [] ∧ (place ++ steps, entry) ∈ entries := by
  unfold below
  rw [List.mem_filterMap]
  constructor
  · rintro ⟨⟨p, e⟩, hmem, h⟩
    dsimp only at h
    split at h
    · rename_i step rest hrelative
      cases h
      rw [relative?_eq_some_iff] at hrelative
      exact ⟨List.cons_ne_nil _ _, hrelative ▸ hmem⟩
    · cases h
  · rintro ⟨hne, hmem⟩
    obtain ⟨step, rest, rfl⟩ := List.exists_cons_of_ne_nil hne
    refine ⟨_, hmem, ?_⟩
    dsimp only
    rw [relative?_eq_some_iff.2 rfl]

theorem mem_entriesBelow_iff {steps : Place} : (steps, entry) ∈ t.entriesBelow place
    ↔ steps ≠ [] ∧ (place ++ steps, entry) ∈ t.entries :=
  mem_below_iff

theorem mem_straysBelow_iff {steps : RawPlace} : (steps, entry) ∈ t.straysBelow place
    ↔ steps ≠ [] ∧ (place.raw ++ steps, entry) ∈ t.strays :=
  mem_below_iff

theorem mem_filesBelow_iff {steps : Place} : (steps, bytes) ∈ t.filesBelow place
    ↔ steps ≠ [] ∧ (place ++ steps, .file bytes) ∈ t.entries := by
  rw [← mem_entriesBelow_iff, filesBelow, entriesBelow, below, List.mem_filterMap, List.mem_filterMap]
  refine exists_congr fun ⟨p, e⟩ => and_congr_right fun _ => ?_
  dsimp only
  cases relative? place p with
  | none => simp
  | some steps =>
      cases steps with
      | nil => simp
      | cons step rest => cases e <;> simp

namespace WellFormed

theorem entryName (wf : t.WellFormed) (h : t.get? place = some entry) (hstep : step ∈ place) :
    IsEntryName step := by
  have hne : place ≠ [] := List.ne_nil_of_mem hstep
  exact (wf.named _ ((get?_eq_some_iff wf.once hne).1 h)).2 step hstep

/-- **Above what stands somewhere** there are directories only. -/
theorem directory_above (wf : t.WellFormed) (h : t.get? place = some entry) (hp : p <+: place)
    (hne : p ≠ place) : t.get? p = some .directory := by
  induction place using List.reverseRecOn generalizing entry with
  | nil => exact absurd (List.prefix_nil.1 hp) hne
  | append_singleton place last ih =>
      have hentry := (get?_eq_some_iff wf.once (by simp)).1 h
      have hholder : t.get? place = some .directory := by
        have hheld := wf.held _ hentry
        rwa [List.dropLast_concat] at hheld
      rw [List.prefix_concat_iff] at hp
      rcases hp with rfl | hp
      · exact absurd rfl hne
      · by_cases hplace : p = place
        · rw [hplace, hholder]
        · exact ih hholder hp hplace

theorem directory_of_prefix (wf : t.WellFormed) (h : t.get? place = some .directory) (hp : p <+: place) :
    t.get? p = some .directory := by
  by_cases hne : p = place
  · rw [hne, h]
  · exact wf.directory_above h hp hne

end WellFormed

theorem find_eq_ok_iff : t.find path = .ok entry ↔ ∃ place, t.locate path = .ok place ∧ t.get? place = some entry := by
  unfold find
  cases hlocated : t.locate path with
  | error error => simp [bind, Except.bind]
  | ok place =>
      cases hentry : t.get? place with
      | none => simp [bind, Except.bind, hentry]
      | some found => simp [bind, Except.bind, hentry]

theorem isDirectory_iff :
    t.isDirectory path = true ↔ ∃ place, t.locate path = .ok place ∧ t.get? place = some .directory := by
  rw [← find_eq_ok_iff, isDirectory]
  split
  · simp [*]
  · rename_i hother
    simpa using hother

theorem isFile_iff :
    t.isFile path = true ↔ ∃ place bytes, t.locate path = .ok place ∧ t.get? place = some (.file bytes) := by
  rw [exists_comm, isFile]
  simp only [← find_eq_ok_iff]
  split
  · simp [*]
  · rename_i hother
    simpa using hother

/-! ### Following -/

/-- Where a path begins. -/
def start (t : FileTree) (rooted : Bool) : Place := if rooted then [] else t.current

theorem WellFormed.directory_start (wf : t.WellFormed) (rooted : Bool) :
    t.get? (t.start rooted) = some .directory := by
  cases rooted with
  | true => rfl
  | false => exact wf.current

/-- Whether a step of a text is one of its steps. -/
def counts (step : List Char) : Bool := !step.isEmpty && step != ['.']

theorem follow_skip {start : Place} {step : List Char} (hstart : t.get? start = some .directory)
    (h : counts step = false) (l : List String) :
    t.follow start (String.ofList step :: l) = t.follow start l := by
  have hskip : (step == "".toList || step == ".".toList) = true := by
    simpa [counts, List.isEmpty_iff, ← or_iff_not_imp_left] using h
  rw [follow, hstart, ofList_beq, ofList_beq, if_pos hskip]

/-- Steps can be followed if they fit and pass directories only. -/
theorem follow_eq_ok {start : Place} (hfits : ∀ step ∈ l, byteSize step ≤ nameLimit)
    (hpassed : ∀ front step rest, l = front ++ step :: rest →
      t.get? (Place.along start (front.filter counts)) = some .directory) :
    t.follow start (l.map String.ofList) = .ok (Place.along start (l.filter counts)) := by
  induction l generalizing start with
  | nil => rfl
  | cons step l ih =>
      have hstart : t.get? start = some .directory := hpassed [] step l rfl
      have hrest : ∀ x ∈ l, byteSize x ≤ nameLimit := fun x hx => hfits x (List.mem_cons_of_mem _ hx)
      by_cases hcounts : counts step = true
      · have hnot : ¬ (step == "".toList || step == ".".toList) = true := by
          simpa [counts, List.isEmpty_iff] using hcounts
        have hnext : ∀ front x rest, l = front ++ x :: rest →
            t.get? (Place.along (Place.next start step) (front.filter counts)) = some .directory := by
          intro front x rest hl
          have hpass := hpassed (step :: front) x rest (by rw [hl, List.cons_append])
          rwa [List.filter_cons_of_pos hcounts] at hpass
        rw [List.map_cons, follow, ofList_beq, ofList_beq, ofList_beq, hstart, if_neg hnot,
          List.filter_cons_of_pos hcounts]
        show _ = Except.ok (Place.along (Place.next start step) _)
        by_cases hup : step = up
        · rw [if_pos (by simpa using hup), ← ih hrest hnext, Place.next, if_pos hup]
        · have hfit : ¬ nameLimit < (String.ofList step).utf8ByteSize := by
            rw [byteSize_ofList, Nat.not_lt]
            exact hfits step List.mem_cons_self
          rw [if_neg (by simpa using hup), if_neg hfit, ← ih hrest hnext, Place.next, if_neg hup]
      · have hcounts : counts step = false := by simpa using hcounts
        rw [List.map_cons, follow_skip hstart hcounts, List.filter_cons_of_neg (by simp [hcounts])]
        refine ih hrest fun front x rest hl => ?_
        have hpass := hpassed (step :: front) x rest (by rw [hl, List.cons_append])
        rwa [List.filter_cons_of_neg (by simp [hcounts])] at hpass

/-! ### Following reduced paths -/

namespace WellFormed

/-- What reduced steps pass on the way to something that stands somewhere are directories. -/
theorem directory_along (wf : t.WellFormed) (hl : IsReduced rooted l)
    (h : t.get? (Place.along (t.start rooted) l) = some entry) {front : List (List Char)} (hfront : front <+: l)
    (hne : front ≠ l) : t.get? (Place.along (t.start rooted) front) = some .directory := by
  rcases Place.along_front hl hfront (t.start rooted) with habove | ⟨more, hmore, hmore_ne⟩
  · exact wf.directory_of_prefix (wf.directory_start rooted) habove
  · rw [hmore] at h
    refine wf.directory_above h (List.prefix_append _ _) ?_
    simpa using hmore_ne hne

/-- The steps of a reduced path to something that stands somewhere climb, or are names of entries. -/
theorem eq_up_or_entryName (wf : t.WellFormed) (hl : IsReduced rooted l)
    (h : t.get? (Place.along (t.start rooted) l) = some entry) {x : List Char} (hx : x ∈ l) :
    x = up ∨ IsEntryName (String.ofList x) := by
  obtain ⟨climbs, names, rfl, hnames, _⟩ := hl
  rcases List.mem_append.1 hx with hx | hx
  · exact .inl (List.mem_replicate.1 hx).2
  · rw [Place.along_append, Place.along_names _ hnames] at h
    exact .inr (wf.entryName h (List.mem_append_right _ (List.mem_map_of_mem hx)))

end WellFormed

theorem filter_counts (h : ∀ step ∈ l, IsStep step) : l.filter counts = l := by
  rw [List.filter_eq_self]
  intro step hstep
  simp [counts, (h step hstep).ne_nil, (h step hstep).ne_dot]

/-- The text of steps is followed like the steps. -/
theorem follow_ofSteps {start : Place} (hstart : t.get? start = some .directory) (h : ∀ step ∈ l, IsStep step) :
    t.follow start (((ofSteps rooted l).splitOn '/').map String.ofList) = t.follow start (l.map String.ofList) := by
  rw [splitOn_ofSteps h]
  by_cases hl : l = []
  · subst hl
    cases rooted with
    | true => exact (follow_skip hstart rfl _).trans (follow_skip hstart rfl _)
    | false => exact follow_skip hstart rfl _
  · rw [if_neg hl]
    cases rooted with
    | true => exact follow_skip hstart rfl _
    | false => rfl

/-- **A reduced path can be followed** to what stands there, unless it has too many bytes. -/
theorem WellFormed.locate_ofSteps (wf : t.WellFormed) (hl : IsReduced rooted l)
    (h : t.get? (Place.along (t.start rooted) l) = some entry)
    (hsize : byteSize (ofSteps rooted l) < pathLimit) :
    t.locate (String.ofList (ofSteps rooted l)) = .ok (Place.along (t.start rooted) l) := by
  have hsteps := hl.isStep
  have hnul : '\x00' ∉ ofSteps rooted l := by
    intro hmem
    rcases mem_ofSteps hmem with hc | hc | ⟨x, hx, hc⟩
    · exact absurd hc (by decide)
    · exact absurd hc (by decide)
    · rcases wf.eq_up_or_entryName hl h hx with rfl | hname
      · exact absurd hc (by decide)
      · exact hname.no_nul (by simpa using hc)
  have hfits : ∀ x ∈ l, byteSize x ≤ nameLimit := by
    intro x hx
    rcases wf.eq_up_or_entryName hl h hx with rfl | hname
    · decide
    · have hfit := hname.fits
      rwa [byteSize_ofList] at hfit
  have hfollow : t.follow (t.start rooted) (((ofSteps rooted l).splitOn '/').map String.ofList)
      = .ok (Place.along (t.start rooted) l) := by
    rw [follow_ofSteps (wf.directory_start rooted) hsteps, follow_eq_ok hfits, filter_counts hsteps]
    rintro front step rest rfl
    rw [filter_counts fun x hx => hsteps x (List.mem_append_left _ hx)]
    exact wf.directory_along hl h (List.prefix_append _ _) (by simp)
  unfold locate
  dsimp only
  rw [String.toList_ofList, isRooted_ofSteps hsteps, byteSize_ofList, if_neg (by simpa using hnul),
    if_neg (by simpa using ofSteps_ne_nil hsteps), if_neg (Nat.not_le.2 hsize)]
  exact hfollow

/-! ### Directories that appear -/

/-- From the one tree to the other, directories stay, and new ones appear at some places at most. -/
structure OpensOnly (P : Place → Prop) (t t' : FileTree) : Prop where
  current : t'.current = t.current
  kept : ∀ place, t.get? place = some .directory → t'.get? place = some .directory
  opened : ∀ place, t'.get? place = some .directory → t.get? place = some .directory ∨ P place

theorem OpensOnly.refl (P : Place → Prop) (t : FileTree) : OpensOnly P t t :=
  ⟨rfl, fun _ h => h, fun _ h => .inl h⟩

theorem OpensOnly.trans (h : OpensOnly P t t') (h' : OpensOnly P t' t'') : OpensOnly P t t'' := by
  refine ⟨h'.current.trans h.current, fun place hplace => h'.kept place (h.kept place hplace), fun place hplace => ?_⟩
  rcases h'.opened place hplace with hplace | hP
  · exact h.opened place hplace
  · exact .inr hP

theorem makeDirectory_opensOnly (h : t.makeDirectory path = .ok t') (hP : P (.resolve t.current path)) :
    OpensOnly P t t' := by
  obtain ⟨place, hlocated, hentry, rfl⟩ := makeDirectory_eq_ok h
  have hplace : place ≠ [] := ne_nil_of_get? (by rw [hentry]; simp)
  refine ⟨rfl, fun p hp => ?_, fun p hp => ?_⟩
  · rw [get?_put t p .directory hplace]
    split
    · rfl
    · exact hp
  · rw [get?_put t p .directory hplace] at hp
    split at hp
    · rename_i he
      rw [he, locate_eq hlocated]
      exact .inr hP
    · exact .inl hp

theorem put_opensOnly (h : t.get? place ≠ some .directory) : OpensOnly P t (t.put place (.file bytes)) := by
  have hplace := ne_nil_of_get? h
  refine ⟨rfl, fun p hp => ?_, fun p hp => ?_⟩
  · rw [get?_put t p _ hplace, if_neg]
    · exact hp
    · rintro rfl
      exact h hp
  · rw [get?_put t p _ hplace] at hp
    split at hp
    · cases hp
    · exact .inl hp

theorem erase_opensOnly (h : t.get? place = some (.file bytes)) : OpensOnly P t (t.erase place) := by
  have hplace : place ≠ [] := ne_nil_of_get? (by rw [h]; simp)
  refine ⟨rfl, fun p hp => ?_, fun p hp => ?_⟩
  · rw [get?_erase t p hplace, if_neg]
    · exact hp
    · rintro rfl
      rw [h] at hp
      cases hp
  · rw [get?_erase t p hplace] at hp
    split at hp
    · cases hp
    · exact .inl hp

theorem write_opensOnly (h : t.write path bytes = .ok t') : OpensOnly P t t' := by
  obtain ⟨place, _, hentry, rfl⟩ := write_eq_ok h
  exact put_opensOnly hentry

theorem delete_opensOnly (h : t.delete path = .ok t') : OpensOnly P t t' := by
  obtain ⟨place, bytes, _, hentry, rfl⟩ := delete_eq_ok h
  exact erase_opensOnly hentry

theorem makeDirectories_opensOnly {paths : List String} (hP : ∀ path ∈ paths, P (.resolve t.current path)) :
    OpensOnly P t (t.makeDirectories paths).1 := by
  induction paths generalizing t with
  | nil => exact .refl P t
  | cons path parents ih =>
      have hpath := hP path List.mem_cons_self
      unfold makeDirectories
      split
      · rename_i hmade
        exact makeDirectory_opensOnly hmade hpath
      · have hparents := ih fun x hx => hP x (List.mem_cons_of_mem _ hx)
        split
        · rename_i hmade
          rwa [hmade] at hparents
        · rename_i hmade
          rw [hmade] at hparents
          split
          · rename_i hlast
            exact hparents.trans (makeDirectory_opensOnly hlast (hparents.current ▸ hpath))
          · exact hparents
      · exact .refl P t

/-- Where neither files are altered nor directories appear, the trees do not differ. -/
theorem get?_of_altersOnly (hfiles : AltersOnly P t t') (hdirectories : OpensOnly Q t t') (hP : ¬ P place)
    (hQ : ¬ Q place) : t'.get? place = t.get? place := by
  have hfile : t'.file? place = t.file? place := by
    by_contra hne
    exact hP (hfiles.files place hne)
  have hkept := hdirectories.kept place
  have hopened := fun h => (hdirectories.opened place h).resolve_right hQ
  unfold file? at hfile
  cases h : t.get? place with
  | none =>
      cases h' : t'.get? place with
      | none => rfl
      | some entry => cases entry <;> simp_all
  | some entry =>
      cases h' : t'.get? place with
      | none => cases entry <;> simp_all
      | some entry' => cases entry <;> cases entry' <;> simp_all

/-- What can be followed can be followed as long as directories stay. -/
theorem OpensOnly.follow {start : Place} {steps : List String} (h : OpensOnly P t t')
    (hfollowed : t.follow start steps = .ok place) : t'.follow start steps = .ok place := by
  induction steps generalizing start with
  | nil => exact hfollowed
  | cons step steps ih =>
      unfold FileTree.follow at hfollowed ⊢
      split at hfollowed
      · cases hfollowed
      · cases hfollowed
      · rename_i hstart
        rw [h.kept _ hstart]
        dsimp only
        split at hfollowed
        · rw [if_pos ‹_›]
          exact ih hfollowed
        · rw [if_neg ‹_›]
          split at hfollowed
          · rw [if_pos ‹_›]
            exact ih hfollowed
          · rw [if_neg ‹_›]
            split at hfollowed
            · cases hfollowed
            · rw [if_neg ‹_›]
              exact ih hfollowed

theorem OpensOnly.locate (h : OpensOnly P t t') (hlocated : t.locate path = .ok place) :
    t'.locate path = .ok place := by
  unfold FileTree.locate at hlocated ⊢
  rw [h.current]
  dsimp only at hlocated ⊢
  split at hlocated
  · cases hlocated
  · rw [if_neg ‹_›]
    split at hlocated
    · cases hlocated
    · rw [if_neg ‹_›]
      split at hlocated
      · cases hlocated
      · rw [if_neg ‹_›]
        exact h.follow hlocated

/-! ### Files that change -/

/-- From the one tree to the other, files are given other bytes or taken out, and that is all. -/
structure Edited (t t' : FileTree) : Prop where
  wellFormed : t'.WellFormed
  opensOnly : OpensOnly (fun _ => False) t t'
  none_appears : ∀ place, t.get? place = none → t'.get? place = none

theorem Edited.refl (wf : t.WellFormed) : Edited t t := ⟨wf, .refl _ t, fun _ h => h⟩

theorem Edited.trans (h : Edited t t') (h' : Edited t' t'') : Edited t t'' :=
  ⟨h'.wellFormed, h.opensOnly.trans h'.opensOnly, fun _ hplace => h'.none_appears _ (h.none_appears _ hplace)⟩

theorem Edited.directory_iff (h : Edited t t') : t'.get? place = some .directory ↔ t.get? place = some .directory :=
  ⟨fun hplace => (h.opensOnly.opened _ hplace).resolve_right id, h.opensOnly.kept _⟩

/-- Where a file is, there was a file. -/
theorem Edited.exists_file (h : Edited t t') (hfile : t'.get? place = some (.file bytes)) :
    ∃ old, t.get? place = some (.file old) := by
  cases hentry : t.get? place with
  | none =>
      rw [h.none_appears _ hentry] at hfile
      cases hfile
  | some entry =>
      cases entry with
      | file old => exact ⟨old, rfl⟩
      | directory =>
          rw [h.opensOnly.kept _ hentry] at hfile
          cases hfile

namespace WellFormed

/-- A file may be given other bytes. -/
theorem edited_put {old : ByteArray} (wf : t.WellFormed) (h : t.get? place = some (.file old)) :
    Edited t (t.put place (.file bytes)) := by
  have hne : t.get? place ≠ some .directory := by simp [h]
  have hplace := ne_nil_of_get? hne
  have hopens : OpensOnly (fun _ => False) t (t.put place (.file bytes)) := put_opensOnly hne
  have hmem : ∀ e ∈ (t.put place (.file bytes)).entries, e.1 = place ∨ e ∈ t.entries := by
    intro e he
    rcases List.mem_cons.1 he with rfl | he
    · exact .inl rfl
    · exact .inr (List.mem_of_mem_filter he)
  have hthere : (place, FileEntry.file old) ∈ t.entries := (get?_eq_some_iff wf.once hplace).1 h
  refine ⟨⟨?_, fun e he => ?_, fun e he => ?_, hopens.kept _ wf.current, wf.strays⟩, hopens, fun p hp => ?_⟩
  · refine List.nodup_cons.2 ⟨?_, wf.once.sublist (List.filter_sublist.map _)⟩
    simp
  · rcases hmem e he with hp | he
    · exact hp ▸ wf.named _ hthere
    · exact wf.named e he
  · rcases hmem e he with hp | he
    · exact hopens.kept _ (hp ▸ wf.held _ hthere)
    · exact hopens.kept _ (wf.held e he)
  · rw [get?_put t p _ hplace, if_neg, hp]
    rintro rfl
    rw [h] at hp
    cases hp

/-- A file may be taken out. -/
theorem edited_erase (wf : t.WellFormed) (h : t.get? place = some (.file bytes)) : Edited t (t.erase place) := by
  have hplace : place ≠ [] := ne_nil_of_get? (by rw [h]; simp)
  have hopens : OpensOnly (fun _ => False) t (t.erase place) := erase_opensOnly h
  have hmem : ∀ e ∈ (t.erase place).entries, e ∈ t.entries := fun e he => List.mem_of_mem_filter he
  refine ⟨⟨wf.once.sublist (List.filter_sublist.map _), fun e he => wf.named e (hmem e he), fun e he => ?_,
    hopens.kept _ wf.current, wf.strays⟩, hopens, fun p hp => ?_⟩
  · exact hopens.kept _ (wf.held e (hmem e he))
  · rw [get?_erase t p hplace]
    split
    · rfl
    · exact hp

end WellFormed

end FileTree

end Pagefold
