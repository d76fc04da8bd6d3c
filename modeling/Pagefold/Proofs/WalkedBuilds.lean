import Pagefold.Proofs.Builds
import Pagefold.Proofs.Directories
import Pagefold.Proofs.OutputPaths

/-! # Builds that are read from a directory

A build that is read holds what a walk of the directory meets, each file under its steps as text
(`read_eq_ok_iff`).  Where no names but texts are met, these are the files to which paths lead
(`ofWalk_eq_readBelow`), and a name determines the steps (`nameOf_injective`).

The path made for such a name is the reduced form of the path by which the file was read, unless the
directory is `.`: then every name is refused (`outputPath_nameOf`).  An output path leads to the file that
was read (`Walked.locate_output`). -/

namespace Pagefold

open Pagefold.Path Pagefold.Text

namespace Table

variable {α : Type} {t t' : Table α} {key : String} {value : α}

/-- Two tables with the same look-ups are the same. -/
theorem ext_get? (h : ∀ key value, t.get? key = some value ↔ t'.get? key = some value) : t = t' := by
  have hmem : ∀ e, e ∈ t.entries ↔ e ∈ t'.entries := fun e =>
    get?_eq_some_iff.symm.trans ((h e.1 e.2).trans get?_eq_some_iff)
  have hperm : t.entries.Perm t'.entries :=
    (List.perm_ext_iff_of_nodup (.of_map _ t.keys_nodup) (.of_map _ t'.keys_nodup)).2 hmem
  have heq : t.entries = t'.entries := by
    refine hperm.eq_of_pairwise (fun a b _ _ hab hba => ?_) (List.pairwise_map.1 t.sorted)
      (List.pairwise_map.1 t'.sorted)
    exact absurd hba (String.lt_asymm hab)
  cases t
  cases t'
  cases heq
  rfl

theorem mem_of_get?_foldl {l : List (String × α)}
    (h : (l.foldl (fun t e => t.insert e.1 e.2) t).get? key = some value) :
    (key, value) ∈ l ∨ t.get? key = some value := by
  induction l generalizing t with
  | nil => exact .inr h
  | cons e l ih =>
      rcases ih h with hmem | hget
      · exact .inl (List.mem_cons_of_mem _ hmem)
      · rw [get?_insert] at hget
        split at hget
        · rename_i hkey
          cases hget
          exact .inl (by rw [hkey]; exact List.mem_cons_self)
        · exact .inr hget

/-- A list that gives no key two values is the table that it makes. -/
theorem get?_ofList_iff {l : List (String × α)}
    (h : ∀ value value', (key, value) ∈ l → (key, value') ∈ l → value = value') :
    (ofList l).get? key = some value ↔ (key, value) ∈ l := by
  constructor
  · intro hget
    rcases mem_of_get?_foldl hget with hmem | hempty
    · exact hmem
    · cases hempty
  · intro hmem
    have hkey : key ∈ (ofList l).keys := mem_keys_ofList.2 (List.mem_map.2 ⟨_, hmem, rfl⟩)
    obtain ⟨value', hvalue'⟩ := Option.isSome_iff_exists.1 (Dictionary.lookup_isSome_iff.2 hkey)
    rcases mem_of_get?_foldl hvalue' with hmem' | hempty
    · rw [h value value' hmem hmem']
      exact hvalue'
    · cases hempty

end Table

namespace Build

variable {t : FileTree} {directory name : String} {place steps steps' : Place} {entry : FileEntry}
  {bytes : ByteArray} {build : Build} {item : Item}

/-! ### Names -/

/-- Steps that lead down from a directory. -/
structure IsWay (steps : Place) : Prop where
  ne_nil : steps ≠ []
  names : ∀ step ∈ steps, IsPlainName step

theorem isName_of_plainNames (h : ∀ step ∈ steps, IsPlainName step) :
    ∀ name ∈ steps.map String.toList, IsName name := by
  intro name hname
  obtain ⟨step, hstep, rfl⟩ := List.mem_map.1 hname
  exact (h step hstep).isName

theorem IsWay.isName (h : IsWay steps) : ∀ step ∈ steps.map String.toList, IsName step :=
  isName_of_plainNames h.names

theorem IsWay.isStep (h : IsWay steps) : ∀ step ∈ steps.map String.toList, IsStep step :=
  fun step hstep => (h.isName step hstep).toIsStep

theorem toList_nameOf (steps : Place) : (nameOf steps).toList = ['/'].intercalate (steps.map String.toList) :=
  String.toList_intercalate

theorem steps_nameOf (h : IsWay steps) : Path.steps (nameOf steps).toList = steps.map String.toList := by
  rw [toList_nameOf, steps_intercalate h.isStep]

theorem isName_nameOf (h : IsWay steps) : ∀ name ∈ Path.steps (nameOf steps).toList, IsName name := by
  rw [steps_nameOf h]
  exact h.isName

theorem isRooted_nameOf (h : IsWay steps) : isRooted (nameOf steps).toList = false := by
  rw [toList_nameOf, isRooted_intercalate h.isStep]

theorem reduced_nameOf (h : IsWay steps) : reduced (nameOf steps).toList = steps.map String.toList := by
  rw [reduced, steps_nameOf h, foldl_walk_names h.isName, List.append_nil,
    List.reverse_reverse]

/-- A name says by which steps its file is reached. -/
theorem nameOf_injective (h : IsWay steps) (h' : IsWay steps') (he : nameOf steps = nameOf steps') :
    steps = steps' := by
  have hsteps := steps_nameOf h
  rw [he, steps_nameOf h'] at hsteps
  exact (List.map_injective_iff.2 (fun _ _ => String.toList_inj.1)) hsteps.symm

theorem nul_not_mem_nameOf (h : IsWay steps) : '\x00' ∉ (nameOf steps).toList := by
  rw [toList_nameOf]
  intro hmem
  rcases mem_intercalate hmem with hc | ⟨x, hx, hc⟩
  · exact absurd hc (by decide)
  · obtain ⟨step, hstep, rfl⟩ := List.mem_map.1 hx
    exact (h.names step hstep).no_nul hc

/-! ### Paths made for names -/

/-- The steps of a reduced path to a file below a directory. -/
def stepsTo (directory : String) (steps : Place) : List (List Char) :=
  reduced directory.toList ++ steps.map String.toList

theorem isReduced_stepsTo (directory : String) (h : ∀ step ∈ steps, IsPlainName step) :
    IsReduced (isRooted directory.toList) (stepsTo directory steps) :=
  (isReduced_reduced directory.toList).append_names (isName_of_plainNames h)

theorem along_stepsTo (current : Place) (directory : String) (h : ∀ step ∈ steps, IsPlainName step) :
    Place.along (if isRooted directory.toList then [] else current) (stepsTo directory steps)
      = Place.resolve current directory ++ steps := by
  rw [stepsTo, Place.along_append, Place.along_reduced, Place.along_names _ (isName_of_plainNames h), List.map_map]
  simp [Function.comp_def, Place.resolve]

/-- The path by which a file was read, reduced. -/
theorem reducedPath_walkedPath (directory : String) (h : IsWay steps) : reducedPath (walkedPath directory steps)
    = String.ofList (ofSteps (isRooted directory.toList) (stepsTo directory steps)) := by
  rw [reducedPath, walkedPath, String.toList_ofList, clean_join_names (isRooted_nameOf h) (isName_nameOf h),
    steps_nameOf h]
  rfl

theorem reducedPath_eq_dot_iff : reducedPath directory = "."
    ↔ isRooted directory.toList = false ∧ reduced directory.toList = [] := by
  have hdot : reducedPath directory = "." ↔ clean directory.toList = ['.'] := by
    rw [reducedPath, ← String.toList_inj, String.toList_ofList]
    rfl
  rw [hdot]
  constructor
  · intro hclean
    have hrooted := isRooted_clean directory.toList
    have hsteps := steps_clean directory.toList
    rw [hclean] at hrooted hsteps
    exact ⟨hrooted.symm, hsteps.symm⟩
  · rintro ⟨hrooted, hsteps⟩
    rw [clean, hrooted, hsteps]
    rfl

/-- Only below `.` there is nothing. -/
theorem liesBelow_stepsTo (directory : String) (h : IsWay steps) :
    liesBelow (clean directory.toList) (ofSteps (isRooted directory.toList) (stepsTo directory steps))
      = !(reducedPath directory == ".") := by
  have hway : steps.map String.toList ≠ [] := by simpa using h.ne_nil
  rw [liesBelow, parts_clean, parts_ofSteps (isReduced_stepsTo directory h.names).isStep, Bool.eq_iff_iff]
  simp only [Bool.and_eq_true, bne_iff_ne, Bool.not_eq_true', beq_eq_false_iff_ne, ne_eq, reducedPath_eq_dot_iff,
    List.isPrefixOf_iff_prefix, stepsTo]
  cases hrooted : isRooted directory.toList with
  | true => simp [hway]
  | false =>
      by_cases hreduced : reduced directory.toList = []
      · obtain ⟨first, rest, hsteps⟩ := List.exists_cons_of_ne_nil hway
        have hfirst : first ≠ ['.'] := (h.isStep first (hsteps ▸ List.mem_cons_self)).ne_dot
        simp [hreduced, hsteps, Ne.symm hfirst]
      · simp [hreduced, hway]

/-- **Which read names are refused.**  The path made for the name of a file below a directory is the one by
which the file was read, reduced.  If the directory is `.`, every name is refused. -/
theorem outputPath_nameOf (directory : String) (h : IsWay steps) :
    outputPath (reducedPath directory) (nameOf steps)
      = if reducedPath directory = "." then .error (.escapes (nameOf steps) ".")
        else .ok (reducedPath (walkedPath directory steps)) := by
  have hnul : (nameOf steps).toList.contains '\x00' = false := by simpa using nul_not_mem_nameOf h
  have hrooted : isRooted (Path.clean (nameOf steps).toList) = false := by rw [isRooted_clean, isRooted_nameOf h]
  have hsteps : Path.steps (Path.clean (nameOf steps).toList) = steps.map String.toList := by
    rw [steps_clean, reduced_nameOf h]
  have hjoined : Path.clean (Path.join (clean directory.toList) (Path.clean (nameOf steps).toList))
      = ofSteps (isRooted directory.toList) (stepsTo directory steps) := by
    rw [clean_join_names hrooted (hsteps ▸ h.isName), isRooted_clean, reduced_clean, hsteps]
    rfl
  have hbelow := liesBelow_stepsTo directory h
  unfold outputPath
  rw [hnul, if_neg Bool.false_ne_true, reducedPath_walkedPath directory h]
  dsimp only
  rw [show (reducedPath directory).toList = clean directory.toList from String.toList_ofList, hjoined, hbelow]
  by_cases hdot : reducedPath directory = "."
  · rw [if_pos hdot, hdot]
    rfl
  · rw [if_neg hdot, if_pos (by simpa using hdot)]

/-- The directory in which the file of a name is put. -/
theorem parent?_walkedPath (h : IsWay steps) (hdot : reducedPath directory ≠ ".") :
    (Path.parent? (reducedPath (walkedPath directory steps)).toList).elim "" String.ofList
      = String.ofList (ofSteps (isRooted directory.toList) (stepsTo directory steps.dropLast)) := by
  obtain ⟨front, last, rfl⟩ := steps.eq_nil_or_concat'.resolve_left h.ne_nil
  have hdrop : (stepsTo directory (front ++ [last])).dropLast = stepsTo directory front := by
    rw [stepsTo, List.map_append, ← List.append_assoc]
    exact List.dropLast_concat
  have hparent : isRooted directory.toList = true ∨ (stepsTo directory (front ++ [last])).dropLast ≠ [] := by
    rw [hdrop, stepsTo]
    rw [ne_eq, reducedPath_eq_dot_iff] at hdot
    cases hrooted : isRooted directory.toList with
    | true => exact .inl rfl
    | false => exact .inr (List.append_ne_nil_of_left_ne_nil (fun hd => hdot ⟨hrooted, hd⟩) _)
  rw [reducedPath_walkedPath directory h, String.toList_ofList,
    parent?_ofSteps (isReduced_stepsTo directory h.names).isStep (by simp [stepsTo]) hparent, hdrop,
    List.dropLast_concat]
  rfl

/-- The path made for a name leads from the directory by the steps of the name. -/
theorem resolve_output (current : Place) (directory : String) (h : IsWay steps) :
    Place.resolve current (reducedPath (walkedPath directory steps)) = Place.resolve current directory ++ steps := by
  rw [Place.resolve_reducedPath, walkedPath, Place.resolve, String.toList_ofList, isRooted_join, isRooted_nameOf h,
    Bool.false_or, steps_join (isRooted_nameOf h), steps_nameOf h, Place.along_append, Place.along_names _ h.isName,
    List.map_map]
  simp [Function.comp_def, Place.resolve]

/-! ### Reading -/

/-- A file with this name and these bytes stands below a place. -/
def HasFile (t : FileTree) (place : Place) (name : String) (bytes : ByteArray) : Prop :=
  ∃ steps, IsWay steps ∧ name = nameOf steps ∧ t.get? (place ++ steps) = some (.file bytes)

/-- A name says by which steps the file is reached, so there is one. -/
theorem HasFile.unique {bytes' : ByteArray} (h : HasFile t place name bytes) (h' : HasFile t place name bytes') :
    bytes = bytes' := by
  obtain ⟨steps, hway, rfl, hfile⟩ := h
  obtain ⟨steps', hway', hname, hfile'⟩ := h'
  obtain rfl := nameOf_injective hway hway' hname
  rw [hfile] at hfile'
  cases hfile'
  rfl

/-- The files below a place by their names. -/
def readBelow (t : FileTree) (place : Place) : Build :=
  .ofList ((t.filesBelow place).map fun (steps, bytes) => (nameOf steps, itemOf (nameOf steps) bytes))

/-- The directory at a place can be walked by a path. -/
structure Walked (t : FileTree) (directory : String) (place : Place) : Prop where
  wellFormed : t.WellFormed
  located : t.locate directory = .ok place
  isDirectory : t.get? place = some .directory
  short : ∀ steps entry, steps ≠ [] → t.get? (place ++ steps) = some entry →
    (walkedPath directory steps).utf8ByteSize < FileTree.pathLimit

theorem isWay_of_get? (wf : t.WellFormed) (hne : steps ≠ []) (h : t.get? (place ++ steps) = some entry) :
    IsWay steps :=
  ⟨hne, fun _ hstep => (wf.entryName h (List.mem_append_right _ hstep)).toIsPlainName⟩

theorem mem_entriesBelow_iff (wf : t.WellFormed) :
    (steps, entry) ∈ t.entriesBelow place ↔ steps ≠ [] ∧ t.get? (place ++ steps) = some entry := by
  rw [FileTree.mem_entriesBelow_iff]
  refine and_congr_right fun hne => ?_
  rw [FileTree.get?_eq_some_iff wf.once (by simp [hne])]

theorem mem_filesBelow_iff (wf : t.WellFormed) :
    (steps, bytes) ∈ t.filesBelow place ↔ IsWay steps ∧ t.get? (place ++ steps) = some (.file bytes) := by
  rw [FileTree.mem_filesBelow_iff]
  constructor
  · rintro ⟨hne, hmem⟩
    have hfile := (FileTree.get?_eq_some_iff wf.once (by simp [hne])).2 hmem
    exact ⟨isWay_of_get? wf hne hfile, hfile⟩
  · rintro ⟨hway, hfile⟩
    exact ⟨hway.ne_nil, (FileTree.get?_eq_some_iff wf.once (by simp [hway.ne_nil])).1 hfile⟩

/-- **What a build that is read holds.** -/
theorem get?_readBelow_iff (wf : t.WellFormed) : (readBelow t place).get? name = some item
    ↔ ∃ bytes, HasFile t place name bytes ∧ item = itemOf name bytes := by
  have hmem : ∀ item, (name, item) ∈ (t.filesBelow place).map (fun (steps, bytes) =>
      (nameOf steps, itemOf (nameOf steps) bytes))
      ↔ ∃ bytes, HasFile t place name bytes ∧ item = itemOf name bytes := by
    intro item
    rw [List.mem_map]
    constructor
    · rintro ⟨⟨steps, bytes⟩, hfile, he⟩
      obtain ⟨rfl, rfl⟩ := Prod.mk.inj he
      obtain ⟨hway, hfile⟩ := (mem_filesBelow_iff wf).1 hfile
      exact ⟨bytes, ⟨steps, hway, rfl, hfile⟩, rfl⟩
    · rintro ⟨bytes, ⟨steps, hway, rfl, hfile⟩, rfl⟩
      exact ⟨(steps, bytes), (mem_filesBelow_iff wf).2 ⟨hway, hfile⟩, rfl⟩
  refine (Table.get?_ofList_iff fun item item' hitem hitem' => ?_).trans (hmem item)
  obtain ⟨bytes, hfile, rfl⟩ := (hmem item).1 hitem
  obtain ⟨bytes', hfile', rfl⟩ := (hmem item').1 hitem'
  rw [hfile.unique hfile']

/-! ### Walking -/

theorem text_raw (steps : Place) : steps.raw.text = steps := by
  have hstep : ∀ step : String, String.ofList (lossy step.toUTF8.data.toList) = step := by
    intro step
    rw [lossy_toUTF8, String.ofList_toList]
  rw [RawPlace.text, Place.raw, List.map_map]
  exact (List.map_congr_left fun step _ => hstep step).trans (List.map_id steps)

theorem walkedSize_raw (directory : String) (steps : Place) :
    walkedSize directory steps.raw = (walkedPath directory steps).utf8ByteSize := by
  rw [walkedSize, text_raw, Nat.add_sub_cancel]

/-- The name of a stray is one of steps that lead down. -/
theorem isWay_text_of_stray (wf : t.WellFormed) {raw : RawPlace} (h : (raw, entry) ∈ t.straysBelow place) :
    IsWay raw.text := by
  obtain ⟨hne, hmem⟩ := FileTree.mem_straysBelow_iff.1 h
  refine ⟨by simpa [RawPlace.text] using hne, fun name hname => ?_⟩
  obtain ⟨step, hstep, rfl⟩ := List.mem_map.1 hname
  exact (wf.strays _ hmem step (List.mem_append_right _ hstep)).isPlainName

/-- The paths of all that a walk meets can be opened if those are that lead to entries, and those of strays. -/
theorem firstTooLong?_eq_none_iff (wf : t.WellFormed) : firstTooLong? t directory place = none
    ↔ (∀ steps entry, steps ≠ [] → t.get? (place ++ steps) = some entry →
        (walkedPath directory steps).utf8ByteSize < FileTree.pathLimit) ∧
      ∀ e ∈ t.straysBelow place, walkedSize directory e.1 < FileTree.pathLimit := by
  have hall : firstTooLong? t directory place = none
      ↔ ∀ e ∈ t.walk place, walkedSize directory e.1 < FileTree.pathLimit := by
    rw [firstTooLong?, List.find?_eq_none]
    simp
  rw [hall]
  constructor
  · refine fun h => ⟨fun steps entry hne hentry => ?_, fun e he => h e (FileTree.mem_walk_iff.2 (.inr he))⟩
    rw [← walkedSize_raw]
    exact h (_, entry) (FileTree.mem_walk_iff.2 (.inl ⟨steps, (mem_entriesBelow_iff wf).2 ⟨hne, hentry⟩, rfl⟩))
  · rintro ⟨hreached, hstrays⟩ e he
    rcases FileTree.mem_walk_iff.1 he with ⟨steps, hmem, hsteps⟩ | hstray
    · obtain ⟨hne, hentry⟩ := (mem_entriesBelow_iff wf).1 hmem
      rw [← hsteps, walkedSize_raw]
      exact hreached steps e.2 hne hentry
    · exact hstrays e hstray

/-- What a walk gives of a file. -/
theorem mem_walkedFiles_iff {name : String} : (name, item) ∈ ((t.walk place).filterMap fun (steps, entry) =>
      match entry with
      | .file bytes => some (nameOf steps.text, itemOf (nameOf steps.text) bytes)
      | .directory => none)
    ↔ ∃ raw bytes, (raw, .file bytes) ∈ t.walk place ∧ name = nameOf raw.text ∧ item = itemOf name bytes := by
  rw [List.mem_filterMap]
  constructor
  · rintro ⟨⟨raw, entry⟩, hmem, he⟩
    cases entry with
    | directory => cases he
    | file bytes =>
        cases he
        exact ⟨raw, bytes, hmem, rfl, rfl⟩
  · rintro ⟨raw, bytes, hmem, rfl, rfl⟩
    exact ⟨_, hmem, rfl⟩

/-- Each file of a walk is one that was met. -/
theorem exists_of_get?_ofWalk (h : (ofWalk t place).get? name = some item) :
    ∃ raw bytes, (raw, .file bytes) ∈ t.walk place ∧ name = nameOf raw.text ∧ item = itemOf name bytes := by
  rcases Table.mem_of_get?_foldl h with hmem | hempty
  · exact mem_walkedFiles_iff.1 hmem
  · cases hempty

/-- Where there are no strays, a walk finds the files that stand below the directory. -/
theorem ofWalk_eq_readBelow (wf : t.WellFormed) (h : t.straysBelow place = []) :
    ofWalk t place = readBelow t place := by
  suffices hitems : (ofWalk t place).items = (readBelow t place).items from congrArg Build.mk hitems
  have hwalk : ∀ raw bytes, (raw, FileEntry.file bytes) ∈ t.walk place
      ↔ ∃ steps, IsWay steps ∧ t.get? (place ++ steps) = some (.file bytes) ∧ steps.raw = raw := by
    intro raw bytes
    rw [FileTree.mem_walk_iff, h]
    simp only [List.not_mem_nil, or_false]
    refine exists_congr fun steps => ?_
    rw [mem_entriesBelow_iff wf, and_assoc]
    constructor
    · rintro ⟨hne, hfile, hraw⟩
      exact ⟨isWay_of_get? wf hne hfile, hfile, hraw⟩
    · rintro ⟨hway, hfile, hraw⟩
      exact ⟨hway.ne_nil, hfile, hraw⟩
  have hmem : ∀ name item, (∃ raw bytes, (raw, .file bytes) ∈ t.walk place ∧ name = nameOf raw.text ∧
      item = itemOf name bytes) ↔ ∃ bytes, HasFile t place name bytes ∧ item = itemOf name bytes := by
    intro name item
    constructor
    · rintro ⟨raw, bytes, hmet, rfl, rfl⟩
      obtain ⟨steps, hway, hfile, rfl⟩ := (hwalk raw bytes).1 hmet
      exact ⟨bytes, ⟨steps, hway, by rw [text_raw], hfile⟩, rfl⟩
    · rintro ⟨bytes, ⟨steps, hway, rfl, hfile⟩, rfl⟩
      exact ⟨steps.raw, bytes, (hwalk _ _).2 ⟨steps, hway, hfile, rfl⟩, by rw [text_raw], rfl⟩
  refine Table.ext_get? fun name item => Iff.trans ?_ (get?_readBelow_iff wf).symm
  refine (Table.get?_ofList_iff fun item item' hitem hitem' => ?_).trans (mem_walkedFiles_iff.trans (hmem name item))
  have hread := (get?_readBelow_iff wf).2 ((hmem name item).1 (mem_walkedFiles_iff.1 hitem))
  have hread' := (get?_readBelow_iff wf).2 ((hmem name item').1 (mem_walkedFiles_iff.1 hitem'))
  exact Option.some.inj (hread.symm.trans hread')

/-- **When a directory can be read**, and to which build. -/
theorem read_eq_ok_iff (wf : t.WellFormed) (hdirectory : t.isDirectory directory = true) :
    Build.read t directory = .ok build ↔ ∃ place, Walked t directory place ∧
      (∀ e ∈ t.straysBelow place, walkedSize directory e.1 < FileTree.pathLimit) ∧ build = ofWalk t place := by
  obtain ⟨place, hlocated, hplace⟩ := FileTree.isDirectory_iff.1 hdirectory
  have hread : Build.read t directory = .ok build
      ↔ firstTooLong? t directory place = none ∧ build = ofWalk t place := by
    unfold Build.read
    rw [hlocated]
    simp only [Except.mapError, bind, Except.bind, hplace]
    cases hlong : firstTooLong? t directory place with
    | none => exact ⟨fun h => ⟨rfl, (Except.ok.inj h).symm⟩, fun h => congrArg _ h.2.symm⟩
    | some first =>
        obtain ⟨steps, entry⟩ := first
        refine iff_of_false (fun h => ?_) fun h => Option.some_ne_none _ h.1
        cases entry <;> cases h
  rw [hread, firstTooLong?_eq_none_iff wf]
  constructor
  · rintro ⟨⟨hshort, hstrays⟩, rfl⟩
    exact ⟨place, ⟨wf, hlocated, hplace, hshort⟩, hstrays, rfl⟩
  · rintro ⟨place', hwalked, hstrays, rfl⟩
    obtain rfl : place' = place := Except.ok.inj (hwalked.located.symm.trans hlocated)
    exact ⟨⟨hwalked.short, hstrays⟩, rfl⟩

/-- Where there are no strays, the build holds the files that stand below the directory. -/
theorem read_eq_ok_iff_of_named (wf : t.WellFormed) (hdirectory : t.isDirectory directory = true)
    (hnamed : t.straysBelow (.resolve t.current directory) = []) :
    Build.read t directory = .ok build ↔ ∃ place, Walked t directory place ∧ build = readBelow t place := by
  rw [read_eq_ok_iff wf hdirectory]
  refine exists_congr fun place => and_congr_right fun hw => ?_
  rw [← FileTree.locate_eq hw.located] at hnamed
  simp [hnamed, ofWalk_eq_readBelow wf hnamed]

/-- The names lead down by steps. -/
def AreWays (names : List String) : Prop := ∀ name ∈ names, ∃ steps, IsWay steps ∧ name = nameOf steps

/-- **Every name that is read** leads down by steps, that of a stray too. -/
theorem areWays_ofWalk (wf : t.WellFormed) : AreWays (ofWalk t place).names := by
  intro name hname
  obtain ⟨item, hitem⟩ := Option.isSome_iff_exists.1 (mem_names_iff.1 hname)
  obtain ⟨raw, bytes, hmet, rfl, _⟩ := exists_of_get?_ofWalk hitem
  refine ⟨raw.text, ?_, rfl⟩
  rcases FileTree.mem_walk_iff.1 hmet with ⟨steps, hmem, rfl⟩ | hstray
  · obtain ⟨hne, hentry⟩ := (mem_entriesBelow_iff wf).1 hmem
    rw [text_raw]
    exact isWay_of_get? wf hne hentry
  · exact isWay_text_of_stray wf hstray

end Build

end Pagefold
