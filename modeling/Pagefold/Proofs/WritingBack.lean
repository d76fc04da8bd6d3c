import Pagefold.Fold.Directory
import Pagefold.Proofs.Leftovers
import Pagefold.Proofs.WalkedBuilds

/-! # Builds that are written back

A file that was read is written to the place where it stood (`Walked.writeItem`) and deleted there
(`Walked.deleteName`), and afterwards the directory can be walked as before (`Walked.putFile`,
`Walked.eraseFile`).  So writing any files of the directory succeeds and gives them their bytes, and deleting
them succeeds (`Walked.writeItems`, `Walked.deleteAll`); nothing else changes.

Hence a run in place refuses no name of a directory that can be read, strays among them, and it succeeds where
there are none; but where the directory is spelled like `.` and has files, all names are refused
(`written_back_iff`). -/

namespace Pagefold

open Pagefold.Path Pagefold.Text

namespace FileTree

variable {t : FileTree} {place : Place} {path : String} {l : List (List Char)} {rooted : Bool}

theorem size_of_locate (h : t.locate path = .ok place) : path.toList ≠ [] ∧ byteSize path.toList < pathLimit := by
  unfold locate at h
  dsimp only at h
  split at h
  · cases h
  · split at h
    · cases h
    · rename_i hne
      split at h
      · cases h
      · rename_i hsize
        rw [byteSize_toList]
        exact ⟨by simpa using hne, Nat.not_le.1 hsize⟩

/-- A directory that is there is made without a change. -/
theorem makePath_of_directory (h : ∀ step ∈ l, IsStep step)
    (hlocated : t.locate (String.ofList (ofSteps rooted l)) = .ok place) (hplace : t.get? place = some .directory) :
    t.makePath (String.ofList (ofSteps rooted l)) = (t, .ok ()) := by
  have hparts : parts (ofSteps rooted l) ≠ [] := by
    rw [parts_ofSteps h]
    cases rooted with
    | true => simp
    | false => by_cases hl : l = [] <;> simp [hl]
  obtain ⟨n, hn⟩ := Nat.exists_eq_succ_of_ne_zero (List.length_pos_iff.2 hparts).ne'
  have hfirst : ∃ parents, pathAndParents (String.ofList (ofSteps rooted l))
      = String.ofList (ofSteps rooted l) :: parents := by
    rw [pathAndParents, String.toList_ofList, hn, List.range_succ_eq_map, List.map_cons, Nat.sub_zero, ← hn,
      List.take_length, ofParts_parts_ofSteps h]
    exact ⟨_, rfl⟩
  obtain ⟨parents, hparents⟩ := hfirst
  have hmade : t.makeDirectory (String.ofList (ofSteps rooted l)) = .error .alreadyExists := by
    simp only [makeDirectory, hlocated, bind, Except.bind, hplace]
  have hthere : t.isDirectory (String.ofList (ofSteps rooted l)) = true := isDirectory_iff.2 ⟨place, hlocated, hplace⟩
  rw [makePath, hparents, makeDirectories, hmade]
  dsimp only
  rw [hthere, if_pos rfl]

end FileTree

namespace Build

variable {t t' : FileTree} {directory name : String} {place steps p : Place} {entry : FileEntry}
  {bytes old : ByteArray} {build : Build} {item : Item}

/-! ### Paths to what was read -/

namespace Walked

theorem place_eq (hw : Walked t directory place) :
    Place.along (t.start (isRooted directory.toList)) (reduced directory.toList) = place := by
  rw [FileTree.locate_eq hw.located]
  exact Place.along_reduced t.current directory.toList

theorem along_stepsTo (hw : Walked t directory place) (h : ∀ step ∈ steps, IsPlainName step) :
    Place.along (t.start (isRooted directory.toList)) (stepsTo directory steps) = place ++ steps :=
  (Build.along_stepsTo t.current directory h).trans (by rw [FileTree.locate_eq hw.located])

/-- The reduced path leads to the directory, too. -/
theorem locate_reducedPath (hw : Walked t directory place) : t.locate (reducedPath directory) = .ok place := by
  obtain ⟨hne, hsize⟩ := FileTree.size_of_locate hw.located
  have hlocated := hw.wellFormed.locate_ofSteps (isReduced_reduced directory.toList)
    (by rw [hw.place_eq]; exact hw.isDirectory) (Nat.lt_of_le_of_lt (byteSize_clean_le hne) hsize)
  rwa [hw.place_eq] at hlocated

theorem makePath_reducedPath (hw : Walked t directory place) :
    t.makePath (reducedPath directory) = (t, .ok ()) :=
  FileTree.makePath_of_directory (isReduced_reduced directory.toList).isStep hw.locate_reducedPath hw.isDirectory

theorem size_stepsTo (hw : Walked t directory place) (hway : IsWay steps) (h : t.get? (place ++ steps) = some entry) :
    byteSize (ofSteps (isRooted directory.toList) (stepsTo directory steps)) < FileTree.pathLimit := by
  have hshort := hw.short steps entry hway.ne_nil h
  have hpath := reducedPath_walkedPath directory hway
  rw [reducedPath, String.ofList_inj] at hpath
  rw [← hpath]
  rw [← byteSize_toList] at hshort
  refine Nat.lt_of_le_of_lt (byteSize_clean_le ?_) hshort
  intro hempty
  rw [walkedPath, String.toList_ofList] at hempty
  have hsteps := steps_join (a := directory.toList) (isRooted_nameOf hway)
  rw [hempty, steps_nameOf hway] at hsteps
  exact hway.ne_nil (by simpa using (List.append_eq_nil_iff.1 hsteps.symm).2)

/-- **The path made for a file** that was read leads to it. -/
theorem locate_output (hw : Walked t directory place) (hway : IsWay steps)
    (h : t.get? (place ++ steps) = some entry) :
    t.locate (reducedPath (walkedPath directory steps)) = .ok (place ++ steps) := by
  have hlocated := hw.wellFormed.locate_ofSteps (isReduced_stepsTo directory hway.names)
    (by rw [hw.along_stepsTo hway.names]; exact h) (hw.size_stepsTo hway h)
  rwa [hw.along_stepsTo hway.names, ← reducedPath_walkedPath directory hway] at hlocated

/-- The directory of a file that was read is there. -/
theorem makePath_parent (hw : Walked t directory place) (hway : IsWay steps) (h : t.get? (place ++ steps) = some entry)
    (hdot : reducedPath directory ≠ ".") :
    t.makePath ((Path.parent? (reducedPath (walkedPath directory steps)).toList).elim "" String.ofList)
      = (t, .ok ()) := by
  have hform := isReduced_stepsTo directory hway.names
  obtain ⟨front, last, rfl⟩ := steps.eq_nil_or_concat'.resolve_left hway.ne_nil
  have hcut : stepsTo directory (front ++ [last]) = stepsTo directory front ++ [last.toList] := by
    simp [stepsTo]
  have hnames : ∀ step ∈ front, IsPlainName step := fun x hx => hway.names x (List.mem_append_left _ hx)
  have hfront := isReduced_stepsTo directory hnames
  have hplace := hw.along_stepsTo hnames
  have hdirectory : t.get? (place ++ front) = some .directory := by
    refine hw.wellFormed.directory_above h ?_ (by simp)
    rw [← List.append_assoc]
    exact List.prefix_append _ _
  have hsize : byteSize (ofSteps (isRooted directory.toList) (stepsTo directory front)) < FileTree.pathLimit := by
    refine Nat.lt_of_le_of_lt (byteSize_ofSteps_le ?_ hform.isStep) (hw.size_stepsTo hway h)
    rw [hcut]
    exact List.prefix_append _ _
  have hlocated := hw.wellFormed.locate_ofSteps hfront (by rw [hplace]; exact hdirectory) hsize
  rw [parent?_walkedPath hway hdot, List.dropLast_concat]
  exact FileTree.makePath_of_directory hfront.isStep hlocated (by rw [hplace]; exact hdirectory)

/-! ### One file -/

/-- **A file that was read is written back** to where it stood. -/
theorem writeItem (hw : Walked t directory place) (hway : IsWay steps) (hdot : reducedPath directory ≠ ".")
    (h : t.get? (place ++ steps) = some (.file old)) :
    Build.writeItem t (reducedPath directory) (nameOf steps) bytes
      = (t.put (place ++ steps) (.file bytes), .ok ()) := by
  have hlast : (reducedPath (walkedPath directory steps)).toList.getLast? ≠ some '/' := by
    rw [reducedPath_walkedPath directory hway, String.toList_ofList]
    exact getLast?_ofSteps_ne (isReduced_stepsTo directory hway.names).isStep (by simp [stepsTo, hway.ne_nil])
  unfold Build.writeItem
  rw [outputPath_nameOf directory hway, if_neg hdot]
  dsimp only
  rw [hw.makePath_parent hway h hdot]
  dsimp only
  rw [FileTree.write, if_neg (by simpa using hlast), hw.locate_output hway h]
  simp only [bind, Except.bind, h]

/-- What can be walked can be walked after files were changed. -/
theorem edited (hw : Walked t directory place) (h : t.Edited t') : Walked t' directory place := by
  refine ⟨h.wellFormed, h.opensOnly.locate hw.located, h.opensOnly.kept _ hw.isDirectory, fun steps entry hne he => ?_⟩
  have hbefore : t.get? (place ++ steps) ≠ none := by
    intro hnone
    rw [h.none_appears _ hnone] at he
    cases he
  obtain ⟨before, hbefore⟩ := Option.ne_none_iff_exists'.1 hbefore
  exact hw.short steps before hne hbefore

/-- **A file that was read can be deleted**, and one that is gone already is passed over. -/
theorem deleteName (hw : Walked t directory place) (hway : IsWay steps) (hdot : reducedPath directory ≠ ".")
    (h : t.get? (place ++ steps) ≠ some .directory) : ∃ t', t.Edited t' ∧ t'.get? (place ++ steps) = none ∧
      ∀ names, Build.deleteAll t (reducedPath directory) (nameOf steps :: names)
        = Build.deleteAll t' (reducedPath directory) names := by
  cases hentry : t.get? (place ++ steps) with
  | none =>
      have hnot : t.isFile (reducedPath (walkedPath directory steps)) = false := by
        rw [← Bool.not_eq_true, FileTree.isFile_iff]
        rintro ⟨p, bytes, hlocated, hfile⟩
        rw [FileTree.locate_eq hlocated, resolve_output _ _ hway, ← FileTree.locate_eq hw.located, hentry] at hfile
        cases hfile
      refine ⟨t, .refl hw.wellFormed, hentry, fun names => ?_⟩
      rw [Build.deleteAll, outputPath_nameOf directory hway, if_neg hdot]
      dsimp only
      rw [hnot, if_neg Bool.false_ne_true]
  | some entry =>
      cases entry with
      | directory => exact absurd hentry h
      | file old =>
          have hne : place ++ steps ≠ [] := FileTree.ne_nil_of_get? h
          have hlocated := hw.locate_output hway hentry
          refine ⟨t.erase (place ++ steps), hw.wellFormed.edited_erase hentry, ?_, fun names => ?_⟩
          · rw [FileTree.get?_erase t _ hne, if_pos rfl]
          · rw [Build.deleteAll, outputPath_nameOf directory hway, if_neg hdot]
            dsimp only
            rw [if_pos (FileTree.isFile_iff.2 ⟨_, _, hlocated, hentry⟩), FileTree.delete, hlocated]
            simp only [bind, Except.bind, hentry]

end Walked

/-! ### Many files -/

variable {items : List (String × Item)} {names : List String}

/-- A file is a file, whatever bytes files are given. -/
theorem exists_hasFile_put (h : t.get? p = some (.file old)) {before : ByteArray}
    (hname : HasFile t place name before) : ∃ after, HasFile (t.put p (.file bytes)) place name after := by
  obtain ⟨steps, hway, rfl, hfile⟩ := hname
  have hp : t.get? p ≠ some .directory := by simp [h]
  have hget := FileTree.get?_put t (place ++ steps) (.file bytes) (FileTree.ne_nil_of_get? hp)
  split at hget
  · exact ⟨bytes, steps, hway, rfl, hget⟩
  · exact ⟨before, steps, hway, rfl, hget.trans hfile⟩

/-- **Files that were read are written back**, whatever bytes they are given. -/
theorem Walked.writeItems (hw : Walked t directory place) (hdot : reducedPath directory ≠ ".")
    (hitems : ∀ e ∈ items, ∃ old, HasFile t place e.1 old) :
    ∃ t', Build.writeItems t (reducedPath directory) items = (t', .ok ()) ∧ t.Edited t' := by
  induction items generalizing t with
  | nil => exact ⟨t, rfl, .refl hw.wellFormed⟩
  | cons e items ih =>
      obtain ⟨name, item⟩ := e
      obtain ⟨old, steps, hway, rfl, hfile⟩ := hitems _ List.mem_cons_self
      have hfirst : t.Edited (t.put (place ++ steps) (.file item.bytes)) := hw.wellFormed.edited_put hfile
      obtain ⟨t', hrest, hedited⟩ := ih (hw.edited hfirst) fun e he => by
        obtain ⟨before, hbefore⟩ := hitems e (List.mem_cons_of_mem _ he)
        exact exists_hasFile_put hfile hbefore
      refine ⟨t', ?_, hfirst.trans hedited⟩
      rw [Build.writeItems, hw.writeItem hway hdot hfile]
      exact hrest

/-- **Files that were read can be deleted**, and are gone then. -/
theorem Walked.deleteAll (hw : Walked t directory place) (hdot : reducedPath directory ≠ ".")
    (hnames : ∀ name ∈ names, ∃ steps, IsWay steps ∧ name = nameOf steps ∧
      t.get? (place ++ steps) ≠ some .directory) :
    ∃ t', Build.deleteAll t (reducedPath directory) names = (t', .ok ()) ∧ t.Edited t' ∧
      ∀ steps, IsWay steps → nameOf steps ∈ names → t'.get? (place ++ steps) = none := by
  induction names generalizing t with
  | nil => exact ⟨t, rfl, .refl hw.wellFormed, fun _ _ h => absurd h List.not_mem_nil⟩
  | cons name names ih =>
      obtain ⟨steps, hway, rfl, hentry⟩ := hnames _ List.mem_cons_self
      obtain ⟨t₁, hfirst, hgone, hstep⟩ := hw.deleteName hway hdot hentry
      obtain ⟨t', hrest, hedited, hothers⟩ := ih (hw.edited hfirst) fun name hname => by
        obtain ⟨steps, hway, he, hentry⟩ := hnames name (List.mem_cons_of_mem _ hname)
        exact ⟨steps, hway, he, fun hdirectory => hentry (hfirst.directory_iff.1 hdirectory)⟩
      refine ⟨t', (hstep names).trans hrest, hfirst.trans hedited, fun steps' hway' hmem => ?_⟩
      rcases List.mem_cons.1 hmem with he | hmem
      · rw [nameOf_injective hway' hway he]
        exact hedited.none_appears _ hgone
      · exact hothers steps' hway' hmem

/-! ### Builds -/

theorem namesScripts_ofWalk : Fold.NamesScripts (ofWalk t place) := by
  intro name code h
  obtain ⟨raw, bytes, _, _, hitem⟩ := exists_of_get?_ofWalk h
  unfold itemOf at hitem
  split at hitem
  · rename_i hscript
    exact hscript
  · cases hitem

theorem mem_names_readBelow_iff (wf : t.WellFormed) :
    name ∈ (readBelow t place).names ↔ ∃ bytes, HasFile t place name bytes := by
  rw [mem_names_iff, Option.isSome_iff_exists]
  simp only [get?_readBelow_iff wf]
  constructor
  · rintro ⟨item, bytes, hname, _⟩
    exact ⟨bytes, hname⟩
  · rintro ⟨bytes, hname⟩
    exact ⟨_, bytes, hname, rfl⟩

/-- A build with no other files than those that were read can be written back. -/
theorem Walked.write (hw : Walked t directory place) {b : Build}
    (hnames : ∀ name ∈ b.names, ∃ old, HasFile t place name old)
    (hdot : reducedPath directory ≠ "." ∨ b.names = []) :
    ∃ t', b.write t directory = (t', .ok ()) ∧ t.Edited t' := by
  rw [Build.write, hw.makePath_reducedPath]
  dsimp only
  rcases hdot with hdot | hempty
  · exact hw.writeItems hdot fun e he => hnames e.1 (List.mem_map_of_mem he)
  · have hitems : b.items.entries = [] := List.map_eq_nil_iff.1 hempty
    rw [hitems]
    exact ⟨t, rfl, .refl hw.wellFormed⟩

end Build

namespace Fold

open Build

variable {t t₁ t₂ : FileTree} {directory name : String} {place : Place} {build : Build} {options : Options}
  {selection : Glob.Selection}

theorem mem_names_of_mem_names_run (h : name ∈ (run options selection build).build.names) : name ∈ build.names := by
  rw [names_run] at h
  exact List.mem_of_mem_filter h

/-- A run in place on the directory at a place: first the files that are left are written back, then the others
are deleted. -/
structure RunInPlace (options : Options) (selection : Glob.Selection) (t : FileTree) (directory : String)
    (place : Place) (t₁ t₂ : FileTree) : Prop where
  written : (run options selection (readBelow t place)).build.write t directory = (t₁, .ok ())
  rewritten : t.Edited t₁
  pruned : prune t₁ directory (run options selection (readBelow t place)).report.deleted = (t₂, .ok ())
  emptied : t₁.Edited t₂
  gone : ∀ steps, IsWay steps → nameOf steps ∈ (run options selection (readBelow t place)).report.deleted →
    t₂.get? (place ++ steps) = none

/-- **A run in place succeeds** where names are not refused. -/
theorem exists_runInPlace (options : Options) (selection : Glob.Selection) (hw : Walked t directory place)
    (hdot : reducedPath directory ≠ "." ∨ (readBelow t place).names = []) :
    ∃ t₁ t₂, RunInPlace options selection t directory place t₁ t₂ := by
  have hwritten : ∀ name ∈ (run options selection (readBelow t place)).build.names, ∃ old, HasFile t place name old :=
    fun name hname => (mem_names_readBelow_iff hw.wellFormed).1 (mem_names_of_mem_names_run hname)
  have hnone : (readBelow t place).names = [] → (run options selection (readBelow t place)).build.names = [] := by
    intro hempty
    rw [names_run, hempty]
    rfl
  obtain ⟨t₁, hwrite, hfirst⟩ := hw.write hwritten (hdot.imp_right hnone)
  rcases hdot with hdot | hempty
  · have hnames : ∀ name ∈ (run options selection (readBelow t place)).report.deleted, ∃ steps, IsWay steps ∧
        name = nameOf steps ∧ t₁.get? (place ++ steps) ≠ some .directory := by
      intro name hname
      obtain ⟨bytes, steps, hway, he, hfile⟩ :=
        (mem_names_readBelow_iff hw.wellFormed).1 (mem_names_of_mem_deleted hname)
      refine ⟨steps, hway, he, fun hdirectory => ?_⟩
      rw [hfirst.directory_iff, hfile] at hdirectory
      cases hdirectory
    obtain ⟨t₂, hprune, hsecond, hgone⟩ := (hw.edited hfirst).deleteAll hdot hnames
    exact ⟨t₁, t₂, hwrite, hfirst, hprune, hsecond, hgone⟩
  · have hdeleted : (run options selection (readBelow t place)).report.deleted = [] := by
      refine List.eq_nil_iff_forall_not_mem.2 fun name hname => ?_
      have hmem := mem_names_of_mem_deleted hname
      rw [hempty] at hmem
      cases hmem
    refine ⟨t₁, t₁, hwrite, hfirst, ?_, .refl hfirst.wellFormed, fun _ _ h => ?_⟩
    · rw [hdeleted]
      rfl
    · rw [hdeleted] at h
      cases h

/-- What such a run leaves. -/
theorem RunInPlace.runDirectory_eq (hr : RunInPlace options selection t directory place t₁ t₂)
    (hread : Build.read t directory = .ok (readBelow t place)) :
    (runDirectory options selection t directory none).files = t₂ ∧
      (runDirectory options selection t directory none).result
        = .ok (run options selection (readBelow t place)).report := by
  unfold runDirectory
  rw [hread]
  simp only [Option.getD_none, hr.written, hr.pruned, and_self]

/-- Where all names are refused, a run in place stops at the first one. -/
theorem refused_in_place (options : Options) (selection : Glob.Selection) (hw : Walked t directory place)
    (hread : Build.read t directory = .ok build) (hscripts : NamesScripts build) (hnames : AreWays build.names)
    (hdot : reducedPath directory = ".") (hne : build.names ≠ []) : ∃ name ∈ build.names,
      (runDirectory options selection t directory none).result = .error (.escapes name ".") := by
  have hleft := names_run_ne_nil options selection hscripts hne
  obtain ⟨⟨name, item⟩, items, hitems⟩ := List.exists_cons_of_ne_nil fun hnil => hleft (List.map_eq_nil_iff.2 hnil)
  have hmem : name ∈ (run options selection build).build.names := by
    rw [names, Table.keys, hitems]
    exact List.mem_cons_self
  have hname := mem_names_of_mem_names_run hmem
  have hrefused : outputPath (reducedPath directory) name = .error (.escapes name ".") := by
    obtain ⟨steps, hway, rfl⟩ := hnames name hname
    rw [outputPath_nameOf directory hway, if_pos hdot]
  have hwrite : (run options selection build).build.write t directory = (t, .error (.escapes name ".")) := by
    rw [Build.write, hw.makePath_reducedPath]
    dsimp only
    rw [hitems, Build.writeItems, Build.writeItem, hrefused]
  refine ⟨name, hname, ?_⟩
  unfold runDirectory
  rw [hread]
  simp only [Option.getD_none, hwrite]

/-! ### Names that are refused -/

/-- The error says that a name is refused. -/
def RefusesName (error : DiskError) : Prop := error = .nulInName ∨ ∃ name directory, error = .escapes name directory

theorem writeItems_not_refused {items : List (String × Item)} {error : DiskError}
    (hpaths : ∀ e ∈ items, ∃ path, outputPath directory e.1 = .ok path)
    (h : (writeItems t directory items).2 = .error error) : ¬ RefusesName error := by
  induction items generalizing t with
  | nil => cases h
  | cons e items ih =>
      obtain ⟨name, item⟩ := e
      obtain ⟨path, hpath⟩ := hpaths _ List.mem_cons_self
      unfold writeItems at h
      split at h
      · exact ih (fun e he => hpaths e (List.mem_cons_of_mem _ he)) h
      · rename_i hfirst
        cases h
        unfold writeItem at hfirst
        rw [hpath] at hfirst
        dsimp only at hfirst
        split at hfirst
        · cases hfirst
          simp [RefusesName]
        · split at hfirst
          · cases hfirst
          · cases hfirst
            simp [RefusesName]

theorem write_not_refused {error : DiskError}
    (hpaths : ∀ name ∈ build.names, ∃ path, outputPath (reducedPath directory) name = .ok path)
    (h : (build.write t directory).2 = .error error) : ¬ RefusesName error := by
  unfold Build.write at h
  dsimp only at h
  split at h
  · cases h
    simp [RefusesName]
  · exact writeItems_not_refused (fun e he => hpaths e.1 (List.mem_map_of_mem he)) h

theorem deleteAll_not_refused {names : List String} {error : DiskError}
    (hpaths : ∀ name ∈ names, ∃ path, outputPath directory name = .ok path)
    (h : (deleteAll t directory names).2 = .error error) : ¬ RefusesName error := by
  induction names generalizing t with
  | nil => cases h
  | cons name names ih =>
      obtain ⟨path, hpath⟩ := hpaths _ List.mem_cons_self
      have hrest : ∀ name ∈ names, ∃ path, outputPath directory name = .ok path :=
        fun name hname => hpaths name (List.mem_cons_of_mem _ hname)
      rw [deleteAll, hpath] at h
      dsimp only at h
      split at h
      · split at h
        · exact ih hrest h
        · cases h
          simp [RefusesName]
      · exact ih hrest h

/-- **A run in place refuses no name** that was read, unless the directory is spelled like `.`. -/
theorem run_not_refused (options : Options) (selection : Glob.Selection)
    (hread : Build.read t directory = .ok build) (hnames : AreWays build.names)
    (hdot : reducedPath directory ≠ "." ∨ build.names = []) {error : DiskError}
    (h : (runDirectory options selection t directory none).result = .error error) : ¬ RefusesName error := by
  have hpaths : ∀ name ∈ build.names, ∃ path, outputPath (reducedPath directory) name = .ok path := by
    intro name hname
    obtain ⟨steps, hway, rfl⟩ := hnames name hname
    rw [outputPath_nameOf directory hway, if_neg (hdot.resolve_right (List.ne_nil_of_mem hname))]
    exact ⟨_, rfl⟩
  unfold runDirectory at h
  rw [hread] at h
  simp only [Option.getD_none] at h
  split at h
  · rename_i hwritten
    cases h
    exact write_not_refused (fun name hname => hpaths name (mem_names_of_mem_names_run hname))
      (congrArg Prod.snd hwritten)
  · split at h
    · rename_i hpruned
      cases h
      exact deleteAll_not_refused (fun name hname => hpaths name (mem_names_of_mem_deleted hname))
        (congrArg Prod.snd hpruned)
    · cases h

/-- **Which builds can be written back.**  Let a directory be read, and a run in place follow.  The path made for
each name is the reduced form of the one that the directory and the name make, and the run refuses no name; it
succeeds if the directory holds no strays, so that this is the path by which the file was read.  But if the
directory is spelled like `.`, all names are refused, and when there are files the run stops at a refused name. -/
theorem written_back_iff (wf : t.WellFormed) (hdirectory : t.isDirectory directory = true)
    (hread : Build.read t directory = .ok build) :
    (∀ name ∈ build.names, outputPath (reducedPath directory) name
      = if reducedPath directory = "." then .error (.escapes name ".")
        else .ok (reducedPath (String.ofList (join directory.toList name.toList)))) ∧
    ∀ options selection,
      ((reducedPath directory ≠ "." ∨ build.names = []) →
        (∀ error, (runDirectory options selection t directory none).result = .error error → ¬ RefusesName error) ∧
        (t.straysBelow (.resolve t.current directory) = [] →
          (runDirectory options selection t directory none).result = .ok (run options selection build).report)) ∧
      (reducedPath directory = "." → build.names ≠ [] → ∃ name ∈ build.names,
        (runDirectory options selection t directory none).result = .error (.escapes name ".")) := by
  obtain ⟨place, hw, _, rfl⟩ := (read_eq_ok_iff wf hdirectory).1 hread
  have hnames : AreWays (ofWalk t place).names := areWays_ofWalk wf
  refine ⟨fun name hname => ?_, fun options selection => ⟨fun hdot => ⟨fun error h => ?_, fun hnamed => ?_⟩,
    fun hdot hne => ?_⟩⟩
  · obtain ⟨steps, hway, rfl⟩ := hnames name hname
    exact outputPath_nameOf directory hway
  · exact run_not_refused options selection hread hnames hdot h
  · rw [← FileTree.locate_eq hw.located] at hnamed
    rw [ofWalk_eq_readBelow wf hnamed] at hread hdot ⊢
    obtain ⟨t₁, t₂, hr⟩ := exists_runInPlace options selection hw hdot
    exact (hr.runDirectory_eq hread).2
  · exact refused_in_place options selection hw hread namesScripts_ofWalk hnames hdot hne

/-- Paths are followed from `/work`; a site stands in `/work/site`. -/
def workTree : FileTree :=
  .ofList ["work"] [(["work", "site", "index.html"], .file "<p>".toUTF8),
    (["work", "site", "js", "a.js"], .file ⟨#[120]⟩)]

theorem siteDirectory_written_back :
    workTree.WellFormed ∧ workTree.isDirectory "./site/../site/" = true ∧
    ∃ build, Build.read workTree "./site/../site/" = .ok build ∧ build.names = ["index.html", "js/a.js"] ∧
      outputPath (reducedPath "./site/../site/") "js/a.js" = .ok "site/js/a.js" ∧
      (runDirectory {} ⟨[]⟩ workTree "./site/../site/" none).result = .ok (run {} ⟨[]⟩ build).report := by
  have hwellFormed : workTree.WellFormed := by decide +kernel
  have hdirectory : workTree.isDirectory "./site/../site/" = true := by decide +kernel
  have hnames : (Build.read workTree "./site/../site/").map Build.names = .ok ["index.html", "js/a.js"] := by
    decide +kernel
  refine ⟨hwellFormed, hdirectory, ?_⟩
  cases hread : Build.read workTree "./site/../site/" with
  | error error =>
      rw [hread] at hnames
      cases hnames
  | ok build =>
      rw [hread] at hnames
      have hnames : build.names = ["index.html", "js/a.js"] := Except.ok.inj hnames
      obtain ⟨haccepted, hrun⟩ := written_back_iff hwellFormed hdirectory hread
      refine ⟨build, rfl, hnames, ?_, ((hrun {} ⟨[]⟩).1 (.inl (by decide +kernel))).2 (by decide +kernel)⟩
      rw [haccepted "js/a.js" (by simp [hnames])]
      decide +kernel

/-- From `/work/site` the directory `.` can be read, but its file cannot be written back. -/
theorem currentDirectory_refused :
    let t : FileTree := .ofList ["work", "site"] [(["work", "site", "a.js"], .file ⟨#[120]⟩)]
    t.WellFormed ∧ t.isDirectory "." = true ∧ (Build.read t ".").map Build.names = .ok ["a.js"] ∧
    outputPath (reducedPath ".") "a.js" = .error (.escapes "a.js" ".") ∧
    (runDirectory {} ⟨[]⟩ t "." none).result.map (fun _ => ()) = .error (.escapes "a.js" ".") := by
  refine ⟨?_, ?_, ?_, ?_, ?_⟩
  · decide +kernel
  · decide +kernel
  · decide +kernel
  · decide +kernel
  · decide +kernel

end Fold

end Pagefold
