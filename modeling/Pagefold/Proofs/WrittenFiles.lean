import Pagefold.Proofs.WalkedBuilds

/-! # What writing and deleting leave on disk

Let files be written below a directory under names as a reader gives them.  Each file that was written has its
bytes afterwards (`file?_of_writeItems`), and files stand where they stood except at the places of those names
(`outputPlace_iff`).  A directory can appear only where the way to such a place goes through
(`write_opensOnly`), so nothing changes beside the output directory. -/

namespace Pagefold

open Pagefold.Path Pagefold.Text

namespace Build

variable {t t' : FileTree} {out name path : String} {current place steps p : Place} {bytes : ByteArray} {build : Build}
  {item : Item} {items : List (String × Item)} {names : List String} {l : List (List Char)} {rooted : Bool}

/-! ### Files -/

/-- Where files of such names are put. -/
theorem outputPlace_iff (hdot : reducedPath out ≠ ".") (hnames : AreWays names) :
    OutputPlace (reducedPath out) names current p
      ↔ ∃ steps, IsWay steps ∧ nameOf steps ∈ names ∧ p = Place.resolve current out ++ steps := by
  constructor
  · rintro ⟨name, hname, path, hpath, rfl⟩
    obtain ⟨steps, hway, rfl⟩ := hnames name hname
    rw [outputPath_nameOf out hway, if_neg hdot] at hpath
    cases hpath
    exact ⟨steps, hway, hname, resolve_output current out hway⟩
  · rintro ⟨steps, hway, hname, rfl⟩
    refine ⟨nameOf steps, hname, _, ?_, (resolve_output current out hway).symm⟩
    rw [outputPath_nameOf out hway, if_neg hdot]

/-- Where all names are refused, no file is put anywhere. -/
theorem not_outputPlace (hdot : reducedPath out = ".") (hnames : AreWays names) :
    ¬ OutputPlace (reducedPath out) names current p := by
  rintro ⟨name, hname, path, hpath, _⟩
  obtain ⟨steps, hway, rfl⟩ := hnames name hname
  rw [outputPath_nameOf out hway, if_pos hdot] at hpath
  cases hpath

theorem exists_of_outputPlace (hnames : AreWays names) (h : OutputPlace (reducedPath out) names current p) :
    ∃ steps, IsWay steps ∧ nameOf steps ∈ names ∧ p = Place.resolve current out ++ steps := by
  by_cases hdot : reducedPath out = "."
  · exact absurd h (not_outputPlace hdot hnames)
  · exact (outputPlace_iff hdot hnames).1 h

/-- The path of the directory in which the file of a name is put. -/
def parentPath (directory : String) (steps : Place) : String :=
  String.ofList (ofSteps (isRooted directory.toList) (stepsTo directory steps.dropLast))

/-- **What writing one file does.**  First the directory is made, then the file is put. -/
theorem writeItem_eq_ok (hway : IsWay steps)
    (h : writeItem t (reducedPath out) (nameOf steps) bytes = (t', .ok ())) :
    ∃ t₁, t.makePath (parentPath out steps) = (t₁, .ok ()) ∧
      t₁.write (reducedPath (walkedPath out steps)) bytes = .ok t' := by
  unfold writeItem at h
  rw [outputPath_nameOf out hway] at h
  by_cases hdot : reducedPath out = "."
  · rw [if_pos hdot] at h
    cases h
  · rw [if_neg hdot] at h
    dsimp only at h
    rw [parent?_walkedPath hway hdot] at h
    split at h
    · cases h
    · rename_i t₁ hmade
      split at h
      · rename_i t₂ hwritten
        cases h
        exact ⟨t₁, hmade, hwritten⟩
      · cases h

theorem writeItems_cons_eq_ok (h : writeItems t out ((name, item) :: items) = (t', .ok ())) :
    ∃ t₁, writeItem t out name item.bytes = (t₁, .ok ()) ∧ writeItems t₁ out items = (t', .ok ()) := by
  unfold writeItems at h
  split at h
  · rename_i t₁ hfirst
    exact ⟨t₁, hfirst, h⟩
  · cases h

theorem current_of_makePath (h : t.makePath path = (t', .ok ())) : t'.current = t.current := by
  have hsame := (FileTree.makeDirectories_altersOnly (fun _ => True) t (pathAndParents path)).current
  rw [FileTree.makePath] at h
  rwa [h] at hsame

theorem current_of_writeItem (h : writeItem t out name bytes = (t', .ok ())) : t'.current = t.current := by
  have hsame : FileTree.AltersOnly (fun _ => True) t (writeItem t out name bytes).1 :=
    writeItem_altersOnly fun _ _ => trivial
  rw [h] at hsame
  exact hsame.current

/-- What was written stands there. -/
theorem file?_of_writeItem (hway : IsWay steps)
    (h : writeItem t (reducedPath out) (nameOf steps) bytes = (t', .ok ())) :
    t'.file? (Place.resolve t.current out ++ steps) = some bytes := by
  obtain ⟨t₁, hmade, hwritten⟩ := writeItem_eq_ok hway h
  obtain ⟨place, hlocated, hentry, rfl⟩ := FileTree.write_eq_ok hwritten
  have hplace : place = Place.resolve t.current out ++ steps := by
    rw [FileTree.locate_eq hlocated, current_of_makePath hmade, resolve_output t.current out hway]
  rw [← hplace, FileTree.file?, FileTree.get?_put _ _ _ (FileTree.ne_nil_of_get? hentry), if_pos rfl]

/-- Files of other names stay. -/
theorem file?_of_altersOnly (hnames : AreWays names)
    (h : FileTree.AltersOnly (OutputPlace (reducedPath out) names t.current) t t') (hnot : nameOf steps ∉ names) :
    t'.file? (Place.resolve t.current out ++ steps) = t.file? (Place.resolve t.current out ++ steps) := by
  by_contra hne
  obtain ⟨steps', _, hmem, he⟩ := exists_of_outputPlace hnames (h.files _ hne)
  rw [List.append_cancel_left he] at hnot
  exact hnot hmem

/-- **Each file that was written has its bytes** after the others were written. -/
theorem file?_of_writeItems (hnames : AreWays (items.map (·.1))) (hnodup : (items.map (·.1)).Nodup)
    (h : writeItems t (reducedPath out) items = (t', .ok ())) (hway : IsWay steps)
    (hmem : (nameOf steps, item) ∈ items) : t'.file? (Place.resolve t.current out ++ steps) = some item.bytes := by
  induction items generalizing t with
  | nil => cases hmem
  | cons e items ih =>
      obtain ⟨name, first⟩ := e
      have hrest : AreWays (items.map (·.1)) := fun x hx => hnames x (List.mem_cons_of_mem _ hx)
      rw [List.map_cons, List.nodup_cons] at hnodup
      obtain ⟨t₁, hfirst, hothers⟩ := writeItems_cons_eq_ok h
      have hcurrent := current_of_writeItem hfirst
      rcases List.mem_cons.1 hmem with he | hmem
      · cases he
        -- The files that are written later have other names, so they stand elsewhere.
        have halters : FileTree.AltersOnly (OutputPlace (reducedPath out) (items.map (·.1)) t₁.current) t₁
            (writeItems t₁ (reducedPath out) items).1 :=
          writeItems_altersOnly fun e he path hpath => ⟨e.1, List.mem_map_of_mem he, path, hpath, rfl⟩
        rw [hothers] at halters
        rw [← hcurrent, file?_of_altersOnly hrest halters hnodup.1, hcurrent]
        exact file?_of_writeItem hway hfirst
      · rw [← hcurrent]
        exact ih hrest hnodup.2 hothers hmem

theorem write_eq_ok (h : build.write t out = (t', .ok ())) :
    ∃ t₁, t.makePath (reducedPath out) = (t₁, .ok ()) ∧
      writeItems t₁ (reducedPath out) build.items.entries = (t', .ok ()) := by
  unfold Build.write at h
  dsimp only at h
  split at h
  · cases h
  · rename_i t₁ hmade
    exact ⟨t₁, hmade, h⟩

theorem file?_of_write (hnames : AreWays build.names) (h : build.write t out = (t', .ok ())) (hway : IsWay steps)
    (hitem : build.get? (nameOf steps) = some item) :
    t'.file? (Place.resolve t.current out ++ steps) = some item.bytes := by
  obtain ⟨t₁, hmade, hwritten⟩ := write_eq_ok h
  rw [← current_of_makePath hmade]
  exact file?_of_writeItems hnames build.items.keys_nodup hwritten hway (Table.get?_eq_some_iff.1 hitem)

/-- Each file of a build that was written stands below the directory. -/
theorem hasFile_of_write (hnames : AreWays build.names) (h : build.write t out = (t', .ok ()))
    (hitem : build.get? name = some item) : HasFile t' (Place.resolve t.current out) name item.bytes := by
  obtain ⟨steps, hway, rfl⟩ := hnames name (mem_names_iff.2 (by rw [hitem]; rfl))
  exact ⟨steps, hway, rfl, FileTree.file?_eq_some_iff.1 (file?_of_write hnames h hway hitem)⟩

/-- Files of such names are below the directory. -/
theorem below_of_names (hnames : AreWays names) (h : OutputPlace (reducedPath out) names current p) :
    Place.Below (Place.resolve current out) p := by
  obtain ⟨steps, hway, _, rfl⟩ := exists_of_outputPlace hnames h
  exact ⟨List.prefix_append _ _, by simpa using hway.ne_nil⟩

/-! ### Directories -/

/-- A place that reduced steps pass or reach. -/
def OnWay (start : Place) (l : List (List Char)) (p : Place) : Prop :=
  ∃ front, front <+: l ∧ p = Place.along start front

theorem resolve_ofSteps (current : Place) (h : ∀ step ∈ l, IsStep step) :
    Place.resolve current (String.ofList (ofSteps rooted l)) = Place.along (if rooted then [] else current) l := by
  rw [Place.resolve, String.toList_ofList, isRooted_ofSteps h, steps_ofSteps h]

/-- The directories that are made for a path are on the way of its steps. -/
theorem onWay_of_mem_pathAndParents (h : ∀ step ∈ l, IsStep step)
    (hpath : path ∈ pathAndParents (String.ofList (ofSteps rooted l))) :
    OnWay (if rooted then [] else current) l (Place.resolve current path) := by
  have hsub : ∀ n, ∀ step ∈ l.take n, IsStep step := fun n step hstep => h step (List.mem_of_mem_take hstep)
  rw [pathAndParents, String.toList_ofList] at hpath
  obtain ⟨n, hn, rfl⟩ := List.mem_map.1 hpath
  have hlt : n < (parts (ofSteps rooted l)).length := List.mem_range.1 hn
  obtain ⟨k, hk⟩ := Nat.exists_eq_succ_of_ne_zero (Nat.sub_pos_of_lt hlt).ne'
  rw [hk, parts_ofSteps h]
  cases rooted with
  | true =>
      refine ⟨l.take k, List.take_prefix _ _, ?_⟩
      rw [← resolve_ofSteps current (hsub k)]
      rfl
  | false =>
      by_cases hl : l = []
      · subst hl
        refine ⟨[], List.prefix_rfl, ?_⟩
        rw [← resolve_ofSteps current (by simp), if_neg Bool.false_ne_true, if_pos rfl, List.take_succ_cons,
          List.take_nil]
        rfl
      · refine ⟨l.take (k + 1), List.take_prefix _ _, ?_⟩
        rw [if_neg Bool.false_ne_true, if_neg hl, ofParts_eq (hsub (k + 1)) (by simpa using hl),
          resolve_ofSteps current (hsub (k + 1))]

/-- A place that one passes or reaches on the way to a directory or to a file below it. -/
def TowardOutput (current : Place) (out : String) (p : Place) : Prop :=
  ∃ steps : Place, (∀ step ∈ steps, IsPlainName step) ∧
    OnWay (if isRooted out.toList then [] else current) (stepsTo out steps) p

theorem makePath_opensOnly (t : FileTree) (out : String) (h : ∀ step ∈ steps, IsPlainName step) :
    FileTree.OpensOnly (TowardOutput t.current out) t
      (t.makePath (String.ofList (ofSteps (isRooted out.toList) (stepsTo out steps)))).1 :=
  FileTree.makeDirectories_opensOnly fun _ hpath =>
    ⟨steps, h, onWay_of_mem_pathAndParents (isReduced_stepsTo out h).isStep hpath⟩

theorem writeItem_opensOnly (hway : IsWay steps)
    (h : writeItem t (reducedPath out) (nameOf steps) bytes = (t', .ok ())) :
    FileTree.OpensOnly (TowardOutput t.current out) t t' := by
  obtain ⟨t₁, hmade, hwritten⟩ := writeItem_eq_ok hway h
  have hfirst : FileTree.OpensOnly (TowardOutput t.current out) t (t.makePath (parentPath out steps)).1 :=
    makePath_opensOnly t out fun step hstep => hway.names step (List.dropLast_subset steps hstep)
  rw [hmade] at hfirst
  exact hfirst.trans (FileTree.write_opensOnly hwritten)

theorem writeItems_opensOnly (hnames : AreWays (items.map (·.1)))
    (h : writeItems t (reducedPath out) items = (t', .ok ())) :
    FileTree.OpensOnly (TowardOutput t.current out) t t' := by
  induction items generalizing t with
  | nil =>
      cases h
      exact .refl _ _
  | cons e items ih =>
      obtain ⟨name, item⟩ := e
      obtain ⟨steps, hway, rfl⟩ := hnames name List.mem_cons_self
      obtain ⟨t₁, hfirst, hothers⟩ := writeItems_cons_eq_ok h
      have hrest := ih (fun x hx => hnames x (List.mem_cons_of_mem _ hx)) hothers
      rw [current_of_writeItem hfirst] at hrest
      exact (writeItem_opensOnly hway hfirst).trans hrest

/-- **Where directories appear** when a build is written: on the way to the output directory or to a file in
it. -/
theorem write_opensOnly (hnames : AreWays build.names) (h : build.write t out = (t', .ok ())) :
    FileTree.OpensOnly (TowardOutput t.current out) t t' := by
  obtain ⟨t₁, hmade, hwritten⟩ := write_eq_ok h
  have hnone : ∀ step ∈ ([] : Place), IsPlainName step := fun _ hstep => absurd hstep List.not_mem_nil
  have hfirst := makePath_opensOnly t out hnone
  rw [show stepsTo out [] = reduced out.toList from List.append_nil _] at hfirst
  change FileTree.OpensOnly _ t (t.makePath (reducedPath out)).1 at hfirst
  rw [hmade] at hfirst
  have hrest := writeItems_opensOnly hnames hwritten
  rw [current_of_makePath hmade] at hrest
  exact hfirst.trans hrest

/-- Such a place is a directory already, or above something in the output directory. -/
theorem toward_cases (wf : t.WellFormed) (h : TowardOutput t.current out p) :
    t.get? p = some .directory ∨ ∃ steps, p <+: Place.resolve t.current out ++ steps := by
  obtain ⟨steps, hsteps, front, hfront, rfl⟩ := h
  rcases Place.along_front (isReduced_stepsTo out hsteps) hfront (t.start (isRooted out.toList)) with
    habove | ⟨more, hmore, _⟩
  · exact .inl (wf.directory_of_prefix (wf.directory_start _) habove)
  · refine .inr ⟨steps, more, ?_⟩
    rw [← along_stepsTo t.current out hsteps]
    exact hmore.symm

theorem write_opensToward (wf : t.WellFormed) (hnames : AreWays build.names) (h : build.write t out = (t', .ok ())) :
    FileTree.OpensOnly (fun p => ∃ steps, p <+: Place.resolve t.current out ++ steps) t t' := by
  have hopens := write_opensOnly hnames h
  refine ⟨hopens.current, hopens.kept, fun p hp => ?_⟩
  rcases hopens.opened p hp with hbefore | htoward
  · exact .inl hbefore
  · exact toward_cases wf htoward

/-- If the output directory is there, directories appear below it only. -/
theorem write_opensBelow (wf : t.WellFormed) (hthere : t.get? (Place.resolve t.current out) = some .directory)
    (hnames : AreWays build.names) (h : build.write t out = (t', .ok ())) :
    FileTree.OpensOnly (Place.Below (Place.resolve t.current out)) t t' := by
  have hopens := write_opensToward wf hnames h
  refine ⟨hopens.current, hopens.kept, fun p hp => ?_⟩
  rcases hopens.opened p hp with hbefore | ⟨steps, htoward⟩
  · exact .inl hbefore
  · rcases List.prefix_or_prefix_of_prefix htoward (List.prefix_append _ steps) with habove | hbelow
    · exact .inl (wf.directory_of_prefix hthere habove)
    · by_cases hsame : Place.resolve t.current out = p
      · exact .inl (hsame ▸ hthere)
      · exact .inr ⟨hbelow, hsame⟩

/-- No directory appears when files are deleted. -/
theorem deleteAll_opensOnly (P : Place → Prop) (t : FileTree) (directory : String) (names : List String) :
    FileTree.OpensOnly P t (deleteAll t directory names).1 := by
  induction names generalizing t with
  | nil => exact .refl P t
  | cons name names ih =>
      unfold deleteAll
      split
      · exact .refl P t
      · split
        · split
          · rename_i hdeleted
            exact (FileTree.delete_opensOnly hdeleted).trans (ih _)
          · exact .refl P t
        · exact ih t

end Build

end Pagefold
