import Pagefold.Proofs.Trees

/-! # Where files are put

The path that is made for the name of a file continues the steps of the directory
(`exists_rest_of_outputPath`).  What it adds are names, so that the file lies below the directory, unless
the directory does nothing but climb: then a name that climbs too goes past it (`LeadsOut`).  That is
the only way out (`below_iff`).

Writing a build and deleting files alter no files but those at the paths made for the names
(`Build.write_altersOnly`, `Build.prune_altersOnly`), so none elsewhere but for such a name
(`output_below`). -/

namespace Pagefold

open Pagefold.Path

variable {directory name path : String} {current place : Place}

/-! ### Below a directory -/

/-- The path does nothing but climb. -/
def OnlyClimbs (path : String) : Prop :=
  reduced path.toList ≠ [] ∧ ∀ step ∈ reduced path.toList, step = up

/-- The path climbs first. -/
def ClimbsFirst (path : String) : Prop := (reduced path.toList).head? = some up

/-- The name leads out of the directory. -/
def LeadsOut (directory name : String) : Prop := OnlyClimbs directory ∧ ClimbsFirst name

instance : Decidable (OnlyClimbs path) := inferInstanceAs (Decidable (_ ∧ _))

instance : Decidable (ClimbsFirst path) := inferInstanceAs (Decidable (_ = _))

instance : Decidable (LeadsOut directory name) := inferInstanceAs (Decidable (_ ∧ _))

theorem OnlyClimbs.isRooted (h : OnlyClimbs directory) : isRooted directory.toList = false := by
  obtain ⟨climbs, names, hsteps, hnames, hrooted⟩ := isReduced_reduced directory.toList
  rw [← Bool.not_eq_true]
  intro hr
  rw [hrooted hr, List.replicate_zero, List.nil_append] at hsteps
  obtain ⟨step, hstep⟩ := List.exists_mem_of_ne_nil _ h.1
  exact (hnames step (hsteps ▸ hstep)).ne_up (h.2 step hstep)

/-- Of two reduced paths, the one that lies below the other has its steps and more.  Below `.` lies
nothing. -/
theorem exists_rest_of_liesBelow {d p : List Char} (h : liesBelow (clean d) (clean p) = true) :
    isRooted p = isRooted d ∧ (isRooted d = false → reduced d ≠ []) ∧
      ∃ rest, rest ≠ [] ∧ reduced p = reduced d ++ rest := by
  rw [liesBelow, Bool.and_eq_true, bne_iff_ne, List.isPrefixOf_iff_prefix] at h
  obtain ⟨⟨rest, hrest⟩, hne⟩ := h
  have hmore : rest ≠ [] := fun he => hne (by rw [← hrest, he, List.append_nil])
  have hsub : ∀ part ∈ parts (clean d), part ∈ parts (clean p) := fun part hpart =>
    hrest ▸ List.mem_append_left _ hpart
  cases hd : isRooted d with
  | true =>
      have hp : isRooted p = true := root_mem_parts_clean_iff.1 (hsub _ (root_mem_parts_clean_iff.2 hd))
      refine ⟨hp, by simp, rest, hmore, ?_⟩
      rw [parts_clean, parts_clean, hd, hp, if_pos rfl, if_pos rfl, List.cons_append, List.cons.injEq] at hrest
      exact hrest.2.symm
  | false =>
      have hp : isRooted p = false := by
        rw [← Bool.not_eq_true]
        intro hp
        cases hparts : parts (clean d) with
        | nil => exact parts_clean_ne_nil d hparts
        | cons first others =>
            rw [hparts, parts_clean, if_pos hp, List.cons_append, List.cons.injEq] at hrest
            have hroot : ['/'] ∈ parts (clean d) := by
              rw [hparts, hrest.1]
              exact List.mem_cons_self
            rw [root_mem_parts_clean_iff, hd] at hroot
            cases hroot
      have hp' : reduced p ≠ [] := by
        intro hp'
        have hlength := congrArg List.length hrest
        rw [parts_clean p, hp, if_neg (by simp), if_pos hp', List.length_append] at hlength
        have hdirectory := List.length_pos_iff.2 (parts_clean_ne_nil d)
        have hpos := List.length_pos_iff.2 hmore
        simp only [List.length_singleton] at hlength
        omega
      have hd' : reduced d ≠ [] := fun hd' =>
        hp' ((dot_mem_parts_clean_iff hp).1 (hsub _ ((dot_mem_parts_clean_iff hd).2 hd')))
      refine ⟨hp, fun _ => hd', rest, hmore, ?_⟩
      rw [parts_clean_of_relative hd hd', parts_clean_of_relative hp hp'] at hrest
      exact hrest.symm

/-- The path of a name goes on where the reduced directory ends. -/
theorem exists_rest_of_outputPath (h : outputPath (reducedPath directory) name = .ok path) :
    ∃ p, p = join (clean directory.toList) (clean name.toList) ∧ path = String.ofList (clean p) ∧
      isRooted p = isRooted directory.toList ∧
      (isRooted directory.toList = false → reduced directory.toList ≠ []) ∧
      ∃ rest, rest ≠ [] ∧ reduced p = reduced directory.toList ++ rest := by
  unfold outputPath at h
  rw [reducedPath, String.toList_ofList] at h
  split at h
  · cases h
  · dsimp only at h
    split at h
    · rename_i hbelow
      exact ⟨_, rfl, (Except.ok.inj h).symm, exists_rest_of_liesBelow hbelow⟩
    · cases h

/-- The steps that a directory climbs and those of a name follow each other. -/
theorem reduced_join_of_onlyClimbs (hd : OnlyClimbs directory) (hn : isRooted name.toList = false) :
    reduced (join (clean directory.toList) (clean name.toList))
      = reduced directory.toList ++ reduced name.toList := by
  have hclimbs : reduced directory.toList = List.replicate (reduced directory.toList).length up :=
    List.eq_replicate_of_mem hd.2
  obtain ⟨climbs, names, hname, hnames, _⟩ := isReduced_reduced name.toList
  have hreduced : IsReduced false (reduced directory.toList ++ reduced name.toList) := by
    refine ⟨(reduced directory.toList).length + climbs, names, ?_, hnames, by simp⟩
    rw [hname, ← List.append_assoc, ← List.replicate_append_replicate, ← hclimbs]
  have hn' : isRooted (clean name.toList) = false := by rw [isRooted_clean, hn]
  rw [reduced, isRooted_join, isRooted_clean, isRooted_clean, hn, hd.isRooted, steps_join hn', steps_clean,
    steps_clean, Bool.or_self, hreduced.foldl_walk, List.reverse_reverse]

/-- What the path of a name adds to a directory that only climbs is the name. -/
theorem rest_eq_of_onlyClimbs (hd : OnlyClimbs directory) {rest : List (List Char)} {p : List Char}
    (hp : p = join (clean directory.toList) (clean name.toList))
    (hrooted : isRooted p = isRooted directory.toList)
    (hrest : reduced p = reduced directory.toList ++ rest) : rest = reduced name.toList := by
  have hn : isRooted name.toList = false := by
    rw [hp, isRooted_join, isRooted_clean, isRooted_clean, hd.isRooted, Bool.or_false] at hrooted
    exact hrooted
  rw [hp, reduced_join_of_onlyClimbs hd hn] at hrest
  exact (List.append_cancel_left hrest).symm

open Place in
/-- Where the path of a name leads, seen from where the directory leads. -/
theorem resolve_of_rest {p : List Char} {rest : List (List Char)}
    (hrooted : isRooted p = isRooted directory.toList)
    (hrest : reduced p = reduced directory.toList ++ rest) :
    resolve current (String.ofList (clean p)) = along (resolve current directory) rest := by
  rw [resolve_clean, hrooted, hrest, along_append, along_reduced]
  rfl

/-- Behind steps that only climb, a path that climbs first leads away from a deep enough directory. -/
theorem exists_not_below {l rest : List (List Char)} (hl : ∀ step ∈ l, step = up) (hform : IsReduced false rest)
    (hclimbs : rest.head? = some up) :
    ∃ current, ¬ Place.Below (Place.along current l) (Place.along (Place.along current l) rest) := by
  obtain ⟨climbs, names, rfl, hnames, _⟩ := hform
  have hpos : 0 < climbs := by
    refine Nat.pos_of_ne_zero ?_
    rintro rfl
    exact (hnames up (List.mem_of_mem_head? hclimbs)).ne_up rfl
  have hother : ∃ step, (names.map String.ofList).head? ≠ some step := by
    by_cases ha : (names.map String.ofList).head? = some "a"
    · exact ⟨"b", by simp [ha]⟩
    · exact ⟨"a", ha⟩
  obtain ⟨step, hstep⟩ := hother
  have hhere : Place.along (List.replicate (l.length + 1) step) l = [step] := by
    conv_lhs => rw [List.eq_replicate_of_mem hl, List.length_replicate, Place.along_climbs]
    simp
  have hthere : Place.along [step] (List.replicate climbs up ++ names) = names.map String.ofList := by
    rw [Place.along_append, Place.along_climbs, List.length_singleton, Nat.sub_eq_zero_of_le hpos,
      Place.along_names _ hnames]
    rfl
  refine ⟨List.replicate (l.length + 1) step, ?_⟩
  rw [hhere, hthere]
  rintro ⟨⟨more, hmore⟩, _⟩
  exact hstep (by rw [← hmore]; rfl)

/-- **The only way out.**  The file of an accepted name lies below the directory, from wherever paths
are followed, unless the directory only climbs and the name climbs first. -/
theorem below_iff (h : outputPath (reducedPath directory) name = .ok path) :
    (∀ current, Place.Below (.resolve current directory) (.resolve current path))
      ↔ ¬ LeadsOut directory name := by
  obtain ⟨p, hp, rfl, hrooted, hrelative, rest, hne, hrest⟩ := exists_rest_of_outputPath h
  constructor
  · rintro hbelow ⟨hd, hn⟩
    rw [rest_eq_of_onlyClimbs hd hp hrooted hrest] at hrest
    obtain ⟨current, hnot⟩ := exists_not_below hd.2 (isReduced_reduced name.toList).relative hn
    have hdirectory : Place.resolve current directory = Place.along current (reduced directory.toList) := by
      rw [← Place.resolve_reducedPath, reducedPath, Place.resolve_clean, hd.isRooted, if_neg (by simp)]
    refine hnot ?_
    have hhere := hbelow current
    rwa [resolve_of_rest hrooted hrest, hdirectory] at hhere
  · intro hstays current
    rw [resolve_of_rest hrooted hrest]
    have hform : IsReduced (isRooted p) (reduced directory.toList ++ rest) := hrest ▸ isReduced_reduced p
    rcases hform.append_cases with hnames | ⟨hp', hup, hclimbs⟩
    · rw [Place.along_names _ hnames]
      exact ⟨List.prefix_append _ _, by simpa using hne⟩
    · have hd : OnlyClimbs directory := ⟨hrelative (hrooted ▸ hp'), hup⟩
      rw [rest_eq_of_onlyClimbs hd hp hrooted hrest] at hclimbs
      exact absurd ⟨hd, hclimbs⟩ hstays

/-! ### Writing and deleting -/

namespace Build

open FileTree

variable {t : FileTree} {P : Place → Prop} {names : List String}

/-- The places of the paths that are made for some names. -/
def OutputPlace (directory : String) (names : List String) (current place : Place) : Prop :=
  ∃ name ∈ names, ∃ path, outputPath directory name = .ok path ∧ place = Place.resolve current path

theorem writeItem_altersOnly {bytes : ByteArray}
    (hP : ∀ path, outputPath directory name = .ok path → P (.resolve t.current path)) :
    AltersOnly P t (writeItem t directory name bytes).1 := by
  unfold writeItem
  split
  · exact .refl P t
  · rename_i path hpath
    have hparents := makeDirectories_altersOnly P t
      (pathAndParents ((Path.parent? path.toList).elim "" String.ofList))
    dsimp only [makePath]
    split
    · rename_i hmade
      rwa [hmade] at hparents
    · rename_i hmade
      rw [hmade] at hparents
      split
      · rename_i hwritten
        exact hparents.trans (write_altersOnly hwritten (hparents.current ▸ hP path hpath))
      · exact hparents

theorem writeItems_altersOnly {items : List (String × Item)}
    (hP : ∀ item ∈ items, ∀ path, outputPath directory item.1 = .ok path → P (.resolve t.current path)) :
    AltersOnly P t (writeItems t directory items).1 := by
  induction items generalizing t with
  | nil => exact .refl P t
  | cons item items ih =>
      obtain ⟨name, item⟩ := item
      have hitem : AltersOnly P t (writeItem t directory name item.bytes).1 :=
        writeItem_altersOnly (hP _ List.mem_cons_self)
      unfold writeItems
      split
      · rename_i hwritten
        rw [hwritten] at hitem
        refine hitem.trans (ih fun x hx path hpath => ?_)
        rw [hitem.current]
        exact hP x (List.mem_cons_of_mem _ hx) path hpath
      · rename_i hwritten
        rwa [hwritten] at hitem

theorem deleteAll_altersOnly
    (hP : ∀ name ∈ names, ∀ path, outputPath directory name = .ok path → P (.resolve t.current path)) :
    AltersOnly P t (deleteAll t directory names).1 := by
  induction names generalizing t with
  | nil => exact .refl P t
  | cons name names ih =>
      have hnames : ∀ x ∈ names, ∀ path, outputPath directory x = .ok path → P (.resolve t.current path) :=
        fun x hx => hP x (List.mem_cons_of_mem _ hx)
      unfold deleteAll
      split
      · exact .refl P t
      · rename_i path hpath
        split
        · split
          · rename_i hdeleted
            have hone := delete_altersOnly hdeleted (hP name List.mem_cons_self path hpath)
            refine hone.trans (ih fun x hx path hpath => ?_)
            rw [hone.current]
            exact hnames x hx path hpath
          · exact .refl P t
        · exact ih hnames

/-- Writing alters the files of its own names only. -/
theorem write_altersOnly (b : Build) (t : FileTree) (directory : String) :
    AltersOnly (OutputPlace (reducedPath directory) b.items.keys t.current) t (b.write t directory).1 := by
  have hmade := makeDirectories_altersOnly (OutputPlace (reducedPath directory) b.items.keys t.current) t
    (pathAndParents (reducedPath directory))
  unfold write
  dsimp only [makePath]
  split
  · rename_i hmake
    rwa [hmake] at hmade
  · rename_i hmake
    rw [hmake] at hmade
    refine hmade.trans (writeItems_altersOnly fun item hitem path hpath => ?_)
    rw [hmade.current]
    exact ⟨item.1, List.mem_map_of_mem hitem, path, hpath, rfl⟩

/-- Deleting alters the files of its names only. -/
theorem prune_altersOnly (t : FileTree) (directory : String) (names : List String) :
    AltersOnly (OutputPlace (reducedPath directory) names t.current) t (prune t directory names).1 :=
  deleteAll_altersOnly fun name hname path hpath => ⟨name, hname, path, hpath, rfl⟩

/-- Where a file is altered lies below the directory, or a name that leads out was used. -/
theorem below_of_outputPlace (h : OutputPlace (reducedPath directory) names current place) :
    Place.Below (.resolve current directory) place ∨
      ∃ name ∈ names, LeadsOut directory name ∧
        ∃ path, outputPath (reducedPath directory) name = .ok path ∧ place = .resolve current path := by
  obtain ⟨name, hname, path, hpath, rfl⟩ := h
  by_cases hout : LeadsOut directory name
  · exact .inr ⟨name, hname, hout, path, hpath, rfl⟩
  · exact .inl ((below_iff hpath).2 hout current)

end Build

/-- **Where output goes.**  Whatever the directory, the path made for an accepted name lies below it, from
wherever the two are followed, unless the directory only climbs and the name climbs first.  Writing a
build and deleting files alter no file but those below the directory and those of such names. -/
theorem output_below (directory : String) :
    (∀ name path, outputPath (reducedPath directory) name = .ok path →
      ((∀ current, Place.Below (.resolve current directory) (.resolve current path))
        ↔ ¬ LeadsOut directory name)) ∧
    (∀ (b : Build) (t : FileTree) (place : Place), (b.write t directory).1.file? place ≠ t.file? place →
      Place.Below (.resolve t.current directory) place ∨
        ∃ name ∈ b.items.keys, LeadsOut directory name ∧
          ∃ path, outputPath (reducedPath directory) name = .ok path ∧ place = .resolve t.current path) ∧
    ∀ (names : List String) (t : FileTree) (place : Place),
      (Build.prune t directory names).1.file? place ≠ t.file? place →
      Place.Below (.resolve t.current directory) place ∨
        ∃ name ∈ names, LeadsOut directory name ∧
          ∃ path, outputPath (reducedPath directory) name = .ok path ∧ place = .resolve t.current path := by
  refine ⟨fun name path h => below_iff h, fun b t place h => ?_, fun names t place h => ?_⟩
  · exact Build.below_of_outputPlace ((Build.write_altersOnly b t directory).files place h)
  · exact Build.below_of_outputPlace ((Build.prune_altersOnly t directory names).files place h)

/-- Paths are followed from `/a/b/c`; one file stands in `/a`, and one in `/a/b/out`. -/
def nestedTree : FileTree :=
  .ofList ["a", "b", "c"] [(["a", "b", "c"], .directory), (["a", "x.js"], .file ⟨#[120]⟩),
    (["a", "b", "out", "x.js"], .file ⟨#[120]⟩)]

theorem sibling_output_below :
    outputPath (reducedPath "./../out/") "./js/../x.js" = .ok "../out/x.js" ∧
    (∀ current, Place.Below (.resolve current "./../out/") (.resolve current "../out/x.js")) ∧
    (Build.prune nestedTree "./../out/" ["./js/../x.js"]).1.file? ["a", "b", "out", "x.js"]
      ≠ nestedTree.file? ["a", "b", "out", "x.js"] ∧
    Place.Below (.resolve nestedTree.current "./../out/") ["a", "b", "out", "x.js"] := by
  obtain ⟨hpaths, _, hprune⟩ := output_below "./../out/"
  have hpath : outputPath (reducedPath "./../out/") "./js/../x.js" = .ok "../out/x.js" := by decide +kernel
  have hstays : ¬ LeadsOut "./../out/" "./js/../x.js" := by decide +kernel
  have hgone : (Build.prune nestedTree "./../out/" ["./js/../x.js"]).1.file? ["a", "b", "out", "x.js"]
      ≠ nestedTree.file? ["a", "b", "out", "x.js"] := by decide +kernel
  refine ⟨hpath, (hpaths _ _ hpath).2 hstays, hgone, ?_⟩
  rcases hprune _ _ _ hgone with hbelow | ⟨name, hname, hout, _⟩
  · exact hbelow
  · rw [List.mem_singleton.1 hname] at hout
    exact absurd hout hstays

/-- From the directory `..` the name `../x.js` is accepted, and the file that is deleted is not below. -/
theorem parent_output_escapes :
    outputPath (reducedPath "..") "../x.js" = .ok "../../x.js" ∧
    ¬ Place.Below (.resolve nestedTree.current "..") (.resolve nestedTree.current "../../x.js") ∧
    nestedTree.get? ["a", "x.js"] = some (.file ⟨#[120]⟩) ∧
    (Build.prune nestedTree ".." ["../x.js"]).2 = .ok () ∧
    (Build.prune nestedTree ".." ["../x.js"]).1.get? ["a", "x.js"] = none ∧
    ¬ Place.Below (.resolve nestedTree.current "..") ["a", "x.js"] := by
  refine ⟨?_, ?_, ?_, ?_, ?_, ?_⟩
  · decide +kernel
  · decide +kernel
  · decide +kernel
  · decide +kernel
  · decide +kernel
  · decide +kernel

end Pagefold
