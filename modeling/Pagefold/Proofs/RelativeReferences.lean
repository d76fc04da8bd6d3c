import Pagefold.Proofs.Catalogs
import Pagefold.Proofs.References

/-! # Correct relative references

A file can be referred to from any other one by a rooted path, or by a way through the folders: out of some
of those in which the referring file lies, and down to the file (`LeadsTo`).  When a way is reduced, each
step up takes back the folder that it leaves (`foldl_walk_leave`), so what is left is the path of the file
(`clean_way`).  No such reference can be taken for one to another place (`IsApproach.isNonLocal_eq`), and so
each of them is found at once, whatever else has the same name (`locate_of_leadsTo`). -/

namespace Pagefold

/-! ### Ways through folders -/

namespace Path

variable {back l left rest shared : List (List Char)} {s : List Char} {rooted : Bool}

theorem isName_of_mem_splitOn {step : List Char} (h : step ∈ s.splitOn '/')
    (hplain : step ≠ [] ∧ step ≠ ['.'] ∧ step ≠ up) : IsName step :=
  ⟨⟨hplain.1, hplain.2.1, no_slash_of_mem_splitOn h⟩, hplain.2.2⟩

/-- As many steps up as there were names take the names back. -/
theorem foldl_walk_leave (h : ∀ name ∈ left, IsName name) :
    (List.replicate left.length up).foldl (walk rooted) (left ++ back) = back := by
  induction left with
  | nil => rfl
  | cons name left ih =>
      rw [List.length_cons, List.replicate_succ, List.foldl_cons, List.cons_append,
        walk_up_of_ne (h name List.mem_cons_self).ne_up]
      exact ih fun x hx => h x (List.mem_cons_of_mem _ hx)

/-- A path that leads into folders, out of some of them and down again is reduced to what is not left. -/
theorem clean_way (hroot : isRooted s = false)
    (hsteps : steps s = shared ++ left ++ List.replicate left.length up ++ rest)
    (hnames : ∀ name ∈ shared ++ left, IsName name) (hrest : ∀ name ∈ rest, IsName name)
    (hne : shared ++ rest ≠ []) : clean s = ['/'].intercalate (shared ++ rest) := by
  have hleft : ∀ name ∈ left.reverse, IsName name := fun x hx =>
    hnames x (List.mem_append_right _ (List.mem_reverse.1 hx))
  have hout := @foldl_walk_leave shared.reverse left.reverse false hleft
  rw [List.length_reverse] at hout
  have hreduced : reduced s = shared ++ rest := by
    rw [reduced, hroot, hsteps, List.foldl_append, List.foldl_append, foldl_walk_names hnames,
      List.append_nil, List.reverse_append, hout, foldl_walk_names hrest, List.reverse_append,
      List.reverse_reverse, List.reverse_reverse]
  rw [clean, hroot, hreduced, ofSteps, if_neg Bool.false_ne_true, if_neg (by simpa using hne)]

theorem steps_intercalate_concat (h : ∀ step ∈ l, IsStep step) (s : List Char) :
    steps (['/'].intercalate (l ++ [s])) = l ++ steps s := by
  by_cases hl : l = []
  · simp [hl]
  · rw [intercalate_concat hl, steps_append_cons, steps_intercalate h]

theorem isRooted_intercalate_concat (h : ∀ step ∈ l, IsStep step) (hs : isRooted s = false) :
    isRooted (['/'].intercalate (l ++ [s])) = false := by
  by_cases hl : l = []
  · simpa [hl] using hs
  · have hroot := isRooted_intercalate h
    have hsteps := steps_intercalate h
    rw [intercalate_concat hl]
    cases htext : ['/'].intercalate l with
    | nil =>
        rw [htext] at hsteps
        exact absurd hsteps.symm hl
    | cons c more =>
        rw [htext] at hroot
        exact hroot

end Path

namespace Link

open Text Reference

variable {c : Char} {id target : String} {ids : List String} {importer? : Option String}
  {path suffix : List Char}

/-! ### References to a file -/

/-- An id of names between slashes, without characters that a reference takes for something else. -/
structure IsPlainId (id : String) : Prop where
  names : ∀ step ∈ id.toList.splitOn '/', step ≠ [] ∧ step ≠ ['.'] ∧ step ≠ ['.', '.']
  no_mark : ∀ c ∈ id.toList, c ≠ '\\' ∧ c ≠ '?' ∧ c ≠ '#'
  no_blank_end : ∀ c ∈ id.toList.getLast?, isBlank c = false

/-- The test for plain ids. -/
def isPlainId (id : String) : Bool :=
  (id.toList.splitOn '/').all (fun step => step != [] && step != ['.'] && step != ['.', '.']) &&
    id.toList.all (fun c => c != '\\' && c != '?' && c != '#') && id.toList.getLast?.all (fun c => !isBlank c)

theorem isPlainId_iff : isPlainId id = true ↔ IsPlainId id := by
  simp only [isPlainId, Bool.and_eq_true, List.all_eq_true, Option.all_eq_true, bne_iff_ne, Bool.not_eq_true',
    and_assoc]
  constructor
  · rintro ⟨hnames, hmark, hblank⟩
    exact ⟨hnames, hmark, hblank⟩
  · exact fun h => ⟨h.names, h.no_mark, h.no_blank_end⟩

instance (id : String) : Decidable (IsPlainId id) := decidable_of_iff _ isPlainId_iff

/-- The steps out of some folders: a dot when there are none to leave, and else two dots for each. -/
def wayOut (n : Nat) : List (List Char) := if n = 0 then [['.']] else List.replicate n ['.', '.']

/-- The references that lead from `importer?` to the file `target`: the rooted one, and those that leave the
folders behind some shared ones and go down from there. -/
inductive LeadsTo (importer? : Option String) (target : String) : List Char → Prop
  | rooted : LeadsTo importer? target ('/' :: target.toList)
  | relative {shared left rest : List (List Char)} (hfolders : foldersOf importer? = shared ++ left)
      (htarget : target.toList.splitOn '/' = shared ++ rest) (hrest : rest ≠ []) :
      LeadsTo importer? target (['/'].intercalate (wayOut left.length ++ rest))

theorem IsPlainId.isName (h : IsPlainId id) : ∀ step ∈ id.toList.splitOn '/', Path.IsName step :=
  fun step hstep => Path.isName_of_mem_splitOn hstep (h.names step hstep)

theorem isName_of_mem_foldersOf (h : ∀ importer ∈ importer?, IsPlainId importer) :
    ∀ step ∈ foldersOf importer?, Path.IsName step := by
  cases importer? with
  | none => simp [foldersOf]
  | some importer => exact fun step hstep => (h importer rfl).isName step (List.dropLast_subset _ hstep)

theorem wayOut_ne_nil (n : Nat) : wayOut n ≠ [] := by
  cases n with
  | zero => decide
  | succ n => simp [wayOut]

theorem dots_of_mem_wayOut {n : Nat} {step : List Char} (h : step ∈ wayOut n) :
    step = ['.'] ∨ step = ['.', '.'] := by
  unfold wayOut at h
  split at h
  · exact .inl (List.mem_singleton.1 h)
  · exact .inr (List.mem_replicate.1 h).2

/-- Of the steps out of folders, those that count are as many steps up. -/
theorem filter_wayOut (n : Nat) :
    (wayOut n).filter (fun step => !step.isEmpty && step != ['.']) = List.replicate n Path.up := by
  unfold wayOut
  split
  · rename_i hn
    rw [hn]
    rfl
  · rw [List.filter_replicate_of_pos (by decide)]

theorem steps_wayOut {n : Nat} {rest : List (List Char)} (h : ∀ name ∈ rest, Path.IsName name) :
    Path.steps (['/'].intercalate (wayOut n ++ rest)) = List.replicate n Path.up ++ rest := by
  have hslash : ∀ step ∈ wayOut n ++ rest, '/' ∉ step := by
    intro step hstep
    rcases List.mem_append.1 hstep with hstep | hstep
    · rcases dots_of_mem_wayOut hstep with rfl | rfl <;> decide
    · exact (h step hstep).no_slash
  have hrest : rest.filter (fun step => !step.isEmpty && step != ['.']) = rest := by
    rw [List.filter_eq_self]
    intro step hstep
    simp [(h step hstep).ne_nil, (h step hstep).ne_dot]
  rw [Path.steps, List.splitOn_intercalate '/' hslash (List.append_ne_nil_of_left_ne_nil (wayOut_ne_nil n) rest),
    List.filter_append, filter_wayOut, hrest]

/-! ### The text of a reference to a file -/

theorem IsPlainId.isRooted (h : IsPlainId id) : Path.isRooted id.toList = false := by
  rw [← @List.intercalate_splitOn _ id.toList _ _ '/']
  exact Path.isRooted_intercalate fun step hstep => (h.isName step hstep).toIsStep

theorem IsPlainId.fileName_ne_nil (h : IsPlainId id) : Path.fileName id.toList ≠ [] := by
  have hmem : Path.fileName id.toList ∈ id.toList.splitOn '/' := by
    rcases Path.splitOn_cases id.toList with ⟨_, hsplit⟩ | ⟨dir, _, hsplit⟩
    · rw [hsplit]
      exact List.mem_cons_self
    · rw [hsplit]
      exact List.mem_append_right _ List.mem_cons_self
  exact (h.names _ hmem).1

/-- A reference that leads to a file: dots and slashes in front, then a slash, then an end of the path of
the file that holds its last name. -/
structure IsApproach (target : String) (front tail : List Char) : Prop where
  dots : ∀ c ∈ front, c = '.' ∨ c = '/'
  front_head : front.head? ≠ some '/'
  tail_head : tail.head? ≠ some '/'
  tail_suffix : tail <:+ target.toList
  fileName_eq : Path.fileName tail = Path.fileName target.toList

theorem head?_wayOut (n : Nat) : (['/'].intercalate (wayOut n)).head? = some '.' := by
  match n with
  | 0 => rfl
  | 1 => rfl
  | n + 2 => simp [wayOut, List.replicate_succ, List.intercalate_cons_cons]

theorem head?_way {n : Nat} {rest : List (List Char)} (h : rest ≠ []) :
    (['/'].intercalate (wayOut n ++ rest)).head? = some '.' := by
  rw [Path.intercalate_append (wayOut_ne_nil n) h, List.head?_append, head?_wayOut]
  rfl

theorem LeadsTo.exists_approach (htarget : IsPlainId target) (h : LeadsTo importer? target path) :
    ∃ front tail, path = front ++ '/' :: tail ∧ IsApproach target front tail := by
  cases h with
  | rooted =>
      refine ⟨[], target.toList, rfl, by simp, by simp, ?_, List.suffix_refl _, rfl⟩
      simpa [Path.isRooted] using htarget.isRooted
  | @relative shared left rest hfolders hsplit hrest =>
      have hroot : Path.isRooted (['/'].intercalate rest) = false :=
        Path.isRooted_intercalate fun step hstep =>
          (htarget.isName step (hsplit ▸ List.mem_append_right _ hstep)).toIsStep
      have htext : target.toList = ['/'].intercalate rest ∨
          ∃ before, target.toList = before ++ '/' :: ['/'].intercalate rest := by
        rw [← @List.intercalate_splitOn _ target.toList _ _ '/', hsplit]
        by_cases hshared : shared = []
        · exact .inl (by rw [hshared, List.nil_append])
        · exact .inr ⟨_, Path.intercalate_append hshared hrest⟩
      refine ⟨_, _, Path.intercalate_append (wayOut_ne_nil _) hrest, ?_, ?_, ?_, ?_, ?_⟩
      · intro c hc
        rcases Path.mem_intercalate hc with rfl | ⟨step, hstep, hc⟩
        · exact .inr rfl
        · rcases dots_of_mem_wayOut hstep with rfl | rfl
          · exact .inl (by simpa using hc)
          · exact .inl (by simpa using hc)
      · rw [head?_wayOut]
        decide
      · simpa [Path.isRooted] using hroot
      · rcases htext with htext | ⟨before, htext⟩
        · rw [htext]
        · rw [htext]
          exact (List.suffix_cons _ _).trans (List.suffix_append _ _)
      · rcases htext with htext | ⟨before, htext⟩
        · rw [htext]
        · rw [htext, Path.fileName_append_cons]

namespace IsApproach

variable {front tail : List Char}

theorem tail_ne_nil (htarget : IsPlainId target) (h : IsApproach target front tail) : tail ≠ [] := by
  rintro rfl
  exact htarget.fileName_ne_nil h.fileName_eq.symm

/-- No query and no fragment begins in a reference that leads to a file. -/
theorem no_mark (htarget : IsPlainId target) (h : IsApproach target front tail) :
    ∀ c ∈ front ++ '/' :: tail, (c != '?' && c != '#') = true := by
  intro c hc
  rw [Bool.and_eq_true, bne_iff_ne, bne_iff_ne]
  rcases List.mem_append.1 hc with hc | hc
  · rcases h.dots c hc with rfl | rfl <;> decide
  · rcases List.mem_cons.1 hc with rfl | hc
    · decide
    · exact (htarget.no_mark c (h.tail_suffix.subset hc)).2

/-- No reference that leads to a file is taken for one to another place. -/
theorem isNonLocal_eq (h : IsApproach target front tail) : isNonLocal (front ++ '/' :: tail) = false := by
  have hcolon : ':' ∉ front := by
    intro hc
    rcases h.dots _ hc with hc | hc <;> exact absurd hc (by decide)
  rw [isNonLocal_of_slash hcolon, ← Bool.not_eq_true, List.isPrefixOf_iff_prefix]
  rintro ⟨more, hmore⟩
  cases front with
  | nil =>
      obtain rfl : '/' :: more = tail := by simpa using hmore
      exact h.tail_head rfl
  | cons c front =>
      obtain ⟨rfl, _⟩ : '/' = c ∧ _ := by simpa using hmore
      exact h.front_head rfl

/-- What follows a reference that leads to a file, from a query or a fragment on, is cut off. -/
theorem path_append (htarget : IsPlainId target) (h : IsApproach target front tail)
    (hsuffix : ∀ c ∈ suffix.head?, c = '?' ∨ c = '#') :
    Reference.path (String.ofList (front ++ '/' :: tail ++ suffix)) = front ++ '/' :: tail := by
  have hcut : suffix.takeWhile (fun c => c != '?' && c != '#') = [] := by
    cases suffix with
    | nil => rfl
    | cons c more => rcases hsuffix c rfl with rfl | rfl <;> rfl
  obtain ⟨c, hfirst, hc⟩ : ∃ c, (front ++ '/' :: tail).head? = some c ∧ isBlank c = false := by
    cases front with
    | nil => exact ⟨'/', rfl, by decide⟩
    | cons c front =>
        refine ⟨c, rfl, ?_⟩
        rcases h.dots c List.mem_cons_self with rfl | rfl <;> decide
  obtain ⟨before, last, htail⟩ := tail.eq_nil_or_concat'.resolve_left (h.tail_ne_nil htarget)
  have hlast : (front ++ '/' :: tail).getLast? = some last := by
    rw [htail, List.getLast?_append_of_ne_nil _ (List.cons_ne_nil _ _), ← List.cons_append, List.getLast?_concat]
  have hend : target.toList.getLast? = some last := by
    obtain ⟨more, hmore⟩ := h.tail_suffix
    rw [← hmore, htail, ← List.append_assoc, List.getLast?_concat]
  have htrim := trim_between blanks_nil blanks_nil hfirst hlast hc (htarget.no_blank_end last hend)
  rw [Reference.path, String.toList_ofList, List.takeWhile_append_of_pos (h.no_mark htarget), hcut]
  simpa using htrim

end IsApproach

/-! ### What references to a file are found to mean -/

theorem IsPlainId.steps_eq (h : IsPlainId id) : Path.steps id.toList = id.toList.splitOn '/' := by
  have hsteps := Path.steps_intercalate fun step hstep => (h.isName step hstep).toIsStep
  rwa [List.intercalate_splitOn] at hsteps

/-- The path of a plain id is reduced already. -/
theorem IsPlainId.clean_eq (h : IsPlainId id) : Path.clean id.toList = id.toList := by
  have hsteps : Path.steps id.toList = id.toList.splitOn '/' ++ [] ++ List.replicate 0 Path.up ++ [] := by
    rw [h.steps_eq]
    simp
  rw [Path.clean_way h.isRooted hsteps (by simpa using h.isName) (by simp) (by simp), List.append_nil,
    List.intercalate_splitOn]

/-- A way out of folders and down again, read in the folders, is reduced to what is shared and what it goes
down. -/
theorem clean_wayOut {shared left rest : List (List Char)} (hfolders : ∀ name ∈ shared ++ left, Path.IsName name)
    (hrest : ∀ name ∈ rest, Path.IsName name) (hne : rest ≠ []) :
    Path.clean (['/'].intercalate (shared ++ left ++ [['/'].intercalate (wayOut left.length ++ rest)]))
      = ['/'].intercalate (shared ++ rest) := by
  have hstep : ∀ name ∈ shared ++ left, Path.IsStep name := fun name hname => (hfolders name hname).toIsStep
  have hroot : Path.isRooted (['/'].intercalate (wayOut left.length ++ rest)) = false := by
    rw [Path.isRooted, head?_way hne]
    decide
  have hsteps := Path.steps_intercalate_concat hstep (['/'].intercalate (wayOut left.length ++ rest))
  rw [steps_wayOut hrest, ← List.append_assoc] at hsteps
  exact Path.clean_way (Path.isRooted_intercalate_concat hstep hroot) hsteps hfolders hrest
    (List.append_ne_nil_of_right_ne_nil _ hne)

/-- Read in the folders of the importer, a reference that leads to a file is reduced to its path. -/
theorem LeadsTo.clean_target (himporter : ∀ importer ∈ importer?, IsPlainId importer)
    (htarget : IsPlainId target) (h : LeadsTo importer? target path) :
    Path.clean (Reference.target path importer?) = target.toList := by
  rw [target_eq]
  cases h with
  | rooted => rw [if_pos List.head?_cons, List.tail_cons, htarget.clean_eq]
  | relative hfolders hsplit hrest =>
      have hfolder := isName_of_mem_foldersOf himporter
      rw [hfolders] at hfolder
      rw [if_neg (by rw [head?_way hrest]; decide), hfolders, clean_wayOut hfolder _ hrest, ← hsplit,
        List.intercalate_splitOn]
      exact fun name hname => htarget.isName name (hsplit ▸ List.mem_append_right _ hname)

theorem LeadsTo.normalized_eq (himporter : ∀ importer ∈ importer?, IsPlainId importer)
    (htarget : IsPlainId target) (h : LeadsTo importer? target path) :
    normalized path importer? = target := by
  have hsame : target.toList.map (fun c => if c == '\\' then '/' else c) = target.toList := by
    conv_rhs => rw [← List.map_id target.toList]
    apply List.map_congr_left
    intro c hc
    simp [(htarget.no_mark c hc).1]
  rw [normalized, h.clean_target himporter htarget, hsame, String.ofList_toList]

/-- **A correct reference finds its file**, with any query or fragment behind it and whatever other files
have its name. -/
theorem locate_of_leadsTo (himporter : ∀ importer ∈ importer?, IsPlainId importer)
    (htarget : IsPlainId target) (hmem : target ∈ ids) (hpath : LeadsTo importer? target path)
    (hsuffix : ∀ c ∈ suffix.head?, c = '?' ∨ c = '#') :
    (Catalog.ofList ids).locate (String.ofList (path ++ suffix)) importer? = .ok ⟨target, false, 1⟩ := by
  obtain ⟨front, tail, hsplit, hway⟩ := hpath.exists_approach htarget
  have hname : (Path.fileName path).isEmpty = false := by
    rw [hsplit, Path.fileName_append_cons, hway.fileName_eq]
    simpa using htarget.fileName_ne_nil
  have hread : Reference.path (String.ofList (path ++ suffix)) = path := by
    rw [hsplit, hway.path_append htarget hsuffix]
  have hlocal : isNonLocal path = false := by
    rw [hsplit, hway.isNonLocal_eq]
  have hknown := Catalog.contains_ofList.2 hmem
  unfold Catalog.locate
  dsimp only
  rw [hread, hlocal, hname, hpath.normalized_eq himporter htarget, hknown]
  rfl

/-- A colon in a folder and two other files of the same name do not stand in the way. -/
theorem siblingFolder_found :
    IsPlainId "assets/app/main.js" ∧ IsPlainId "assets/lib:2/util.js" ∧
      LeadsTo (some "assets/app/main.js") "assets/lib:2/util.js" "../lib:2/util.js".toList ∧
      (Catalog.ofList ["util.js", "assets/app/util.js", "assets/lib:2/util.js"]).locate
        (String.ofList ("../lib:2/util.js".toList ++ "?v=3#top".toList)) (some "assets/app/main.js")
          = .ok ⟨"assets/lib:2/util.js", false, 1⟩ := by
  have himporter : IsPlainId "assets/app/main.js" := by decide +kernel
  have htarget : IsPlainId "assets/lib:2/util.js" := by decide +kernel
  have hway : LeadsTo (some "assets/app/main.js") "assets/lib:2/util.js" "../lib:2/util.js".toList :=
    @LeadsTo.relative (some "assets/app/main.js") "assets/lib:2/util.js" ["assets".toList] ["app".toList]
      ["lib:2".toList, "util.js".toList] (by decide) (by decide) (by decide)
  refine ⟨himporter, htarget, hway, locate_of_leadsTo ?_ htarget (by decide) hway ?_⟩
  · rintro _ ⟨⟩
    exact himporter
  · rintro _ ⟨⟩
    exact .inl rfl

end Link

end Pagefold
