import Pagefold.Proofs.Linking
import Pagefold.Proofs.Paths

/-! # Endings of file names

Kinds of files are told apart by the ends of their names.  When a path is reduced its last name stays
at its end (`fileName_suffix_clean`), and what a reference is found to mean has the reduced path or at
least the file name.  So in a catalog in which all names have one of some endings, only a reference
whose reduced path has such an ending is found (`endsIn_of_locate`), and no reference is found in two
catalogs whose endings exclude each other (`not_locate_both`). -/

namespace Pagefold

/-! ### The last name of a path -/

namespace Path

variable {a b l s name : List Char}

theorem fileName_append_cons (a b : List Char) : fileName (a ++ '/' :: b) = fileName b := by
  have hsplit : (a ++ '/' :: b).reverse = b.reverse ++ '/' :: a.reverse := by simp
  rw [fileName, hsplit, List.takeWhile_append]
  split
  · rename_i hall
    have hwhole := (List.takeWhile_prefix (· != '/') (l := b.reverse)).eq_of_length hall
    rw [fileName, hwhole]
    simp
  · rfl

theorem slash_not_mem_fileName (s : List Char) : '/' ∉ fileName s := by
  intro h
  have hall := List.all_takeWhile (p := fun c => c != '/') (l := s.reverse)
  have := List.all_eq_true.1 hall '/' (by simpa [fileName] using h)
  simp at this

/-- A path is its last name, or a slash stands before that. -/
theorem eq_fileName_or_cut (s : List Char) : s = fileName s ∨ ∃ dir, s = dir ++ '/' :: fileName s := by
  have hsplit := congrArg List.reverse
    (List.takeWhile_append_dropWhile (p := (· != '/')) (l := s.reverse))
  rw [List.reverse_append, List.reverse_reverse] at hsplit
  cases hdrop : s.reverse.dropWhile (· != '/') with
  | nil =>
      rw [hdrop] at hsplit
      exact .inl hsplit.symm
  | cons c rest =>
      have hc : c = '/' := by
        have := List.head_dropWhile_not (fun c => c != '/') (l := s.reverse) (by simp [hdrop])
        simpa [hdrop] using this
      rw [hdrop, hc, List.reverse_cons, List.append_assoc] at hsplit
      exact .inr ⟨rest.reverse, hsplit.symm⟩

/-- An end of a path without slashes lies in the last name. -/
theorem suffix_fileName (h : l <:+ s) (hl : '/' ∉ l) : l <:+ fileName s := by
  obtain ⟨front, rfl⟩ := h
  have hall : ∀ c ∈ l.reverse, (c != '/') = true := by
    intro c hc
    rw [bne_iff_ne]
    rintro rfl
    exact hl (List.mem_reverse.1 hc)
  rw [fileName, List.reverse_append, List.takeWhile_append_of_pos hall, List.reverse_append,
    List.reverse_reverse]
  exact List.suffix_append _ _

/-- The last name of a path is its last step, unless it is empty or a dot. -/
theorem exists_steps_append (hne : fileName s ≠ []) (hdot : fileName s ≠ ['.']) :
    ∃ front, steps s = front ++ [fileName s] := by
  have hlast : steps (fileName s) = [fileName s] := by
    rw [steps, List.splitOn_eq_singleton (slash_not_mem_fileName s)]
    simp [hne, hdot]
  rcases eq_fileName_or_cut s with h | ⟨dir, h⟩
  · exact ⟨[], (congrArg steps h).trans hlast⟩
  · refine ⟨steps dir, ?_⟩
    conv_lhs => rw [h, steps_append_cons, hlast]

/-- **The last name of a path** stays at its end when the path is reduced. -/
theorem fileName_suffix_clean (hne : fileName s ≠ []) (hdot : fileName s ≠ ['.'])
    (hdots : fileName s ≠ ['.', '.']) : fileName s <:+ clean s := by
  obtain ⟨front, hsteps⟩ := exists_steps_append hne hdot
  have hreduced : ∃ kept, reduced s = kept ++ [fileName s] := by
    rw [reduced, hsteps, List.foldl_append, List.foldl_cons, List.foldl_nil, walk_of_ne hdots,
      List.reverse_cons]
    exact ⟨_, rfl⟩
  obtain ⟨kept, hkept⟩ := hreduced
  have hend := suffix_intercalate ['/'] (fileName s) kept
  rw [clean, hkept, ofSteps]
  split
  · exact hend.trans (List.suffix_cons _ _)
  · rw [if_neg (by simp)]
    exact hend

end Path

/-! ### Endings -/

/-- `ending` is the end of a text, in any case. -/
def HasEnding (ending s : List Char) : Prop := ending <:+ s.map Char.toLower

/-- The ending of a file name: longer than a step of dots, and without slashes of either kind. -/
def IsEnding (ending : List Char) : Prop := 2 < ending.length ∧ '/' ∉ ending ∧ '\\' ∉ ending

instance {ending : List Char} : Decidable (IsEnding ending) := inferInstanceAs (Decidable (_ ∧ _))

section

variable {ending s : List Char} {endings : List String} {name : String}

theorem hasEnding_iff : HasEnding ending s ↔ ∃ l, l <:+ s ∧ ending = l.map Char.toLower :=
  List.suffix_map_iff

theorem HasEnding.mono {t : List Char} (h : HasEnding ending s) (hs : s <:+ t) : HasEnding ending t :=
  h.trans (hs.map Char.toLower)

theorem HasEnding.fileName (h : HasEnding ending s) (he : IsEnding ending) :
    HasEnding ending (Path.fileName s) := by
  obtain ⟨l, hl, rfl⟩ := hasEnding_iff.1 h
  refine hasEnding_iff.2 ⟨l, Path.suffix_fileName hl fun hm => he.2.1 ?_, rfl⟩
  exact List.mem_map.2 ⟨'/', hm, rfl⟩

theorem endsIn_iff :
    Build.endsIn endings name = true ↔ ∃ e ∈ endings, HasEnding e.toList name.toList := by
  simp [Build.endsIn, HasEnding, List.any_eq_true]

/-- Of two endings of a name, one is an end of the other. -/
theorem HasEnding.total {other : List Char} (h : HasEnding ending s) (h' : HasEnding other s) :
    ending <:+ other ∨ other <:+ ending := by
  rcases Nat.le_total ending.length other.length with hle | hle
  · exact .inl (List.suffix_of_suffix_length_le h h' hle)
  · exact .inr (List.suffix_of_suffix_length_le h' h hle)

/-- No ending of the one list is an end of one of the other list, or the other way round. -/
def ExcludeEachOther (endings others : List String) : Prop :=
  ∀ e ∈ endings, ∀ e' ∈ others, ¬ e.toList <:+ e'.toList ∧ ¬ e'.toList <:+ e.toList

instance {others : List String} : Decidable (ExcludeEachOther endings others) :=
  inferInstanceAs (Decidable (∀ e ∈ endings, _))

theorem ExcludeEachOther.not_endsIn {others : List String} (hex : ExcludeEachOther endings others)
    (h : Build.endsIn endings name = true) : Build.endsIn others name ≠ true := by
  intro h'
  obtain ⟨e, he, hend⟩ := endsIn_iff.1 h
  obtain ⟨e', he', hend'⟩ := endsIn_iff.1 h'
  rcases hend.total hend' with hs | hs
  · exact (hex e he e' he').1 hs
  · exact (hex e he e' he').2 hs

end

/-! ### References -/

namespace Link

variable {ending path : List Char} {endings : List String} {ids : List String}
  {reference name id : String} {importer? : Option String} {located : Located}

theorem fileName_target (path : List Char) (importer? : Option String) :
    Path.fileName (Reference.target path importer?) = Path.fileName path := by
  unfold Reference.target
  split
  · exact (Path.fileName_append_cons [] _).symm
  · split
    · exact Path.fileName_append_cons _ _
    · rfl

/-- The ending of a path stays when it is reduced. -/
theorem hasEnding_normalized (he : IsEnding ending) (h : HasEnding ending (Path.fileName path)) :
    HasEnding ending (Reference.normalized path importer?).toList := by
  have hlen : 2 < (Path.fileName path).length := by
    have := h.length_le
    rw [List.length_map] at this
    exact Nat.lt_of_lt_of_le he.1 this
  have hclean : Path.fileName path <:+ Path.clean (Reference.target path importer?) := by
    rw [← fileName_target path importer?] at hlen ⊢
    refine Path.fileName_suffix_clean ?_ ?_ ?_
    · intro h0
      simp [h0] at hlen
    · intro h0
      simp [h0] at hlen
    · intro h0
      simp [h0] at hlen
  obtain ⟨l, hl, rfl⟩ := hasEnding_iff.1 (h.mono hclean)
  rw [Reference.normalized, String.toList_ofList, hasEnding_iff]
  refine ⟨l, ?_, rfl⟩
  have hsame : l.map (fun c => if c == '\\' then '/' else c) = l := by
    conv_rhs => rw [← List.map_id l]
    apply List.map_congr_left
    intro c hc
    have hne : c ≠ '\\' := by
      rintro rfl
      exact he.2.2 (List.mem_map.2 ⟨'\\', hc, rfl⟩)
    simp [hne]
  rw [← hsame]
  exact hl.map _

namespace Catalog

/-- What a catalog lists under a file name has that file name. -/
def NamesFiles (catalog : Catalog) : Prop := ∀ name, ∀ id ∈ catalog.named name, fileName id = name

theorem NamesFiles.insert {catalog : Catalog} (h : catalog.NamesFiles) (id : String) :
    (catalog.insert id).NamesFiles := by
  unfold Catalog.insert
  split
  · exact h
  · intro name x hx
    rw [named, Dictionary.get?_insert] at hx
    split at hx
    · rename_i hname
      rw [Option.getD_some] at hx
      rcases List.mem_append.1 hx with hx | hx
      · rw [h _ x hx, hname]
      · rw [List.mem_singleton.1 hx, hname]
    · exact h name x hx

theorem namesFiles_ofList (ids : List String) : (ofList ids).NamesFiles := by
  have hfold : ∀ catalog : Catalog, catalog.NamesFiles → (ids.foldl Catalog.insert catalog).NamesFiles := by
    induction ids with
    | nil => exact fun _ h => h
    | cons id ids ih => exact fun catalog h => ih _ (h.insert id)
  exact hfold empty (by simp [NamesFiles, named, empty])

/-- **Only a reference with one of the endings** of all names is found. -/
theorem endsIn_of_locate (hendings : ∀ e ∈ endings, IsEnding e.toList)
    (hids : ∀ id ∈ ids, Build.endsIn endings id = true)
    (hl : (ofList ids).locate reference importer? = .ok located) :
    Build.endsIn endings (Reference.normalized (Reference.path reference) importer?) = true := by
  have hwithin := within_ofList ids
  unfold locate at hl
  dsimp only at hl
  split at hl
  · cases hl
  · split at hl
    · cases hl
    · split at hl
      · rename_i hc
        exact hids _ (hwithin.1 _ (by simpa [contains] using hc))
      · split at hl
        · cases hl
        · rename_i first others hn
          -- The first chunk of the file name has an ending, so the file name has it too.
          have hfirst : first ∈ (ofList ids).named
              (String.ofList (Path.fileName (Reference.path reference))) := by
            rw [hn]
            exact List.mem_cons_self
          obtain ⟨e, he, hend⟩ := endsIn_iff.1 (hids _ (hwithin.2 _ _ hfirst))
          have hname := congrArg String.toList (namesFiles_ofList ids _ _ hfirst)
          rw [fileName, String.toList_ofList, String.toList_ofList] at hname
          refine endsIn_iff.2 ⟨e, he, hasEnding_normalized (hendings e he) ?_⟩
          rw [← hname]
          exact hend.fileName (hendings e he)

/-- Catalogs whose endings exclude each other do not both find a reference. -/
theorem not_locate_both {others ids' : List String} {located' : Located}
    (hendings : ∀ e ∈ endings, IsEnding e.toList) (hothers : ∀ e ∈ others, IsEnding e.toList)
    (hex : ExcludeEachOther endings others) (hids : ∀ id ∈ ids, Build.endsIn endings id = true)
    (hids' : ∀ id ∈ ids', Build.endsIn others id = true)
    (hl : (ofList ids).locate reference importer? = .ok located)
    (hl' : (ofList ids').locate reference importer? = .ok located') : False :=
  hex.not_endsIn (endsIn_of_locate hendings hids hl) (endsIn_of_locate hothers hids' hl')

end Catalog

end Link

end Pagefold
