import Pagefold.Proofs.Paths

/-! # What an operation on a tree of files alters

A path that can be followed leads to the place that it names (`locate_eq`).  Each operation says what it
did (`makeDirectory_eq_ok`, `write_eq_ok`, `delete_eq_ok`), and from this which files it may have altered
(`AltersOnly`): a new directory is no file, and writing and deleting alter the file of their path only.
The relation is reflexive and transitive, so it carries over to runs of operations. -/

namespace Pagefold

namespace FileTree

variable {t t' t'' : FileTree} {P : Place → Prop} {place : Place} {path : String} {bytes : ByteArray}

/-- The bytes of the file at a place. -/
def file? (t : FileTree) (place : Place) : Option ByteArray :=
  match t.get? place with
  | some (.file bytes) => some bytes
  | _ => none

theorem file?_eq_some_iff : t.file? place = some bytes ↔ t.get? place = some (.file bytes) := by
  unfold file?
  split
  · rename_i found h
    simp [h]
  · rename_i hother
    simpa using hother bytes

/-- From the one tree to the other, the files at some places may be altered and no others. -/
structure AltersOnly (P : Place → Prop) (t t' : FileTree) : Prop where
  current : t'.current = t.current
  strays : t'.strays = t.strays
  files : ∀ place, t'.file? place ≠ t.file? place → P place

theorem AltersOnly.refl (P : Place → Prop) (t : FileTree) : AltersOnly P t t :=
  ⟨rfl, rfl, fun _ h => absurd rfl h⟩

theorem AltersOnly.trans (h : AltersOnly P t t') (h' : AltersOnly P t' t'') : AltersOnly P t t'' := by
  refine ⟨h'.current.trans h.current, h'.strays.trans h.strays, fun place hplace => ?_⟩
  by_cases hsame : t''.file? place = t'.file? place
  · exact h.files place (hsame ▸ hplace)
  · exact h'.files place hsame

theorem AltersOnly.mono {Q : Place → Prop} (h : AltersOnly P t t') (hPQ : ∀ place, P place → Q place) :
    AltersOnly Q t t' :=
  ⟨h.current, h.strays, fun place hplace => hPQ place (h.files place hplace)⟩

/-! ### Paths that can be followed -/

theorem ofList_beq (step : List Char) (s : String) : (String.ofList step == s) = (step == s.toList) := by
  rw [Bool.eq_iff_iff, beq_iff_eq, beq_iff_eq]
  exact ⟨fun he => by simp [← he], fun he => by simp [he]⟩

/-- Steps that can be followed lead where their names say. -/
theorem follow_eq {l : List (List Char)} {start : Place}
    (h : t.follow start (l.map String.ofList) = .ok place) :
    place = Place.along start (l.filter fun step => !step.isEmpty && step != ['.']) := by
  induction l generalizing start with
  | nil => exact (Except.ok.inj h).symm
  | cons step l ih =>
      rw [List.map_cons, follow, ofList_beq, ofList_beq, ofList_beq] at h
      split at h
      · cases h
      · cases h
      · split at h
        · rename_i hskip
          rw [List.filter_cons_of_neg (by simpa [List.isEmpty_iff, ← or_iff_not_imp_left] using hskip)]
          exact ih h
        · rename_i hcounts
          rw [List.filter_cons_of_pos (by simpa [List.isEmpty_iff] using hcounts)]
          show place = Place.along (Place.next start step) _
          split at h
          · rename_i hup
            rw [Place.next, if_pos (by simpa using hup)]
            exact ih h
          · rename_i hdown
            split at h
            · cases h
            · rw [Place.next, if_neg (by simpa using hdown)]
              exact ih h

theorem locate_eq (h : t.locate path = .ok place) : place = Place.resolve t.current path := by
  unfold locate at h
  dsimp only at h
  split at h
  · cases h
  · split at h
    · cases h
    · split at h
      · cases h
      · exact follow_eq h

/-! ### One operation -/

theorem makeDirectory_eq_ok (h : t.makeDirectory path = .ok t') :
    ∃ place, t.locate path = .ok place ∧ t.get? place = none ∧ t' = t.put place .directory := by
  unfold makeDirectory at h
  cases hlocated : t.locate path with
  | error error => rw [hlocated] at h; cases h
  | ok place =>
      rw [hlocated] at h
      cases hentry : t.get? place with
      | some entry => simp [bind, Except.bind, hentry] at h
      | none =>
          simp only [bind, Except.bind, hentry] at h
          exact ⟨place, rfl, hentry, (Except.ok.inj h).symm⟩

theorem write_eq_ok (h : t.write path bytes = .ok t') :
    ∃ place, t.locate path = .ok place ∧ t.get? place ≠ some .directory ∧ t' = t.put place (.file bytes) := by
  unfold write at h
  split at h
  · cases hlocated : t.locate (String.ofList (path.toList.reverse.dropWhile (· == '/')).reverse) with
    | error error => rw [hlocated] at h; cases h
    | ok place => rw [hlocated] at h; cases h
  · cases hlocated : t.locate path with
    | error error => rw [hlocated] at h; cases h
    | ok place =>
        rw [hlocated] at h
        simp only [bind, Except.bind] at h
        split at h
        · cases h
        · rename_i hentry
          exact ⟨place, rfl, hentry, (Except.ok.inj h).symm⟩

theorem delete_eq_ok (h : t.delete path = .ok t') :
    ∃ place bytes, t.locate path = .ok place ∧ t.get? place = some (.file bytes) ∧ t' = t.erase place := by
  unfold delete at h
  cases hlocated : t.locate path with
  | error error => rw [hlocated] at h; cases h
  | ok place =>
      rw [hlocated] at h
      simp only [bind, Except.bind] at h
      split at h
      · rename_i bytes hentry
        exact ⟨place, bytes, rfl, hentry, (Except.ok.inj h).symm⟩
      · cases h
      · cases h

theorem ne_nil_of_get? (h : t.get? place ≠ some .directory) : place ≠ [] := by
  rintro rfl
  exact h rfl

theorem put_altersOnly {entry : FileEntry} (hplace : place ≠ []) (hP : P place) :
    AltersOnly P t (t.put place entry) := by
  refine ⟨rfl, rfl, fun p hp => ?_⟩
  unfold file? at hp
  rw [get?_put t p entry hplace] at hp
  by_cases he : p = place
  · exact he ▸ hP
  · rw [if_neg he] at hp
    exact absurd rfl hp

/-- A new directory is no file, and no file stood there. -/
theorem makeDirectory_altersOnly (h : t.makeDirectory path = .ok t') : AltersOnly P t t' := by
  obtain ⟨place, _, hentry, rfl⟩ := makeDirectory_eq_ok h
  refine ⟨rfl, rfl, fun p hp => absurd ?_ hp⟩
  have hplace : place ≠ [] := ne_nil_of_get? (by rw [hentry]; simp)
  unfold file?
  rw [get?_put t p .directory hplace]
  by_cases he : p = place
  · rw [if_pos he, he, hentry]
  · rw [if_neg he]

theorem write_altersOnly (h : t.write path bytes = .ok t') (hP : P (.resolve t.current path)) :
    AltersOnly P t t' := by
  obtain ⟨place, hlocated, hentry, rfl⟩ := write_eq_ok h
  exact put_altersOnly (ne_nil_of_get? hentry) (locate_eq hlocated ▸ hP)

theorem delete_altersOnly (h : t.delete path = .ok t') (hP : P (.resolve t.current path)) :
    AltersOnly P t t' := by
  obtain ⟨place, bytes, hlocated, hentry, rfl⟩ := delete_eq_ok h
  have hplace : place ≠ [] := ne_nil_of_get? (by rw [hentry]; simp)
  refine ⟨rfl, rfl, fun p hp => ?_⟩
  unfold file? at hp
  rw [get?_erase t p hplace] at hp
  by_cases he : p = place
  · rw [he, locate_eq hlocated]
    exact hP
  · rw [if_neg he] at hp
    exact absurd rfl hp

theorem makeDirectories_altersOnly (P : Place → Prop) (t : FileTree) (paths : List String) :
    AltersOnly P t (t.makeDirectories paths).1 := by
  induction paths generalizing t with
  | nil => exact .refl P t
  | cons path parents ih =>
      unfold makeDirectories
      split
      · rename_i hmade
        exact makeDirectory_altersOnly hmade
      · have hparents := ih t
        split
        · rename_i hmade
          rwa [hmade] at hparents
        · rename_i hmade
          rw [hmade] at hparents
          split
          · rename_i hlast
            exact hparents.trans (makeDirectory_altersOnly hlast)
          · exact hparents
      · exact .refl P t

end FileTree

end Pagefold
