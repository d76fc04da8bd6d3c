import Pagefold.Proofs.Layering

/-! # Merging along paths

One value is laid over another key by key, and what this leaves can be read off along a path of keys.  Where the
update ends in anything but an object, the update stands (`at?_merge_of_leaf`).  Where it has an object without the
next key, what was there before stands, or nothing (`at?_merge_of_passed`).

A field absorbs an update that leaves it as it is when it is laid over it.  Fields that absorb all updates are not
changed by them (`mergeFields_eq_self`), and after a merge they do; so merging a second time changes nothing
(`merge_merge_self`). -/

namespace Pagefold.Json

variable {t u value : Json} {key : String} {front rest path : List String}
  {fields updates : List (String × Json)}

/-! ### Paths -/

/-- A field under an object that is laid over a value, whatever that value is. -/
theorem field?_merge_object (t : Json) (updates : List (String × Json)) (key : String) :
    (merge t (.object updates)).field? key
      = match updates.lookup key with
        | some update => some (merge ((t.field? key).getD .null) update)
        | none => t.field? key := by
  by_cases hobject : ∃ fields, t = .object fields
  · obtain ⟨fields, rfl⟩ := hobject
    rw [merge_objects]
    exact lookup_mergeFields fields updates key
  · have hmerge : merge t (.object updates) = .object updates := by
      rw [merge]
      exact fun fields h => hobject ⟨fields, h⟩
    have hnone : t.field? key = none := by
      cases t with
      | object fields => exact absurd ⟨fields, rfl⟩ hobject
      | null | bool | number | string | array => rfl
    rw [hmerge, hnone, field?]
    cases updates.lookup key with
    | none => rfl
    | some update => exact congrArg some (merge_null update).symm

/-- What an update has at a path, unless it is an object, stands there afterwards. -/
theorem at?_merge_of_leaf (t : Json) (h : u.at? path = some value) (hleaf : ∀ fields, value ≠ .object fields) :
    (merge t u).at? path = some value := by
  induction path generalizing t u with
  | nil =>
      cases h
      rw [merge_eq_update hleaf]
      rfl
  | cons key path ih =>
      obtain ⟨inner, hinner, hrest⟩ := Option.bind_eq_some_iff.1 h
      cases u with
      | object updates =>
          have hlookup : updates.lookup key = some inner := hinner
          rw [at?, field?_merge_object, hlookup]
          exact ih _ hrest
      | null | bool | number | string | array => cases hinner

/-- Nothing changes behind an object of the update that does not have the next key. -/
theorem at?_merge_of_passed (t : Json) (h : u.at? front = some (.object updates)) (hkey : updates.lookup key = none) :
    (merge t u).at? (front ++ key :: rest) = t.at? (front ++ key :: rest) := by
  induction front generalizing t u with
  | nil =>
      cases h
      rw [List.nil_append, at?, field?_merge_object, hkey]
      rfl
  | cons first front ih =>
      obtain ⟨inner, hinner, hrest⟩ := Option.bind_eq_some_iff.1 h
      cases u with
      | object firsts =>
          have hlookup : firsts.lookup first = some inner := hinner
          rw [List.cons_append, at?, at?, field?_merge_object, hlookup]
          refine (ih ((t.field? first).getD .null) hrest).trans ?_
          cases t.field? first with
          | some old => rfl
          | none => cases front <;> rfl
      | null | bool | number | string | array => cases hinner

/-- Behind anything but an object there is nothing. -/
theorem at?_eq_none_of_closed (h : ∀ fields, t.at? front ≠ some (.object fields)) :
    t.at? (front ++ key :: rest) = none := by
  rw [at?_append]
  cases hfront : t.at? front with
  | none => rfl
  | some value =>
      cases value with
      | object fields => exact absurd hfront (h fields)
      | null | bool | number | string | array => rfl

/-! ### Replaced fields -/

theorem Fields.replace_eq_self (h : fields.lookup key = some value) : replace key value fields = fields := by
  induction fields with
  | nil => cases h
  | cons field others ih =>
      obtain ⟨k, v⟩ := field
      rw [Lookup.lookup_cons_ite] at h
      unfold replace
      split at h
      · rename_i hk
        rw [if_pos (beq_iff_eq.2 hk), Option.some_inj.1 h, hk]
      · rename_i hk
        rw [if_neg (by simpa using hk), ih h]

theorem Fields.replace_replace (key : String) (earlier value : Json) (fields : List (String × Json)) :
    replace key value (replace key earlier fields) = replace key value fields := by
  induction fields with
  | nil => rfl
  | cons field others ih =>
      obtain ⟨k, v⟩ := field
      by_cases hk : key = k
      · simp [replace, hk]
      · simp [replace, hk, ih]

theorem Fields.replace_comm {other : String} (hne : key ≠ other) (value value' : Json)
    (fields : List (String × Json)) :
    replace key value (replace other value' fields) = replace other value' (replace key value fields) := by
  induction fields with
  | nil => rfl
  | cons field others ih =>
      obtain ⟨k, v⟩ := field
      by_cases hk : key = k
      · subst hk
        simp [replace, hne.symm]
      · by_cases ho : other = k
        · subst ho
          simp [replace, hne]
        · simp [replace, hk, ho, ih]

/-! ### Updates that are absorbed -/

/-- Every key of the updates is a key of the fields. -/
def Covers (fields updates : List (String × Json)) : Prop := ∀ update ∈ updates, update.1 ∈ fields.map (·.1)

theorem Covers.tail {update : String × Json} (h : Covers fields (update :: updates)) : Covers fields updates :=
  fun other hother => h other (List.mem_cons_of_mem update hother)

theorem keys_mergeFields (h : Covers fields updates) :
    (mergeFields fields updates).map (·.1) = fields.map (·.1) := by
  induction updates with
  | nil => rw [mergeFields]
  | cons update others ih =>
      have hkeys := ih h.tail
      have hhead : ((mergeFields fields others).lookup update.1).isSome = true := by
        rw [Dictionary.lookup_isSome_iff, hkeys]
        exact h update List.mem_cons_self
      rw [mergeFields, Fields.put, if_pos hhead, Fields.keys_replace, hkeys]

/-- An update of a key that is there replaces its value. -/
theorem mergeFields_cons {update : Json} (h : Covers fields ((key, update) :: updates)) :
    mergeFields fields ((key, update) :: updates)
      = Fields.replace key (merge ((fields.lookup key).getD .null) update) (mergeFields fields updates) := by
  have hhead : ((mergeFields fields updates).lookup key).isSome = true := by
    rw [Dictionary.lookup_isSome_iff, keys_mergeFields h.tail]
    exact h (key, update) List.mem_cons_self
  rw [mergeFields, Fields.put, if_pos hhead]

/-- Updates of a key are lost when its value is replaced in the end. -/
theorem replace_mergeFields (key : String) (value : Json) (h : Covers fields updates) :
    Fields.replace key value (mergeFields fields updates)
      = Fields.replace key value (mergeFields fields (updates.filter (·.1 != key))) := by
  induction updates with
  | nil => rfl
  | cons update others ih =>
      obtain ⟨k, v⟩ := update
      rw [mergeFields_cons h]
      by_cases hk : key = k
      · subst hk
        rw [Fields.replace_replace, ih h.tail, List.filter_cons_of_neg (by simp)]
      · have hfilter : ((k, v) :: others).filter (·.1 != key) = (k, v) :: others.filter (·.1 != key) :=
          List.filter_cons_of_pos (by simpa using Ne.symm hk)
        have hcovers : Covers fields ((k, v) :: others.filter (·.1 != key)) :=
          hfilter ▸ fun other hother => h other (List.mem_of_mem_filter hother)
        rw [Fields.replace_comm hk, ih h.tail, hfilter, mergeFields_cons hcovers, Fields.replace_comm hk]

/-- Each update leaves the field of its key as it is. -/
def Absorbs (fields updates : List (String × Json)) : Prop :=
  ∀ key update, updates.lookup key = some update →
    ∃ value, fields.lookup key = some value ∧ merge value update = value

theorem Absorbs.covers (h : Absorbs fields updates) : Covers fields updates := by
  intro update hupdate
  have hsome : (updates.lookup update.1).isSome = true :=
    Dictionary.lookup_isSome_iff.2 (List.mem_map_of_mem hupdate)
  obtain ⟨first, hfirst⟩ := Option.isSome_iff_exists.1 hsome
  obtain ⟨value, hvalue, _⟩ := h update.1 first hfirst
  exact Dictionary.lookup_isSome_iff.1 (hvalue ▸ rfl)

theorem Absorbs.filter {update : Json} (h : Absorbs fields ((key, update) :: updates)) :
    Absorbs fields (updates.filter (·.1 != key)) := by
  intro k later hlater
  rw [Lookup.lookup_filter_ne] at hlater
  split at hlater
  · cases hlater
  · rename_i hk
    exact h k later (by rw [Lookup.lookup_cons_ite, if_neg hk, hlater])

/-- **Fields that absorb updates** are left as they are. -/
theorem mergeFields_eq_self {updates : List (String × Json)} (h : Absorbs fields updates) :
    mergeFields fields updates = fields := by
  match updates with
  | [] => rw [mergeFields]
  | (key, update) :: others =>
      obtain ⟨value, hvalue, hmerge⟩ := h key update List.lookup_cons_self
      calc mergeFields fields ((key, update) :: others)
          = Fields.replace key value (mergeFields fields others) := by
            rw [mergeFields_cons h.covers, hvalue, Option.getD_some, hmerge]
        _ = Fields.replace key value (mergeFields fields (others.filter (·.1 != key))) :=
            replace_mergeFields key value h.covers.tail
        _ = Fields.replace key value fields := by rw [mergeFields_eq_self h.filter]
        _ = fields := Fields.replace_eq_self hvalue
termination_by updates.length
decreasing_by exact Nat.lt_succ_of_le (List.length_filter_le _ _)

/-! ### Merging again -/

theorem sizeOf_lt_of_lookup (h : fields.lookup key = some value) : sizeOf value < sizeOf (Json.object fields) := by
  obtain ⟨before, behind, rfl, _⟩ := List.lookup_eq_some_iff.1 h
  have hmem : (key, value) ∈ before ++ (key, value) :: behind := List.mem_append_right _ List.mem_cons_self
  have hlt := List.sizeOf_lt_of_mem hmem
  simp only [Prod.mk.sizeOf_spec] at hlt
  simp only [Json.object.sizeOf_spec]
  omega

/-- **Merging again** changes nothing. -/
theorem merge_merge_self (t u : Json) : merge (merge t u) u = merge t u := by
  by_cases hobject : ∃ updates, u = .object updates
  · obtain ⟨updates, rfl⟩ := hobject
    obtain ⟨merged, hmerged⟩ := exists_merge_object t updates
    have habsorbs : Absorbs merged updates := by
      intro key update hupdate
      have hfield := field?_merge_object t updates key
      rw [hmerged, hupdate] at hfield
      exact ⟨_, hfield, merge_merge_self _ update⟩
    rw [hmerged, merge_objects, mergeFields_eq_self habsorbs]
  · have hleaf : ∀ updates, u ≠ .object updates := fun updates h => hobject ⟨updates, h⟩
    rw [merge_eq_update hleaf, merge_eq_update hleaf]
termination_by sizeOf u
decreasing_by
  subst u
  exact sizeOf_lt_of_lookup hupdate

/-- **Merging along paths.**  What the update has at a path stands there afterwards, unless it is an object.  Where
the update has an object that lacks the next key of the path, all that was behind it stands as it did: nothing, if
there was no object.  And merging the update again changes nothing. -/
theorem merge_along_paths (t u : Json) :
    (∀ path value, u.at? path = some value → (∀ fields, value ≠ .object fields) →
      (merge t u).at? path = some value) ∧
    (∀ front key rest updates, u.at? front = some (.object updates) → updates.lookup key = none →
      (∀ fields, t.at? front = some (.object fields) →
        (merge t u).at? (front ++ key :: rest) = t.at? (front ++ key :: rest)) ∧
      ((∀ fields, t.at? front ≠ some (.object fields)) → (merge t u).at? (front ++ key :: rest) = none)) ∧
    merge (merge t u) u = merge t u := by
  refine ⟨fun path value h hleaf => at?_merge_of_leaf t h hleaf, ?_, merge_merge_self t u⟩
  intro front key rest updates hfront hkey
  have hpassed : (merge t u).at? (front ++ key :: rest) = t.at? (front ++ key :: rest) :=
    at?_merge_of_passed t hfront hkey
  exact ⟨fun _ _ => hpassed, fun hclosed => hpassed.trans (at?_eq_none_of_closed hclosed)⟩

end Pagefold.Json
