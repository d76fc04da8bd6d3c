import Pagefold.Proofs.Linking
import Pagefold.Proofs.Lists

/-! # References among fewer files

A catalog of distinct ids lists them in their order, and those of one file name in their order too
(`named_ofList`).  An id that comes again changes nothing (`ofList_eraseDups`).  When some of the ids go,
a reference that still means something means what it meant before, unless that has gone
(`locate_of_filter`). -/

namespace Pagefold.Link.Catalog

variable {ids : List String} {catalog : Catalog} {reference : String} {importer? : Option String}
  {kept : String → Bool} {located' : Located}

theorem foldl_insert (h : (catalog.ids ++ ids).Nodup) : (ids.foldl insert catalog).ids = catalog.ids ++ ids ∧
    ∀ name, (ids.foldl insert catalog).named name
      = catalog.named name ++ ids.filter fun id => fileName id == name := by
  induction ids generalizing catalog with
  | nil => simp
  | cons id ids ih =>
      have hnew : id ∉ catalog.ids := fun hm => (List.nodup_append.1 h).2.2 id hm id List.mem_cons_self rfl
      have hinsert : catalog.insert id = ⟨catalog.ids ++ [id],
          catalog.byFileName.insert (fileName id) (catalog.named (fileName id) ++ [id])⟩ := by
        rw [insert, if_neg (by simpa [contains] using hnew)]
      have hnamed : ∀ name, (catalog.insert id).named name
          = catalog.named name ++ if fileName id == name then [id] else [] := by
        intro name
        rw [hinsert, named, Dictionary.get?_insert]
        by_cases hname : name = fileName id
        · simp [hname]
        · rw [if_neg hname, if_neg (by simpa using Ne.symm hname), List.append_nil, named]
      have hids : (catalog.insert id).ids = catalog.ids ++ [id] := by rw [hinsert]
      obtain ⟨hall, hall'⟩ := @ih (catalog.insert id) (by rw [hids]; simpa using h)
      rw [List.foldl_cons]
      refine ⟨by rw [hall, hids]; simp, fun name => ?_⟩
      rw [hall', hnamed, List.append_assoc, List.filter_cons]
      split <;> simp

theorem ids_ofList (h : ids.Nodup) : (ofList ids).ids = ids :=
  (@foldl_insert ids empty h).1

theorem named_ofList (h : ids.Nodup) (name : String) :
    (ofList ids).named name = ids.filter fun id => fileName id == name :=
  (@foldl_insert ids empty h).2 name

/-! ### Repeated ids -/

theorem insert_of_mem {id : String} (h : id ∈ catalog.ids) : catalog.insert id = catalog :=
  if_pos (by simpa [contains] using h)

theorem ofList_concat (ids : List String) (id : String) : ofList (ids ++ [id]) = (ofList ids).insert id := by
  rw [ofList, List.foldl_append, List.foldl_cons, List.foldl_nil, ofList]

/-- An id that comes again is not entered again. -/
theorem ofList_eraseDups (ids : List String) : ofList ids.eraseDups = ofList ids := by
  induction ids using List.reverseRecOn with
  | nil => rfl
  | append_singleton ids id ih =>
      rw [List.eraseDups_append, ofList_concat]
      by_cases hmem : id ∈ ids
      · have hknown : id ∈ (ofList ids).ids := by
          rw [← ih, ids_ofList (Lists.nodup_eraseDups ids)]
          exact List.mem_eraseDups.2 hmem
        rw [insert_of_mem hknown, ← ih]
        simp [List.removeAll, hmem]
      · have hnew : ([id].removeAll ids).eraseDups = [id] := by
          simp [List.removeAll, hmem, List.eraseDups_cons]
        rw [hnew, ofList_concat, ih]

theorem contains_ofList {id : String} : (ofList ids).contains id = true ↔ id ∈ ids := by
  rw [contains, List.contains_iff_mem, ← ofList_eraseDups, ids_ofList (Lists.nodup_eraseDups ids),
    List.mem_eraseDups]

/-- The ids of a file name come in the order of the list, each once. -/
theorem named_ofList_eq (ids : List String) (name : String) :
    (ofList ids).named name = ids.eraseDups.filter fun id => fileName id == name := by
  rw [← ofList_eraseDups, named_ofList (Lists.nodup_eraseDups ids)]

/-! ### Fewer ids -/

/-- **Among fewer ids** a reference means what it meant before, unless that has gone. -/
theorem locate_of_filter (hn : ids.Nodup)
    (h : (ofList (ids.filter kept)).locate reference importer? = .ok located') :
    ∃ located, (ofList ids).locate reference importer? = .ok located ∧
      (kept located.id = true → located.id = located'.id) := by
  have hn' : (ids.filter kept).Nodup := hn.filter _
  unfold locate at h ⊢
  dsimp only at h ⊢
  split at h
  · cases h
  · rename_i hlocal
    rw [if_neg hlocal]
    split at h
    · cases h
    · rename_i hname
      rw [if_neg hname]
      simp only [contains, ids_ofList hn, ids_ofList hn', List.contains_eq_mem, decide_eq_true_eq,
        List.mem_filter] at h ⊢
      split at h
      · rename_i hc
        obtain rfl := Except.ok.inj h
        exact ⟨_, if_pos hc.1, fun _ => rfl⟩
      · rename_i hc
        rw [named_ofList hn'] at h
        rw [named_ofList hn]
        split
        · -- The id that the reference spells out has gone.
          rename_i hm
          exact ⟨_, rfl, fun hk => absurd ⟨hm, hk⟩ hc⟩
        · split at h
          · cases h
          · rename_i first others hfirst
            obtain rfl := Except.ok.inj h
            rw [List.filter_comm] at hfirst
            generalize ids.filter (fun id => fileName id == _) = all at hfirst ⊢
            cases all with
            | nil => cases hfirst
            | cons head rest =>
                refine ⟨_, rfl, fun hk => ?_⟩
                rw [List.filter_cons_of_pos hk] at hfirst
                exact (List.cons.inj hfirst).1

end Pagefold.Link.Catalog
