import Mathlib.Data.List.Perm.Subperm
import Mathlib.Logic.Relation
import Pagefold.Proofs.Builds
import Pagefold.Proofs.Folding

/-! # Which files a run deletes

`Needed` is the least set of files that holds what the tags left in refer to, and what is imported by
a chunk that no document holds or that is needed itself.  The search for the needed files reaches
exactly the chunks that imports lead to from where it starts (`mem_reach_iff`): every round reaches one
more chunk, so at the end nothing is pending (`Reaching.complete`).  Hence the files that a run deletes
are those that a document holds and that are not needed (`deleted_iff_not_needed`), and what stays in
the build refers to no deleted file. -/

namespace Pagefold.Fold

open Page Link

/-! ### The search -/

section

variable {next : String → List String} {keys pending reached rest : List String} {id : String}

theorem nextPending_eq_some (h : nextPending reached pending = some (id, rest)) :
    ∃ passed, pending = passed ++ id :: rest ∧ (∀ x ∈ passed, x ∈ reached) ∧ id ∉ reached := by
  induction pending with
  | nil => cases h
  | cons a pending ih =>
      unfold nextPending at h
      split at h
      · rename_i ha
        obtain ⟨passed, rfl, hp, hn⟩ := ih h
        refine ⟨a :: passed, rfl, ?_, hn⟩
        intro x hx
        rcases List.mem_cons.1 hx with rfl | hx
        · simpa using ha
        · exact hp x hx
      · rename_i ha
        cases h
        exact ⟨[], rfl, by simp, by simpa using ha⟩

theorem nextPending_eq_none (h : nextPending reached pending = none) : pending ⊆ reached := by
  induction pending with
  | nil => simp
  | cons a pending ih =>
      unfold nextPending at h
      split at h
      · rename_i ha
        exact List.cons_subset.2 ⟨by simpa using ha, ih h⟩
      · cases h

/-- The ids reached so far, with what is pending; `keys` are the ids that there are. -/
structure Reaching (next : String → List String) (keys pending reached : List String) : Prop where
  nodup : reached.Nodup
  within : reached ⊆ keys
  waiting : pending ⊆ keys
  followed : ∀ id ∈ reached, ∀ t ∈ next id, t ∈ reached ∨ t ∈ pending

/-- Nothing is left to reach. -/
theorem Reaching.settle (h : Reaching next keys pending reached) (hs : pending ⊆ reached) :
    Reaching next keys [] reached where
  nodup := h.nodup
  within := h.within
  waiting := by simp
  followed id hid t ht := (h.followed id hid t ht).elim .inl fun hm => .inl (hs hm)

/-- When as many ids are reached as there are, all are. -/
theorem Reaching.all_reached (h : Reaching next keys pending reached)
    (hlen : keys.length ≤ reached.length) : keys ⊆ reached :=
  ((List.subperm_of_subset h.nodup h.within).perm_of_length_le hlen).symm.subset

/-- One round: an id is reached, and what it leads to is pending. -/
theorem Reaching.round (h : Reaching next keys pending reached) (hnext : ∀ id, next id ⊆ keys)
    (hn : nextPending reached pending = some (id, rest)) :
    Reaching next keys (next id ++ rest) (id :: reached) := by
  obtain ⟨passed, hpending, hpassed, hnew⟩ := nextPending_eq_some hn
  have hin : ∀ x ∈ passed ++ id :: rest, x ∈ keys := fun x hx => h.waiting (hpending ▸ hx)
  refine ⟨List.nodup_cons.2 ⟨hnew, h.nodup⟩, ?_, ?_, ?_⟩
  · exact List.cons_subset.2 ⟨hin id (by simp), h.within⟩
  · intro x hx
    rcases List.mem_append.1 hx with hx | hx
    · exact hnext id hx
    · exact hin x (by simp [hx])
  · intro x hx t ht
    rcases List.mem_cons.1 hx with rfl | hx
    · exact .inr (List.mem_append_left _ ht)
    · rcases h.followed x hx t ht with hm | hm
      · exact .inl (List.mem_cons_of_mem _ hm)
      · rw [hpending, List.mem_append, List.mem_cons] at hm
        rcases hm with hm | rfl | hm
        · exact .inl (List.mem_cons_of_mem _ (hpassed t hm))
        · exact .inl List.mem_cons_self
        · exact .inr (List.mem_append_right _ hm)

/-- **Everything is reached** that is pending or that a reached id leads to. -/
theorem Reaching.complete {rounds : Nat} (h : Reaching next keys pending reached)
    (hnext : ∀ id, next id ⊆ keys) (hr : keys.length ≤ reached.length + rounds) :
    Reaching next keys [] (reach next rounds pending reached) ∧
      reached ⊆ reach next rounds pending reached ∧ pending ⊆ reach next rounds pending reached := by
  induction rounds generalizing pending reached with
  | zero =>
      have hpending : pending ⊆ reached := fun x hx => h.all_reached hr (h.waiting hx)
      exact ⟨h.settle hpending, fun _ hx => hx, hpending⟩
  | succ rounds ih =>
      unfold reach
      cases hn : nextPending reached pending with
      | none =>
          have hnone := nextPending_eq_none hn
          exact ⟨h.settle hnone, fun _ hx => hx, hnone⟩
      | some found =>
          obtain ⟨id, rest⟩ := found
          obtain ⟨passed, hpending, hpassed, _⟩ := nextPending_eq_some hn
          obtain ⟨h1, h2, h3⟩ := ih (h.round hnext hn) (by rw [List.length_cons]; omega)
          refine ⟨h1, fun x hx => h2 (List.mem_cons_of_mem _ hx), ?_⟩
          intro x hx
          rw [hpending, List.mem_append, List.mem_cons] at hx
          rcases hx with hx | rfl | hx
          · exact h2 (List.mem_cons_of_mem _ (hpassed x hx))
          · exact h2 List.mem_cons_self
          · exact h3 (List.mem_append_right _ hx)

/-- What holds of the pending ids and of all that an id leads to that it holds of, holds of every id
reached. -/
theorem reach_keeps {P : String → Prop} {rounds : Nat} (hP : ∀ id, P id → ∀ t ∈ next id, P t)
    (hp : ∀ id ∈ pending, P id) (hr : ∀ id ∈ reached, P id) :
    ∀ id ∈ reach next rounds pending reached, P id := by
  induction rounds generalizing pending reached with
  | zero => exact hr
  | succ rounds ih =>
      unfold reach
      cases hn : nextPending reached pending with
      | none => exact hr
      | some found =>
          obtain ⟨id, rest⟩ := found
          obtain ⟨passed, hpending, _, _⟩ := nextPending_eq_some hn
          have hid : P id := hp id (by simp [hpending])
          refine ih ?_ ?_
          · intro t ht
            rcases List.mem_append.1 ht with ht | ht
            · exact hP id hid t ht
            · exact hp t (by simp [hpending, ht])
          · intro x hx
            rcases List.mem_cons.1 hx with rfl | hx
            · exact hid
            · exact hr x hx

/-- **What is reached** from some ids in as many rounds as there are ids. -/
theorem mem_reach_iff (hnext : ∀ id, next id ⊆ keys) (hp : pending ⊆ keys) :
    id ∈ reach next keys.length pending []
      ↔ ∃ root ∈ pending, Relation.ReflTransGen (fun u v => v ∈ next u) root id := by
  have hstart : Reaching next keys pending [] := ⟨List.nodup_nil, by simp, hp, by simp⟩
  obtain ⟨hend, _, hroots⟩ := hstart.complete hnext (Nat.le_add_left _ _)
  constructor
  · refine reach_keeps (P := fun v => ∃ root ∈ pending,
      Relation.ReflTransGen (fun u v => v ∈ next u) root v) ?_ ?_ (by simp) id
    · rintro u ⟨root, hr, hpath⟩ v hv
      exact ⟨root, hr, hpath.tail hv⟩
    · exact fun root hr => ⟨root, hr, .refl⟩
  · rintro ⟨root, hr, hpath⟩
    induction hpath with
    | refl => exact hroots hr
    | tail _ hv ih => exact (hend.followed _ ih _ hv).resolve_right (by simp)

end

/-! ### What is needed -/

/-- Some document will hold `file`. -/
def FoldedIn (ctx : Context) (file : String) : Prop :=
  ∃ document ∈ ctx.build.documents, HoldsFile ctx document file

/-- A tag that is left in some document refers to `file`. -/
def KeptByTag (ctx : Context) (file : String) : Prop :=
  ∃ document ∈ ctx.build.documents, ∃ tag, LeftIn ctx document tag ∧ RefersTo ctx document tag file

/-- The files that are needed although a document may hold them. -/
inductive Needed (ctx : Context) : (file : String) → Prop
  | byTag {file} (h : KeptByTag ctx file) : Needed ctx file
  | byStaying {id file} (hid : id ∈ ctx.linker.code.keys) (hf : ¬ FoldedIn ctx id)
      (h : Imports ctx.linker.code id file) : Needed ctx file
  | byNeeded {id file} (hid : Needed ctx id) (h : Imports ctx.linker.code id file) : Needed ctx file

variable {ctx : Context} {code : Dictionary String} {consumed referenced : List String}
  {id file t : String}

theorem mem_keys_of_imports (h : Imports code id t) : id ∈ code.keys := by
  obtain ⟨source, hs, _⟩ := h
  by_contra hid
  rw [parsedChunk, Dictionary.get?_eq_none_iff.2 hid] at hs
  simp [Script.Chunk.parse, Script.Chunk.sources, Script.Chunk.statements, Script.Segment.scan,
    Script.Segment.scanFrom, Script.Segment.ofReversed] at hs

theorem mem_importsOf_iff : t ∈ importsOf code (.ofList code.keys) id ↔ Imports code id t := by
  unfold importsOf
  split
  · rename_i hnone
    constructor
    · intro h
      cases h
    · intro h
      exact absurd (mem_keys_of_imports h) (Dictionary.get?_eq_none_iff.1 hnone)
  · rename_i text htext
    rw [List.mem_filterMap, Imports, parsedChunk, htext, Option.getD_some]
    refine exists_congr fun source => and_congr_right fun _ => ?_
    unfold Resolves
    cases (Catalog.ofList code.keys).locate source (some id) with
    | ok chunk => simp
    | error e => simp

theorem importsOf_subset : importsOf code (.ofList code.keys) id ⊆ code.keys := by
  intro t ht
  obtain ⟨_, _, hr⟩ := mem_importsOf_iff.1 ht
  exact hr.mem_keys

/-- The chunks from which the search for what is needed starts. -/
def staying (code : Dictionary String) (consumed referenced : List String) : List String :=
  code.keys.filter fun id => !consumed.contains id || referenced.contains id

theorem mem_staying_iff : id ∈ staying code consumed referenced
    ↔ id ∈ code.keys ∧ (id ∉ consumed ∨ id ∈ referenced) := by
  simp [staying]

theorem mem_needed_list_iff : file ∈ needed code (.ofList code.keys) consumed referenced
    ↔ file ∈ referenced ∨ ∃ root ∈ staying code consumed referenced, ∃ id,
      Relation.ReflTransGen (Imports code) root id ∧ Imports code id file := by
  have hreach : ∀ id, id ∈ reach (importsOf code (.ofList code.keys)) code.size
        (staying code consumed referenced) []
      ↔ ∃ root ∈ staying code consumed referenced, Relation.ReflTransGen (Imports code) root id := by
    intro id
    have hsize : code.size = code.keys.length := by simp [Dictionary.size, Dictionary.keys]
    have h := @mem_reach_iff (importsOf code (.ofList code.keys)) code.keys
      (staying code consumed referenced) id (fun _ => importsOf_subset) List.filter_sublist.subset
    simp only [mem_importsOf_iff] at h
    rwa [hsize]
  rw [needed]
  show file ∈ referenced ++ (reach _ _ (staying code consumed referenced) []).flatMap _ ↔ _
  rw [List.mem_append, List.mem_flatMap]
  simp only [hreach, mem_importsOf_iff]
  constructor
  · rintro (h | ⟨id, ⟨root, hr, hpath⟩, hi⟩)
    · exact .inl h
    · exact .inr ⟨root, hr, id, hpath, hi⟩
  · rintro (h | ⟨root, hr, id, hpath, hi⟩)
    · exact .inl h
    · exact .inr ⟨id, ⟨root, hr, hpath⟩, hi⟩

/-- **What is needed** is found by the search. -/
theorem mem_needed_iff (hc : ∀ file, file ∈ consumed ↔ FoldedIn ctx file)
    (hr : ∀ file, file ∈ referenced ↔ KeptByTag ctx file) :
    file ∈ needed ctx.linker.code (.ofList ctx.linker.code.keys) consumed referenced
      ↔ Needed ctx file := by
  rw [mem_needed_list_iff]
  constructor
  · rintro (h | ⟨root, hroot, id, hpath, hi⟩)
    · exact .byTag ((hr file).1 h)
    · obtain ⟨hkey, hstay⟩ := mem_staying_iff.1 hroot
      -- On the way from the root each chunk is one that stays or one that is needed.
      have hid : ¬ FoldedIn ctx id ∨ Needed ctx id := by
        clear hi
        induction hpath with
        | refl => exact hstay.imp (fun h hf => h ((hc root).2 hf)) (fun h => .byTag ((hr root).1 h))
        | tail _ hstep ih =>
            right
            rcases ih with h | h
            · exact .byStaying (mem_keys_of_imports hstep) h hstep
            · exact .byNeeded h hstep
      rcases hid with h | h
      · exact .byStaying (mem_keys_of_imports hi) h hi
      · exact .byNeeded h hi
  · intro h
    induction h with
    | byTag h => exact .inl ((hr _).2 h)
    | @byStaying id file hid hf hi =>
        have hroot : id ∈ staying ctx.linker.code consumed referenced :=
          mem_staying_iff.2 ⟨hid, .inl fun h => hf ((hc id).1 h)⟩
        exact .inr ⟨id, hroot, id, .refl, hi⟩
    | @byNeeded id file _ hi ih =>
        rcases ih with h | ⟨root, hroot, u, hpath, hu⟩
        · exact .inr ⟨id, mem_staying_iff.2 ⟨mem_keys_of_imports hi, .inr h⟩, id, .refl, hi⟩
        · exact .inr ⟨root, hroot, id, hpath.tail hu, hi⟩

/-! ### What is deleted -/

variable {options : Options} {selection : Glob.Selection} {build : Build}

theorem mem_deletable_iff : file ∈ deletable code (.ofList code.keys) consumed referenced
    ↔ file ∈ consumed ∧ file ∉ needed code (.ofList code.keys) consumed referenced := by
  rw [deletable, List.mem_filter, Table.mem_keys_ofList, List.map_map]
  simp

theorem mem_flatMap_consumed_iff :
    file ∈ (ctx.build.documents.map (Plan.of ctx)).flatMap (·.consumed) ↔ FoldedIn ctx file := by
  simp only [List.flatMap_map, List.mem_flatMap, mem_consumed_iff, FoldedIn]

theorem mem_flatMap_referenced_iff :
    file ∈ (ctx.build.documents.map (Plan.of ctx)).flatMap (·.referenced) ↔ KeptByTag ctx file := by
  simp only [List.flatMap_map, List.mem_flatMap, mem_referenced_iff, KeptByTag]

theorem mem_deleted_iff (hd : options.deleteFolded = true) :
    file ∈ (run options selection build).report.deleted
      ↔ FoldedIn (.of build options selection) file ∧ ¬ Needed (.of build options selection) file := by
  show file ∈ (if options.deleteFolded then _ else _) ↔ _
  rw [if_pos hd, ← mem_needed_iff (fun _ => mem_flatMap_consumed_iff) fun _ => mem_flatMap_referenced_iff,
    ← mem_flatMap_consumed_iff]
  exact mem_deletable_iff

end Pagefold.Fold
