import Mathlib.Data.List.Nodup
import Pagefold.Config.Environment
import Pagefold.Json.Reread
import Pagefold.Proofs.Dictionary

/-! # Values with distinct keys

No object in a `Tidy` value has a key twice.  A look-up takes the first field of a key where a decoder
takes in every field, and it is on tidy values that the two agree.

Laying one tidy value over another leaves a tidy one (`Tidy.merge`), and so does reading a value twice
(`Tidy.reread`).  What a JSON text is read as is tidy (`tidy_of_parse?`), and so is what variables say
together (`tidy_ofVariables`). -/

namespace Pagefold.Json

/-- A value whose objects have each of their keys once. -/
inductive Tidy : Json → Prop
  | null : Tidy null
  | bool (b : Bool) : Tidy (bool b)
  | number (n : Number) : Tidy (number n)
  | string (s : String) : Tidy (string s)
  | array {items : List Json} (hitems : ∀ item ∈ items, Tidy item) : Tidy (array items)
  | object {fields : List (String × Json)} (hkeys : (fields.map (·.1)).Nodup)
      (hvalues : ∀ field ∈ fields, Tidy field.2) : Tidy (object fields)

variable {a b json value : Json} {key : String} {path : List String} {fields updates : List (String × Json)}

theorem tidy_object_iff :
    Tidy (.object fields) ↔ (fields.map (·.1)).Nodup ∧ ∀ field ∈ fields, Tidy field.2 :=
  ⟨fun h => by cases h with | object hkeys hvalues => exact ⟨hkeys, hvalues⟩, fun h => .object h.1 h.2⟩

theorem tidy_empty : Tidy (.object []) := .object List.nodup_nil fun _ h => absurd h List.not_mem_nil

/-! ### Fields -/

theorem Fields.place_perm (key : String) (value : Json) (fields : List (String × Json)) :
    (place key value fields).Perm ((key, value) :: fields) := by
  induction fields with
  | nil => exact .refl _
  | cons field rest ih =>
      obtain ⟨k, v⟩ := field
      unfold place
      split
      · exact .refl _
      · exact (ih.cons (k, v)).trans (.swap _ _ _)

theorem Fields.keys_replace (key : String) (value : Json) (fields : List (String × Json)) :
    (replace key value fields).map (·.1) = fields.map (·.1) := by
  induction fields with
  | nil => rfl
  | cons field rest ih =>
      obtain ⟨k, v⟩ := field
      unfold replace
      split
      · rename_i hk
        rw [List.map_cons, List.map_cons, beq_iff_eq.1 hk]
      · rw [List.map_cons, List.map_cons, ih]

theorem Fields.mem_replace {field : String × Json} (h : field ∈ replace key value fields) :
    field = (key, value) ∨ field ∈ fields := by
  induction fields with
  | nil => exact absurd h List.not_mem_nil
  | cons first rest ih =>
      obtain ⟨k, v⟩ := first
      unfold replace at h
      split at h
      · exact (List.mem_cons.1 h).imp_right (List.mem_cons_of_mem _)
      · rcases List.mem_cons.1 h with rfl | h
        · exact .inr List.mem_cons_self
        · exact (ih h).imp_right (List.mem_cons_of_mem _)

theorem Fields.nodup_put (h : (fields.map (·.1)).Nodup) : ((put key value fields).map (·.1)).Nodup := by
  unfold put
  split
  · rwa [keys_replace]
  · rename_i hnone
    have hnew : key ∉ fields.map (·.1) := by
      rw [Option.not_isSome_iff_eq_none, List.lookup_eq_none_iff] at hnone
      intro hm
      obtain ⟨field, hf, rfl⟩ := List.mem_map.1 hm
      simpa using hnone field hf
    exact ((place_perm key value fields).map (·.1)).nodup_iff.2 (List.nodup_cons.2 ⟨hnew, h⟩)

theorem Fields.mem_put {field : String × Json} (h : field ∈ put key value fields) :
    field = (key, value) ∨ field ∈ fields := by
  unfold put at h
  split at h
  · exact mem_replace h
  · exact List.mem_cons.1 ((place_perm key value fields).mem_iff.1 h)

theorem nodup_mergeFields (h : (fields.map (·.1)).Nodup) : ((mergeFields fields updates).map (·.1)).Nodup := by
  induction updates with
  | nil => rwa [mergeFields]
  | cons update rest ih =>
      rw [mergeFields]
      exact Fields.nodup_put ih

theorem Tidy.put (h : Tidy (.object fields)) (hv : Tidy value) :
    Tidy (.object (Fields.put key value fields)) := by
  obtain ⟨hkeys, hvalues⟩ := tidy_object_iff.1 h
  refine .object (Fields.nodup_put hkeys) fun field hf => ?_
  rcases Fields.mem_put hf with rfl | hf
  · exact hv
  · exact hvalues field hf

/-- Fields that are put into an object one after the other have distinct keys. -/
theorem tidy_ofFields (h : ∀ field ∈ fields, Tidy field.2) : Tidy (ofFields fields) :=
  List.foldlRecOn (motive := (Tidy <| .object ·)) fields _ tidy_empty fun _ hacc field hf => hacc.put (h field hf)

theorem Tidy.of_lookup (h : Tidy (.object fields)) (hv : fields.lookup key = some value) : Tidy value := by
  obtain ⟨hkeys, hvalues⟩ := tidy_object_iff.1 h
  exact hvalues (key, value) ((Dictionary.lookup_eq_some_iff_mem hkeys).1 hv)

/-- What stands at a path in a tidy value is tidy. -/
theorem Tidy.at? (h : Tidy json) (hv : json.at? path = some value) : Tidy value := by
  induction path generalizing json with
  | nil => exact Option.some_inj.1 hv ▸ h
  | cons key path ih =>
      obtain ⟨inner, hinner, hrest⟩ := Option.bind_eq_some_iff.1 hv
      cases json with
      | object fields => exact ih (h.of_lookup hinner) hrest
      | null | bool | number | string | array => cases hinner

/-! ### Changes of a value -/

theorem merge_objects : merge (.object fields) (.object updates) = .object (mergeFields fields updates) := by
  rw [merge]

/-- What is no object takes the place of a value that it is laid over. -/
theorem merge_eq_update (h : ∀ fields, b ≠ .object fields) : merge a b = b := by
  rw [merge]
  exact h

theorem merge_null (update : Json) : merge .null update = update := by
  cases update <;> simp [merge]

theorem tidy_mergeFields (hf : Tidy (.object fields))
    (hu : ∀ update ∈ updates, ∀ {a}, Tidy a → Tidy (merge a update.2)) :
    Tidy (.object (mergeFields fields updates)) := by
  induction updates with
  | nil => rwa [mergeFields]
  | cons update rest ih =>
      have hold : Tidy ((fields.lookup update.1).getD .null) := by
        cases hl : fields.lookup update.1 with
        | none => exact .null
        | some old => exact hf.of_lookup hl
      rw [mergeFields]
      exact (ih fun u h => hu u (List.mem_cons_of_mem update h)).put (hu update List.mem_cons_self hold)

/-- An object stays one when it is laid over something. -/
theorem exists_merge_object (a : Json) (updates : List (String × Json)) :
    ∃ merged, merge a (.object updates) = .object merged := by
  by_cases hobject : ∃ fields, a = .object fields
  · obtain ⟨fields, rfl⟩ := hobject
    exact ⟨_, merge_objects⟩
  · refine ⟨updates, ?_⟩
    rw [merge]
    exact fun fields h => hobject ⟨fields, h⟩

/-- Laying one tidy value over another leaves a tidy one. -/
theorem Tidy.merge (ha : Tidy a) (hb : Tidy b) : Tidy (a.merge b) := by
  induction hb generalizing a with
  | object hkeys hvalues ih =>
      by_cases hobject : ∃ fields, a = .object fields
      · obtain ⟨fields, rfl⟩ := hobject
        exact merge_objects ▸ tidy_mergeFields ha fun u hu => ih u hu
      · rw [Json.merge]
        · exact .object hkeys hvalues
        · exact fun fields h => hobject ⟨fields, h⟩
  | array hitems =>
      rw [Json.merge]
      · exact .array hitems
      · intro updates h
        cases h
  | null | bool | number | string =>
      rw [Json.merge]
      · constructor
      · intro updates h
        cases h

theorem rereadItems_eq_map (items : List Json) : rereadItems items = items.map reread := by
  induction items with
  | nil => rfl
  | cons item rest ih => rw [rereadItems, ih, List.map_cons]

theorem rereadFields_eq_map (fields : List (String × Json)) :
    rereadFields fields = fields.map fun field => (field.1, field.2.reread) := by
  induction fields with
  | nil => rfl
  | cons field rest ih => rw [rereadFields, ih, List.map_cons]

theorem Tidy.reread (h : Tidy json) : Tidy json.reread := by
  induction h with
  | array hitems ih =>
      rw [Json.reread, rereadItems_eq_map]
      exact .array (List.forall_mem_map.2 ih)
  | object hkeys hvalues ih =>
      rw [Json.reread, rereadFields_eq_map]
      refine .object ?_ (List.forall_mem_map.2 ih)
      rwa [List.map_map]
  | null | bool | number | string => rw [Json.reread]; constructor

/-! ### JSON -/

/-- All that a reader reads has a property. -/
def Reads {α : Type} (P : α → Prop) (read : Reader α) : Prop :=
  ∀ {s a rest}, read s = some (a, rest) → P a

/-- What is made of something that was read has a property if it has it whatever was read. -/
theorem of_map {α β : Type} {P : β → Prop} {f : α × List Char → β × List Char} {o : Option (α × List Char)}
    {b : β} {rest : List Char} (hread : o.map f = some (b, rest)) (h : ∀ x, o = some x → P (f x).1) : P b := by
  obtain ⟨x, hx, hpair⟩ := Option.map_eq_some_iff.1 hread
  have hb := h x hx
  rwa [hpair] at hb

section readers

variable {α : Type} {P : α → Prop} {item : Reader α} {closing : Char} {bound depth : Nat}

theorem reads_items (h : Reads P item) : Reads (∀ a ∈ ·, P a) (items? item closing bound) := by
  intro s as rest hread
  induction bound generalizing s as rest with
  | zero => cases hread
  | succ bound ih =>
      obtain ⟨⟨first, s'⟩, hfirst, hread⟩ := Option.bind_eq_some_iff.1 hread
      dsimp only at hread
      split at hread
      · rename_i c after _
        split at hread
        · cases hread
          simpa using h hfirst
        · split at hread
          · obtain ⟨⟨others, s''⟩, hothers, hread⟩ := Option.bind_eq_some_iff.1 hread
            cases hread
            exact List.forall_mem_cons.2 ⟨h hfirst, ih hothers⟩
          · cases hread
      · cases hread

theorem reads_container (h : Reads P item) : Reads (∀ a ∈ ·, P a) (container? item closing) := by
  intro s as rest hread
  unfold container? at hread
  split at hread
  · split at hread
    · cases hread
      exact fun a ha => absurd ha List.not_mem_nil
    · exact reads_items h hread
  · cases hread

theorem reads_member {read : Reader Json} (h : Reads Tidy read) : Reads (Tidy ·.2) (member? read) := by
  intro s field rest hread
  obtain ⟨⟨key, s'⟩, _, hread⟩ := Option.bind_eq_some_iff.1 hread
  dsimp only at hread
  split at hread
  · obtain ⟨⟨json, s''⟩, hjson, hread⟩ := Option.bind_eq_some_iff.1 hread
    cases hread
    exact h hjson
  · cases hread

theorem reads_word {word : List Char} (h : Tidy json) : Reads Tidy (word? word json) := by
  intro s a rest hread
  obtain ⟨_, _, hpair⟩ := Option.map_eq_some_iff.1 hread
  cases hpair
  exact h

theorem reads_value (depth : Nat) : Reads Tidy (value? depth) := by
  induction depth using Nat.strongRecOn with
  | ind depth ih =>
      intro s json rest hread
      unfold value? at hread
      split at hread
      · exact reads_word .null hread
      · exact reads_word (.bool true) hread
      · exact reads_word (.bool false) hread
      · exact of_map hread fun _ _ => .string _
      · cases depth with
        | zero => cases hread
        | succ depth =>
            exact of_map hread fun _ h => .array (reads_container (ih depth (Nat.lt_succ_self depth)) h)
      · cases depth with
        | zero => cases hread
        | succ depth =>
            exact of_map hread fun _ h =>
              tidy_ofFields (reads_container (reads_member (ih depth (Nat.lt_succ_self depth))) h)
      · exact of_map hread fun _ _ => .number _

/-- **JSON** is read as tidy values: of several fields with one key an object keeps the last. -/
theorem tidy_of_parse? {text : String} (h : parse? text = some json) : Tidy json := by
  unfold parse? at h
  split at h
  · rename_i hread
    split at h
    · cases h
      exact reads_value depthLimit hread
    · cases h
  · cases h

end readers

end Pagefold.Json

/-! ### Variables -/

namespace Pagefold.Table

variable {α : Type} {e : String × α} {entries : List (String × α)}

theorem mem_of_mem_place {key : String} {value : α} (h : e ∈ place key value entries) :
    e = (key, value) ∨ e ∈ entries := by
  induction entries with
  | nil => exact .inl (List.mem_singleton.1 h)
  | cons first rest ih =>
      obtain ⟨k, v⟩ := first
      unfold place at h
      split at h
      · exact List.mem_cons.1 h
      · split at h
        · exact (List.mem_cons.1 h).imp_right (List.mem_cons_of_mem _)
        · rcases List.mem_cons.1 h with rfl | h
          · exact .inr List.mem_cons_self
          · exact (ih h).imp_right (List.mem_cons_of_mem _)

theorem mem_of_mem_ofList (h : e ∈ (ofList entries).entries) : e ∈ entries := by
  refine List.foldlRecOn (motive := fun t : Table α => e ∈ t.entries → e ∈ entries) entries _
    (fun h => absurd h List.not_mem_nil) (fun t ih entry hentry ht => ?_) h
  rcases mem_of_mem_place ht with rfl | ht
  · exact hentry
  · exact ih ht

theorem mem_of_get?_ofList {key : String} {value : α} (h : (ofList entries).get? key = some value) :
    (key, value) ∈ entries := by
  obtain ⟨front, back, heq, _⟩ := List.lookup_eq_some_iff.1 h
  exact mem_of_mem_ofList (heq ▸ List.mem_append_right front List.mem_cons_self)

end Pagefold.Table

namespace Pagefold.Environment

open Json

theorem Reading.tidy_ofItems {items : List Reading} (h : ∀ r ∈ items, r.value.Tidy) :
    (Reading.ofItems items).value.Tidy :=
  .array (List.forall_mem_map.2 h)

theorem Reading.tidy_ofFields {fields : List (String × Reading)} (h : ∀ field ∈ fields, field.2.value.Tidy) :
    (Reading.ofFields fields).value.Tidy := by
  refine .object ?_ (List.forall_mem_map.2 fun field hf => h field (Table.mem_of_mem_ofList hf))
  rw [List.map_map]
  exact (Table.ofList fields).sorted.imp String.ne_of_lt

theorem reads_items {α : Type} {P : α → Prop} {item : Reader α} {closing : Char} {bound : Nat} (h : Reads P item) :
    Reads (∀ a ∈ ·, P a) (items? item closing bound) := by
  intro s as rest hread
  induction bound generalizing s as rest with
  | zero => cases hread
  | succ bound ih =>
      unfold items? at hread
      split at hread
      · cases hread
        exact fun a ha => absurd ha List.not_mem_nil
      · obtain ⟨⟨first, s'⟩, hfirst, hread⟩ := Option.bind_eq_some_iff.1 hread
        dsimp only at hread
        split at hread
        · split at hread
          · cases hread
            exact List.forall_mem_singleton.2 (h hfirst)
          · split at hread
            · obtain ⟨⟨others, s''⟩, hothers, hread⟩ := Option.bind_eq_some_iff.1 hread
              cases hread
              exact List.forall_mem_cons.2 ⟨h hfirst, ih hothers⟩
            · cases hread
        · cases hread

theorem tidy_bare (s : List Char) : (bare s).value.Tidy := by
  unfold bare
  split
  · exact .number _
  · split
    · exact .number _
    · exact .string _

theorem reads_field {depth : Nat} (h : Reads (·.value.Tidy) (value? depth)) :
    Reads (fun field : String × Reading => field.2.value.Tidy) fun s => do
      let (key, s) ← key? s
      let (r, s) ← value? depth s
      return ((key, r), s) := by
  intro s field rest hread
  obtain ⟨_, _, hread⟩ := Option.bind_eq_some_iff.1 hread
  obtain ⟨_, hr, hread⟩ := Option.bind_eq_some_iff.1 hread
  cases hread
  exact h hr

theorem reads_value (depth : Nat) : Reads (·.value.Tidy) (value? depth) := by
  induction depth with
  | zero => exact fun h => nomatch h
  | succ depth ih =>
      intro s r rest hread
      simp only [value?, Option.bind_eq_bind] at hread
      split at hread
      all_goals
        obtain ⟨_, hvalue, hpair⟩ := Option.bind_eq_some_iff.1 hread
        cases hpair
      · cases hvalue
        exact .bool true
      · cases hvalue
        exact .bool false
      · exact of_map (P := (·.value.Tidy)) hvalue fun _ h => Reading.tidy_ofFields (reads_items (reads_field ih) h)
      · exact of_map (P := (·.value.Tidy)) hvalue fun _ h => Reading.tidy_ofItems (reads_items ih h)
      · exact of_map (P := (·.value.Tidy)) hvalue fun _ _ => .string _
      · cases hvalue
        exact .string _
      · cases hvalue
      · cases hvalue
        exact tidy_bare _

theorem tidy_reading (text : String) : (reading text).value.Tidy := by
  unfold reading
  split
  · rename_i hread
    exact reads_value _ hread
  · exact .string text

theorem tidy_under {r : Reading} {path : List String} (h : r.value.Tidy) : (r.under path).value.Tidy := by
  induction path with
  | nil => exact h
  | cons key path ih => exact .object (List.nodup_singleton key) (List.forall_mem_singleton.2 ih)

theorem tidy_addVariable {r : Reading} {v : String × String} (h : r.value.Tidy) :
    (addVariable r v).value.Tidy := by
  unfold addVariable
  split
  · exact h
  · exact h.merge (tidy_under (tidy_reading v.2))

/-- **Variables** say something tidy together. -/
theorem tidy_ofVariables (env : List (String × String)) : (ofVariables env).value.Tidy :=
  List.foldlRecOn (motive := (·.value.Tidy)) env addVariable tidy_empty fun _ h _ _ => tidy_addVariable h

theorem ne_nil_of_path {name : String} {path : List String} (h : path? name = some path) : path ≠ [] := by
  obtain ⟨rest, _, h⟩ := Option.bind_eq_some_iff.1 h
  obtain ⟨_, hpath⟩ := Option.ite_none_left_eq_some.1 h
  cases hpath
  exact fun hnil => List.splitOn_ne_nil '.' _ (List.map_eq_nil_iff.1 hnil)

/-- What the variables say together is an object. -/
theorem isObject_ofVariables (env : List (String × String)) :
    ∃ fields, (ofVariables env).value = .object fields := by
  refine List.foldlRecOn (motive := fun r : Reading => ∃ fields, r.value = .object fields) env addVariable
    ⟨[], rfl⟩ fun r hr v _ => ?_
  obtain ⟨fields, hfields⟩ := hr
  unfold addVariable
  split
  · exact ⟨fields, hfields⟩
  · rename_i path hpath
    obtain ⟨key, rest, rfl⟩ := List.exists_cons_of_ne_nil (ne_nil_of_path hpath)
    exact exists_merge_object r.value _

end Pagefold.Environment
