import Pagefold.Proofs.DistinctKeys
import Pagefold.Toml.Document

/-! # TOML documents have distinct keys

A document is a tree of nodes, and a node is tidy if its values are (`Node.Tidy`).  Whatever a line adds
to the tree keeps it so: each change of a node does (`Node.Keeps`), and values are read as tidy ones
(`reads_value`).  A node is written as an object that has each key once, and a document is read as a tidy
value therefore (`tidy_of_parse?`). -/

namespace Pagefold.Toml

open Json

/-- A node whose values are tidy. -/
inductive Node.Tidy : Node → Prop
  | value {json : Json} (h : json.Tidy) : Tidy (value json)
  | table (implied dotted : Bool) {entries : List (String × Node)}
      (hentries : ∀ entry ∈ entries, Tidy entry.2) : Tidy (table implied dotted entries)
  | tables {items : List Node} (hitems : ∀ item ∈ items, Tidy item) : Tidy (tables items)

namespace Node

variable {node node' : Node} {json : Json} {key : String} {path : List String} {implied dotted : Bool}
  {entries : List (String × Node)}

theorem tidy_fresh (implied dotted : Bool) : Tidy (fresh implied dotted) :=
  .table implied dotted fun _ h => absurd h List.not_mem_nil

theorem tidy_table_iff : Tidy (.table implied dotted entries) ↔ ∀ entry ∈ entries, Tidy entry.2 :=
  ⟨fun h => by cases h with | table _ _ hentries => exact hentries, .table implied dotted⟩

theorem tidy_tables_iff {items : List Node} : Tidy (.tables items) ↔ ∀ item ∈ items, Tidy item :=
  ⟨fun h => by cases h with | tables hitems => exact hitems, .tables⟩

/-- A tidy node in a table leaves it tidy. -/
theorem tidy_put (h : Tidy (.table implied dotted entries)) (hn : Tidy node) :
    Tidy (.table implied dotted (put key node entries)) :=
  .table _ _ (List.forall_mem_cons.2 ⟨hn, fun entry he => tidy_table_iff.1 h entry (List.mem_of_mem_filter he)⟩)

theorem tidy_cons (h : Tidy (.table implied dotted entries)) (hn : Tidy node) :
    Tidy (.table implied dotted ((key, node) :: entries)) :=
  .table _ _ (List.forall_mem_cons.2 ⟨hn, tidy_table_iff.1 h⟩)

theorem Tidy.of_lookup (h : Tidy (.table implied dotted entries)) (hn : entries.lookup key = some node) :
    Tidy node := by
  obtain ⟨front, back, rfl, _⟩ := List.lookup_eq_some_iff.1 hn
  exact tidy_table_iff.1 h (key, node) (by simp)

/-- A change that leaves tidy nodes tidy. -/
def Keeps (change : Node → Option Node) : Prop :=
  ∀ {node node'}, Tidy node → change node = some node' → Tidy node'

theorem keeps_update {byKey : Bool} {change : Node → Option Node} (hc : Keeps change) :
    Keeps (update byKey change path) := by
  induction path with
  | nil => exact hc
  | cons key path ih =>
      intro node node' h hu
      cases node with
      | value | tables => cases hu
      | table implied dotted entries =>
          obtain ⟨child, hchild, rfl⟩ := Option.map_eq_some_iff.1 hu
          refine tidy_put h ?_
          split at hchild
          · exact ih (tidy_fresh true byKey) hchild
          · cases hchild
          · rename_i newest others hl
            obtain ⟨newest', hnewest, rfl⟩ := Option.map_eq_some_iff.1 hchild
            have hitems := List.forall_mem_cons.1 (tidy_tables_iff.1 (h.of_lookup hl))
            exact .tables (List.forall_mem_cons.2 ⟨ih hitems.1 hnewest, hitems.2⟩)
          · cases hchild
          · rename_i hl
            split at hchild
            · cases hchild
            · exact ih (h.of_lookup hl) hchild

theorem keeps_assign {direct : Bool} (hj : json.Tidy) : Keeps (assign direct key json) := by
  intro node node' h ha
  cases node with
  | value | tables => cases ha
  | table implied dotted entries =>
      simp only [assign, Option.ite_none_left_eq_some, Option.some.injEq] at ha
      obtain ⟨_, rfl⟩ := ha
      exact tidy_cons h (.value hj)

theorem keeps_insert (hj : json.Tidy) : Keeps (insert path json) := by
  intro node node' h hi
  unfold insert at hi
  split at hi
  · exact keeps_update (keeps_assign hj) h hi
  · cases hi

theorem keeps_open : Keeps (open? path) := by
  intro node node' h ho
  obtain ⟨key, _, ho⟩ := Option.bind_eq_some_iff.1 ho
  refine keeps_update (fun {table table'} ht hm => ?_) h ho
  cases table with
  | value | tables => cases hm
  | table implied dotted entries =>
      dsimp only at hm
      split at hm
      · cases hm
        exact tidy_cons ht (tidy_fresh false false)
      · rename_i inner hl
        cases hm
        exact tidy_put ht (.table _ _ (tidy_table_iff.1 (ht.of_lookup hl)))
      · cases hm

theorem keeps_extend : Keeps (extend? path) := by
  intro node node' h he
  obtain ⟨key, _, he⟩ := Option.bind_eq_some_iff.1 he
  refine keeps_update (fun {table table'} ht hm => ?_) h he
  cases table with
  | value | tables => cases hm
  | table implied dotted entries =>
      dsimp only at hm
      split at hm
      · cases hm
        exact tidy_cons ht (.tables (List.forall_mem_singleton.2 (tidy_fresh false false)))
      · rename_i items hl
        cases hm
        exact tidy_put ht (.tables (List.forall_mem_cons.2
          ⟨tidy_fresh false false, tidy_tables_iff.1 (ht.of_lookup hl)⟩))
      · cases hm

theorem toFields_eq_map (entries : List (String × Node)) :
    toFields entries = entries.map fun entry => (entry.1, entry.2.toJson) := by
  induction entries with
  | nil => rfl
  | cons entry rest ih => rw [toFields, ih, List.map_cons]

theorem toItems_eq_map (items : List Node) : toItems items = items.map toJson := by
  induction items with
  | nil => rfl
  | cons item rest ih => rw [toItems, ih, List.map_cons]

theorem Tidy.toJson (h : Tidy node) : node.toJson.Tidy := by
  induction h with
  | value h => exact h
  | table implied dotted hentries ih =>
      rw [Node.toJson, toFields_eq_map]
      exact tidy_ofFields (List.forall_mem_map.2 ih)
  | tables hitems ih =>
      rw [Node.toJson, toItems_eq_map]
      exact .array fun item hi => List.forall_mem_map.2 ih item (List.mem_reverse.1 hi)

end Node

theorem tidy_moment (text : String) : (moment text).Tidy :=
  .object (List.nodup_singleton _) (List.forall_mem_singleton.2 (.string text))

theorem reads_dateTime : Reads Json.Tidy dateTime? := by
  intro s json rest hread
  unfold dateTime? at hread
  split at hread
  · exact of_map hread fun _ _ => tidy_moment _
  · dsimp only at hread
    split at hread
    · cases hread
      exact tidy_moment _
    · exact of_map hread fun _ _ => tidy_moment _

theorem reads_decimal : Reads Json.Tidy decimal? := by
  intro s json rest hread
  simp only [decimal?, Option.bind_eq_bind] at hread
  obtain ⟨_, _, hread⟩ := Option.bind_eq_some_iff.1 hread
  split at hread
  all_goals
    obtain ⟨_, _, hread⟩ := Option.bind_eq_some_iff.1 hread
    split at hread
    · split at hread
      all_goals
        obtain ⟨_, _, hread⟩ := Option.bind_eq_some_iff.1 hread
        obtain ⟨_, hpair⟩ := Option.ite_none_left_eq_some.1 hread
        cases hpair
        exact .number _
    · obtain ⟨_, _, hread⟩ := Option.bind_eq_some_iff.1 hread
      obtain ⟨_, hpair⟩ := Option.ite_none_left_eq_some.1 hread
      cases hpair
      exact .number _

theorem reads_float : Reads Json.Tidy float? := by
  intro s json rest hread
  unfold float? at hread
  dsimp only at hread
  split at hread
  · split at hread
    · exact reads_decimal hread
    · cases hread
  · split at hread
    · cases hread
      exact .number _
    · cases hread
      exact .number _
    · cases hread

theorem tidy_of_signedWord {negative : Bool} {n : Nat} {json : Json} (h : signedWord? negative n = some json) :
    json.Tidy := by
  unfold signedWord? at h
  split at h
  all_goals
    split at h
    · cases h
      exact .number _
    · cases h

theorem reads_integer : Reads Json.Tidy integer? := by
  intro s json rest hread
  unfold integer? at hread
  dsimp only at hread
  split at hread
  all_goals
    obtain ⟨_, _, hread⟩ := Option.bind_eq_some_iff.1 hread
    obtain ⟨_, hword, hpair⟩ := Option.bind_eq_some_iff.1 hread
    cases hpair
    exact tidy_of_signedWord hword

theorem reads_number : Reads Json.Tidy number? := by
  intro s json rest hread
  simp only [number?, Option.orElse_eq_orElse, Option.orElse_eq_or, Option.or_eq_some_iff] at hread
  rcases hread with hread | ⟨_, hread | ⟨_, hread⟩⟩
  · exact reads_dateTime hread
  · exact reads_float hread
  · exact reads_integer hread

theorem reads_items {value : Reader Json} {bound : Nat} (h : Reads Json.Tidy value) :
    Reads (∀ item ∈ ·, item.Tidy) (items? value bound) := by
  intro s items rest hread
  induction bound generalizing s items rest with
  | zero => cases hread
  | succ bound ih =>
      unfold items? at hread
      dsimp only at hread
      split at hread
      · cases hread
        exact fun a ha => absurd ha List.not_mem_nil
      · obtain ⟨⟨item, s'⟩, hitem, hread⟩ := Option.bind_eq_some_iff.1 hread
        dsimp only at hread
        split at hread
        · cases hread
          exact List.forall_mem_singleton.2 (h hitem)
        · obtain ⟨⟨others, s''⟩, hothers, hread⟩ := Option.bind_eq_some_iff.1 hread
          cases hread
          exact List.forall_mem_cons.2 ⟨h hitem, ih hothers⟩
        · cases hread

theorem reads_inlineEntries {value : Reader Json} {bound : Nat} {node : Node} (h : Reads Json.Tidy value)
    (hn : node.Tidy) : Reads Node.Tidy (inlineEntries? value bound node) := by
  intro s out rest hread
  induction bound generalizing s node out rest with
  | zero => cases hread
  | succ bound ih =>
      obtain ⟨⟨path, s'⟩, _, hread⟩ := Option.bind_eq_some_iff.1 hread
      dsimp only at hread
      split at hread
      · obtain ⟨⟨json, s''⟩, hjson, hread⟩ := Option.bind_eq_some_iff.1 hread
        obtain ⟨node', hnode, hread⟩ := Option.bind_eq_some_iff.1 hread
        have hn' : node'.Tidy := Node.keeps_insert (h hjson) hn hnode
        dsimp only at hread
        split at hread
        · cases hread
          exact hn'
        · exact ih hn' hread
        · cases hread
      · cases hread

theorem reads_inlineTable {value : Reader Json} (h : Reads Json.Tidy value) :
    Reads Json.Tidy (inlineTable? value) := by
  intro s json rest hread
  unfold inlineTable? at hread
  split at hread
  · cases hread
    exact tidy_empty
  · exact of_map hread fun _ hnode => (reads_inlineEntries h (Node.tidy_fresh false false) hnode).toJson

theorem reads_value (depth : Nat) : Reads Json.Tidy (value? depth) := by
  induction depth using Nat.strongRecOn with
  | ind depth ih =>
      intro s json rest hread
      unfold value? at hread
      split at hread
      · exact of_map hread fun _ _ => .string _
      · exact of_map hread fun _ _ => .string _
      · cases depth with
        | zero => cases hread
        | succ depth =>
            exact of_map hread fun _ h => .array (reads_items (ih depth (Nat.lt_succ_self depth)) h)
      · cases depth with
        | zero => cases hread
        | succ depth => exact reads_inlineTable (ih depth (Nat.lt_succ_self depth)) hread
      · cases hread
        exact .bool true
      · cases hread
        exact .bool false
      · exact reads_number hread

namespace Progress

variable {p p' : Progress} {s rest : List Char}

theorem tidy_header (h : p.root.Tidy) (hl : p.header? s = some (p', rest)) : p'.root.Tidy := by
  unfold header? at hl
  split at hl
  · obtain ⟨⟨path, _⟩, _, hl⟩ := Option.bind_eq_some_iff.1 hl
    dsimp only at hl
    split at hl
    · obtain ⟨root, hroot, hl⟩ := Option.bind_eq_some_iff.1 hl
      obtain ⟨_, _, hl⟩ := Option.bind_eq_some_iff.1 hl
      cases hl
      exact Node.keeps_extend h hroot
    · cases hl
  · obtain ⟨⟨path, _⟩, _, hl⟩ := Option.bind_eq_some_iff.1 hl
    dsimp only at hl
    split at hl
    · obtain ⟨root, hroot, hl⟩ := Option.bind_eq_some_iff.1 hl
      obtain ⟨_, _, hl⟩ := Option.bind_eq_some_iff.1 hl
      cases hl
      exact Node.keeps_open h hroot
    · cases hl

theorem tidy_entry (h : p.root.Tidy) (hl : p.entry s = some (p', rest)) : p'.root.Tidy := by
  obtain ⟨⟨path, _⟩, _, hl⟩ := Option.bind_eq_some_iff.1 hl
  dsimp only at hl
  split at hl
  · obtain ⟨⟨json, _⟩, hjson, hl⟩ := Option.bind_eq_some_iff.1 hl
    obtain ⟨_, _, hl⟩ := Option.bind_eq_some_iff.1 hl
    obtain ⟨root, hroot, hl⟩ := Option.bind_eq_some_iff.1 hl
    cases hl
    exact Node.keeps_update (Node.keeps_insert (reads_value depthLimit hjson)) h hroot
  · cases hl

theorem tidy_line (h : p.root.Tidy) (hl : p.line s = some (p', rest)) : p'.root.Tidy := by
  unfold line at hl
  split at hl
  · obtain ⟨_, _, hpair⟩ := Option.map_eq_some_iff.1 hl
    cases hpair
    exact h
  · exact tidy_header h hl
  · obtain ⟨_, _, hpair⟩ := Option.map_eq_some_iff.1 hl
    cases hpair
    exact h
  · obtain ⟨_, _, hpair⟩ := Option.map_eq_some_iff.1 hl
    cases hpair
    exact h
  · exact tidy_entry h hl

theorem tidy_lines {bound : Nat} (h : p.root.Tidy) (hl : lines bound p s = some p') : p'.root.Tidy := by
  induction bound generalizing p s with
  | zero => cases hl
  | succ bound ih =>
      unfold lines at hl
      split at hl
      · cases hl
        exact h
      · obtain ⟨⟨next, _⟩, hnext, hl⟩ := Option.bind_eq_some_iff.1 hl
        exact ih (tidy_line h hnext) hl

end Progress

theorem tidy_of_parse? {text : String} {json : Json} (h : parse? text = some json) : json.Tidy := by
  obtain ⟨p, hp, rfl⟩ := Option.map_eq_some_iff.1 h
  exact (Progress.tidy_lines (Node.tidy_fresh false false) hp).toJson

end Pagefold.Toml

