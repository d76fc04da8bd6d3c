import Pagefold.Config.Options
import Pagefold.Proofs.DistinctKeys

/-! # Records read from objects

`Settled item said? otherwise value` is the one thing to know of a value that may be left out: where
something is said, the value is what `item` reads of it, and else it is what it was.  A record that is
read from an object with distinct keys is settled so at each of its fields (`Holds.settled`), and when
overrides are laid over what a record is written as, the record that is read from both is settled by the
overrides over the first one (`Entry.settled_override`).

The rest of the module goes through the fields of a configuration. -/

namespace Pagefold.Json

/-- A value is read from what is said, if anything is, and else it is as it was. -/
def Settled {α : Type} (item : Decoder α) (said? : Option Json) (otherwise value : α) : Prop :=
  match said? with
  | some json => item json = .ok value
  | none => value = otherwise

/-- Taking in a field settles the value at `get` by what `item` reads, if the field has the name, and leaves
it as it is otherwise. -/
def Settles {ρ α : Type} (name : String) (item : Decoder α) (get : ρ → α) (field : RecordField ρ) : Prop :=
  ∀ json r r', field.update json r = .ok r' →
    if field.name = name then item json = .ok (get r') else get r' = get r

/-- A record holds at `get` what `item` reads of the field with a name. -/
structure Holds {ρ α : Type} (fields : List (RecordField ρ)) (name : String) (item : Decoder α)
    (get : ρ → α) : Prop where
  known : name ∈ fields.map (·.name)
  settles : ∀ field ∈ fields, Settles name item get field

/-- A field that is read from anything but an object, and is read back from what it is written as. -/
structure Entry {ρ α : Type} (fields : List (RecordField ρ)) (write : ρ → Json) (name : String)
    (item : Decoder α) (get : ρ → α) : Prop extends Holds fields name item get where
  leaf : ∀ given a, item (.object given) ≠ .ok a
  written : ∀ r, ∃ json, (write r).field? name = some json ∧ ∀ a, item json = .ok a → a = get r

variable {ρ α : Type} {fields : List (RecordField ρ)} {name : String} {item : Decoder α} {get : ρ → α}
  {write : ρ → Json} {given overrides : List (String × Json)} {a b json : Json} {r r' : ρ} {said? : Option Json}
  {otherwise value : α}

/-! ### Results -/

theorem bind_eq_ok {α β ε : Type} {e : Except ε α} {next : α → Except ε β} {b : β}
    (h : e.bind next = .ok b) : ∃ a, e = .ok a ∧ next a = .ok b := by
  cases e with
  | error => cases h
  | ok a => exact ⟨a, rfl, h⟩

theorem map_eq_ok {α β ε : Type} {e : Except ε α} {f : α → β} {b : β} (h : e.map f = .ok b) :
    ∃ a, e = .ok a ∧ f a = b := by
  cases e with
  | error => cases h
  | ok a => exact ⟨a, rfl, Except.ok.inj h⟩

theorem of_mapError {α ε ε' : Type} {e : Except ε α} {blame : ε → ε'} {a : α} (h : e.mapError blame = .ok a) :
    e = .ok a := by
  cases e with
  | error => cases h
  | ok => exact congrArg _ (Except.ok.inj h)

theorem of_under {key : String} {e : Except DecodeError α} (h : under key e = .ok value) : e = .ok value := by
  cases e with
  | error => cases h
  | ok => exact h

/-! ### Fields -/

theorem update_of_iff {set : α → ρ → ρ} :
    (RecordField.of name item set).update json r = .ok r' ↔ ∃ a, item json = .ok a ∧ set a r = r' := by
  refine ⟨map_eq_ok, ?_⟩
  rintro ⟨a, ha, rfl⟩
  simp only [RecordField.of, ha, Except.map]

theorem settles_own {set : α → ρ → ρ} (h : ∀ a r, get (set a r) = a) :
    Settles name item get (.of name item set) := by
  intro json r r' hu
  obtain ⟨a, ha, rfl⟩ := update_of_iff.1 hu
  rw [if_pos (show (RecordField.of name item set).name = name from rfl), h, ha]

/-- The value may be kept in another form than the one in which it is read. -/
theorem settles_kept {β : Type} {keep : α → β} {get : ρ → β} {set : α → ρ → ρ}
    (h : ∀ a r, get (set a r) = keep a) :
    Settles name (fun json => (item json).map keep) get (.of name item set) := by
  intro json r r' hu
  obtain ⟨a, ha, rfl⟩ := update_of_iff.1 hu
  rw [if_pos (show (RecordField.of name item set).name = name from rfl), h]
  show (item json).map keep = .ok (keep a)
  rw [ha]
  rfl

theorem settles_other {β : Type} {other : String} {item' : Decoder β} {set : β → ρ → ρ}
    (hname : other ≠ name) (h : ∀ b r, get (set b r) = get r) : Settles name item get (.of other item' set) := by
  intro json r r' hu
  obtain ⟨b, _, rfl⟩ := update_of_iff.1 hu
  rw [if_neg (show (RecordField.of other item' set).name ≠ name from hname), h]

/-! ### Reading -/

/-- Taking in one field settles the value of its name. -/
theorem Holds.decodeField (h : Holds fields name item get) {key : String}
    (hd : decodeField fields key json r = .ok r') :
    if key = name then item json = .ok (get r') else get r' = get r := by
  unfold Json.decodeField at hd
  split at hd
  · rename_i field hfind
    have hkey : field.name = key := by simpa using List.find?_some hfind
    rw [← hkey]
    exact h.settles field (List.mem_of_find?_eq_some hfind) json r r' (of_under hd)
  · rename_i hfind
    cases hd
    rw [if_neg]
    rintro rfl
    obtain ⟨field, hf, hname⟩ := List.mem_map.1 h.known
    exact List.find?_eq_none.1 hfind field hf (beq_iff_eq.2 hname)

/-- **Fields with distinct keys** settle the value of each name. -/
theorem Holds.settled (h : Holds fields name item get) (hkeys : (given.map (·.1)).Nodup)
    (hd : decodeFields fields given r = .ok r') : Settled item (given.lookup name) (get r) (get r') := by
  induction given generalizing r with
  | nil =>
      cases hd
      rfl
  | cons field rest ih =>
      obtain ⟨key, json⟩ := field
      rw [List.map_cons, List.nodup_cons] at hkeys
      obtain ⟨next, hfirst, hd⟩ := bind_eq_ok hd
      have hrest := ih hkeys.2 hd
      have hnext := h.decodeField hfirst
      rw [Lookup.lookup_cons_ite]
      by_cases hname : key = name
      · -- The rest does not have the key again, and leaves the value as it is.
        subst hname
        have hnone : rest.lookup key = none := List.lookup_eq_none_iff.2 fun p hp => by
          simpa using fun h : key = p.1 => hkeys.1 (List.mem_map.2 ⟨p, hp, h.symm⟩)
        rw [hnone] at hrest
        rw [if_pos rfl] at hnext ⊢
        exact (hrest : get r' = get next) ▸ hnext
      · rw [if_neg hname] at hnext
        rw [if_neg (Ne.symm hname), ← hnext]
        exact hrest

theorem Holds.settled_record (h : Holds fields name item get) {exact : Bool} {expected : String} {default : ρ}
    (ht : (Json.object given).Tidy) (hd : decodeRecord exact expected fields default (.object given) = .ok r) :
    Settled item (given.lookup name) (get default) (get r) :=
  h.settled (tidy_object_iff.1 ht).1 hd

/-- A table is read entry by entry. -/
theorem mem_of_decodeEntries {entries : List (String × α)} {e : String × α}
    (hd : decodeEntries item given = .ok entries) (he : e ∈ entries) :
    ∃ json, (e.1, json) ∈ given ∧ item json = .ok e.2 := by
  induction given generalizing entries with
  | nil =>
      cases hd
      exact absurd he List.not_mem_nil
  | cons field rest ih =>
      obtain ⟨key, json⟩ := field
      obtain ⟨first, hfirst, hd⟩ := bind_eq_ok hd
      obtain ⟨others, hothers, hd⟩ := bind_eq_ok hd
      cases hd
      rcases List.mem_cons.1 he with rfl | he
      · exact ⟨json, List.mem_cons_self, of_under hfirst⟩
      · obtain ⟨json, hj, hread⟩ := ih hothers he
        exact ⟨json, List.mem_cons_of_mem _ hj, hread⟩

/-! ### Overrides -/

theorem lookup_finiteFields (key : String) (given : List (String × Json)) :
    (finiteFields given).lookup key = (given.lookup key).map finite := by
  induction given with
  | nil => rfl
  | cons field rest ih =>
      obtain ⟨k, v⟩ := field
      simp only [finiteFields, List.lookup_cons, ih]
      split <;> rfl

/-- A value that nothing but a default is said of is that default. -/
theorem Settled.of_written (h : Settled item (said?.or (some json)) otherwise value)
    (hback : item json = .ok value → value = otherwise) : Settled item said? otherwise value := by
  cases said? with
  | none => exact hback h
  | some said => exact h

/-- What is laid over a value settles it where no object can. -/
theorem eq_of_merge (hleaf : ∀ given value, item (.object given) ≠ .ok value)
    (h : item (merge a b) = .ok value) : item b = .ok value := by
  by_cases hobject : ∃ updates, b = .object updates
  · obtain ⟨updates, rfl⟩ := hobject
    obtain ⟨merged, hmerged⟩ := exists_merge_object a updates
    exact absurd (hmerged ▸ h) (hleaf merged value)
  · rwa [merge_eq_update fun updates hb => hobject ⟨updates, hb⟩] at h

/-- **Overrides** settle a record over the one that was there. -/
theorem Entry.settled_override (h : Entry fields write name item get) {exact : Bool} {expected : String}
    {default : ρ} (ht : (write r).Tidy) (hw : ∃ own, write r = .object own)
    (hd : decodeRecord exact expected fields default (merge (write r) (.object overrides)) = .ok r') :
    Settled item (overrides.lookup name) (get r) (get r') := by
  obtain ⟨own, hown⟩ := hw
  rw [hown, merge_objects] at hd
  have hkeys : (own.map (·.1)).Nodup := (tidy_object_iff.1 (hown ▸ ht)).1
  have hs : Settled item ((mergeFields own overrides).lookup name) (get default) (get r') :=
    h.settled (nodup_mergeFields hkeys) hd
  obtain ⟨json, hjson, hback⟩ := h.written r
  rw [hown] at hjson
  rw [lookup_mergeFields] at hs
  cases hl : overrides.lookup name with
  | none =>
      rw [hl, show own.lookup name = some json from hjson] at hs
      exact hback _ hs
  | some update =>
      rw [hl] at hs
      exact eq_of_merge h.leaf hs

/-! ### Values that are no objects -/

theorem bool_back {b back : Bool} (h : decodeBool (bool b) = .ok back) : back = b := by
  cases h
  rfl

theorem string_back {s back : String} (h : decodeString (string s) = .ok back) : back = s := by
  cases h
  rfl

theorem items_back {items back : List String} {position : Nat}
    (h : decodeItems decodeString position (items.map .string) = .ok back) : back = items := by
  induction items generalizing position back with
  | nil => cases h; rfl
  | cons item rest ih =>
      rw [List.map_cons, decodeItems] at h
      obtain ⟨first, hfirst, h⟩ := bind_eq_ok h
      obtain ⟨others, hothers, h⟩ := bind_eq_ok h
      cases hfirst
      cases h
      rw [ih hothers]

theorem count_back {n back : Nat} (h : decodeCount (nat n) = .ok back) : back = n := by
  rw [nat, int, decodeCount] at h
  split at h
  · cases h
    exact Int.toNat_natCast n
  · cases h

theorem option_back {write : α → Json} {o back : Option α} (hnull : ∀ a, write a ≠ .null)
    (hback : ∀ a back, item (write a) = .ok back → back = a)
    (h : decodeOption item ((o.map write).getD .null) = .ok back) : back = o := by
  cases o with
  | none => cases h; rfl
  | some a =>
      rw [Option.map_some, Option.getD_some, decodeOption] at h
      · obtain ⟨b, hread, rfl⟩ := map_eq_ok h
        rw [hback a b hread]
      · exact hnull a

end Pagefold.Json

/-! ### The fields of a configuration -/

namespace Pagefold

open Json

theorem Options.entry_patterns :
    Entry fields toJson "inline_pattern" (decodeList decodeString) patterns where
  known := by simp [fields, RecordField.of]
  settles := by simp [fields, settles_own, settles_other]
  leaf := nofun
  written o := ⟨strings o.patterns, by simp [toJson, ofFields, field?, Fields.lookup_put], fun _ => items_back⟩

theorem Options.entry_deleteFolded : Entry fields toJson "delete_inlined_files" decodeBool deleteFolded where
  known := by simp [fields, RecordField.of]
  settles := by simp [fields, settles_own, settles_other]
  leaf := nofun
  written o := ⟨bool o.deleteFolded, by simp [toJson, ofFields, field?, Fields.lookup_put], fun _ => bool_back⟩

theorem Options.entry_removePreload : Entry fields toJson "remove_module_loader" decodeBool removePreload where
  known := by simp [fields, RecordField.of]
  settles := by simp [fields, settles_own, settles_other]
  leaf := nofun
  written o := ⟨bool o.removePreload, by simp [toJson, ofFields, field?, Fields.lookup_put], fun _ => bool_back⟩

theorem Options.entry_stripComments : Entry fields toJson "strip_css_comments" decodeBool stripComments where
  known := by simp [fields, RecordField.of]
  settles := by simp [fields, settles_own, settles_other]
  leaf := nofun
  written o := ⟨bool o.stripComments, by simp [toJson, ofFields, field?, Fields.lookup_put], fun _ => bool_back⟩

theorem Options.entry_cdata : Entry fields toJson "cdata" decodeBool Options.cdata where
  known := by simp [fields, RecordField.of]
  settles := by simp [fields, settles_own, settles_other]
  leaf := nofun
  written o := ⟨bool o.cdata, by simp [toJson, ofFields, field?, Fields.lookup_put], fun _ => bool_back⟩

theorem Options.entry_lead : Entry fields toJson "namespace_prefix" decodeString lead where
  known := by simp [fields, RecordField.of]
  settles := by simp [fields, settles_own, settles_other]
  leaf := nofun
  written o := ⟨string o.lead, by simp [toJson, ofFields, field?, Fields.lookup_put], fun _ => string_back⟩

theorem tidy_strings (items : List String) : (strings items).Tidy :=
  .array (List.forall_mem_map.2 fun s _ => .string s)

theorem Options.tidy_toJson (o : Options) : o.toJson.Tidy :=
  tidy_ofFields <| by simp [tidy_strings, Tidy.bool, Tidy.string]

theorem Settings.tidy_toJson (s : Settings) : s.toJson.Tidy :=
  tidy_ofFields <| by
    cases s.logLevel? <;> cases s.jobs? <;> simp [ofString?, nat, int, Tidy.null, Tidy.string, Tidy.number]

theorem Settings.entry_logLevel : Entry fields toJson "log_level" (decodeOption decodeString) logLevel? where
  known := by simp [fields, RecordField.of]
  settles := by simp [fields, settles_own, settles_other]
  leaf := nofun
  written s := ⟨(s.logLevel?.map string).getD .null, by
      cases hs : s.logLevel? <;> simp [toJson, ofFields, field?, Fields.lookup_put, ofString?, hs],
    fun _ => option_back nofun fun _ _ => string_back⟩

theorem Settings.entry_jobs : Entry fields toJson "parallel_jobs" (decodeOption decodeCount) jobs? where
  known := by simp [fields, RecordField.of]
  settles := by simp [fields, settles_own, settles_other]
  leaf := nofun
  written s := ⟨(s.jobs?.map nat).getD .null, by simp [toJson, ofFields, field?, Fields.lookup_put],
    fun _ => option_back nofun fun _ _ => count_back⟩

theorem Profile.holds_options : Holds fields "inline" decodeAny options where
  known := by simp [fields, RecordField.of]
  settles := by simp [fields, settles_own, settles_other]

theorem Profile.holds_settings : Holds fields "settings" decodeAny settings where
  known := by simp [fields, RecordField.of]
  settles := by simp [fields, settles_own, settles_other]

namespace Config

variable {exact : Bool}

theorem holds_options : Holds (fields exact) "inline" (Options.decode exact) options where
  known := by simp [fields, RecordField.of]
  settles := by simp [fields, settles_own, settles_other]

theorem holds_settings : Holds (fields exact) "settings" (Settings.decode exact) settings where
  known := by simp [fields, RecordField.of]
  settles := by simp [fields, settles_own, settles_other]

theorem holds_profiles : Holds (fields exact) "profiles"
    (fun json => (decodeTable (Profile.decode exact) json).map .ofList) profiles where
  known := by simp [fields, RecordField.of]
  settles := by simp [fields, settles_kept, settles_other]

end Config

end Pagefold
