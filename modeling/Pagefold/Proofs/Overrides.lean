import Pagefold.Config.Check
import Pagefold.Proofs.Records

/-! # Profiles override value by value

A profile lays its overrides over what a configuration is written as, and reads both together.  `Slot`s list what
a record holds: each has a name, a way in which its values are written, and values that fit.  Reading a slot is the
opposite of writing it (`Slot.ReadBy`), so overrides can be read if what they name fits its slot
(`Described.exists_overridden_iff`), and then each slot holds what the overrides give it, or else what it held
before (`Described.overlaid`).  `profile_overrides` says so of options and settings together. -/

namespace Pagefold.Json

/-- A value of a record: its name, how it is written, where the record holds it, and which values fit. -/
structure Slot (ρ : Type) where
  {α : Type}
  name : String
  write : α → Json
  get : ρ → α
  fits : α → Prop := fun _ => True

/-- Whether a value is one of a slot, as it is written. -/
def Slot.Takes {ρ : Type} (slot : Slot ρ) (json : Json) : Prop := ∃ a, slot.fits a ∧ json = slot.write a

/-- An override gives to each slot that it names a value of the slot. -/
def Fitting {ρ : Type} (slots : List (Slot ρ)) (override : Json) : Prop :=
  ∀ slot ∈ slots, ∀ json, override.field? slot.name = some json → slot.Takes json

/-- Each slot of `r` holds what the override gives it, and what the slot of `base` holds if it gives nothing. -/
def Overlaid {ρ : Type} (slots : List (Slot ρ)) (override : Json) (base r : ρ) : Prop :=
  ∀ slot ∈ slots, match override.field? slot.name with
    | some json => json = slot.write (slot.get r)
    | none => slot.get r = slot.get base

/-- What can be laid over a record: null, or an object. -/
def IsOverride (json : Json) : Prop := json = .null ∨ ∃ fields, json = .object fields

/-! ### Values and how they are written -/

variable {α : Type} {item : Decoder α} {write : α → Json} {fits : α → Prop} {json : Json}

theorem decodeBool_eq_ok_iff {b : Bool} : decodeBool json = .ok b ↔ json = .bool b := by
  cases json <;> simp [decodeBool, fail]

theorem decodeString_eq_ok_iff {s : String} : decodeString json = .ok s ↔ json = .string s := by
  cases json <;> simp [decodeString, fail]

theorem decodeItems_eq_ok_iff {items : List Json} {back : List String} {position : Nat} :
    decodeItems decodeString position items = .ok back ↔ items = back.map .string := by
  constructor
  · intro h
    induction items generalizing position back with
    | nil =>
        cases h
        rfl
    | cons first others ih =>
        obtain ⟨s, hfirst, h⟩ := bind_eq_ok h
        obtain ⟨rest, hothers, h⟩ := bind_eq_ok h
        cases h
        rw [decodeString_eq_ok_iff.1 (of_under hfirst), ih hothers, List.map_cons]
  · rintro rfl
    induction back generalizing position with
    | nil => rfl
    | cons s back ih =>
        rw [List.map_cons, decodeItems, ih]
        rfl

theorem decodeStrings_eq_ok_iff {items : List String} :
    decodeList decodeString json = .ok items ↔ json = strings items := by
  cases json with
  | array values => rw [decodeList, decodeItems_eq_ok_iff, strings, Json.array.injEq]
  | null | bool | number | string | object => simp [decodeList, fail, strings]

theorem decodeCount_eq_ok_iff {n : Nat} : decodeCount json = .ok n ↔ n < wordLimit ∧ json = nat n := by
  unfold decodeCount
  split
  · rename_i m
    have hnat : Json.number (.int m) = nat n ↔ m = n := by simp [nat, int]
    rw [hnat]
    split
    · rename_i hm
      rw [Bool.and_eq_true, decide_eq_true_iff, decide_eq_true_iff] at hm
      rw [Except.ok.injEq]
      omega
    · rename_i hm
      rw [Bool.and_eq_true, decide_eq_true_iff, decide_eq_true_iff] at hm
      refine iff_of_false (by simp [fail]) ?_
      omega
  · rename_i hother
    exact iff_of_false (by simp [fail]) fun h => hother n h.2

theorem decodeOption_eq_ok_iff (hnull : ∀ a, write a ≠ .null)
    (hitem : ∀ json a, item json = .ok a ↔ fits a ∧ json = write a) {o : Option α} :
    decodeOption item json = .ok o ↔ (∀ a ∈ o, fits a) ∧ json = (o.map write).getD .null := by
  unfold decodeOption
  split
  · cases o with
    | none => simp
    | some a => simp [(hnull a).symm]
  · rename_i hjson
    constructor
    · intro h
      obtain ⟨a, ha, rfl⟩ := map_eq_ok h
      obtain ⟨hfits, rfl⟩ := (hitem _ _).1 ha
      exact ⟨by simpa using hfits, rfl⟩
    · rintro ⟨hfits, h⟩
      cases o with
      | none => exact absurd h hjson
      | some a =>
          rw [(hitem _ _).2 ⟨hfits a rfl, h⟩]
          rfl

theorem decodeString?_eq_ok_iff {s? : Option String} :
    decodeOption decodeString json = .ok s? ↔ json = ofString? s? := by
  have hitem : ∀ json s, decodeString json = .ok s ↔ True ∧ json = .string s := by simp [decodeString_eq_ok_iff]
  rw [decodeOption_eq_ok_iff nofun hitem]
  cases s? <;> simp [ofString?]

theorem decodeCount?_eq_ok_iff {n? : Option Nat} : decodeOption decodeCount json = .ok n?
    ↔ (∀ n ∈ n?, n < wordLimit) ∧ json = (n?.map nat).getD .null :=
  decodeOption_eq_ok_iff nofun fun _ _ => decodeCount_eq_ok_iff

/-! ### Slots of a record -/

variable {ρ : Type} {fields : List (RecordField ρ)} {form : ρ → Json} {slots : List (Slot ρ)} {slot : Slot ρ}
  {given overrides : List (String × Json)} {override : Json} {exact : Bool} {expected : String} {base default r : ρ}

/-- A field takes in what `item` reads, if it has the name. -/
def TakesAs (name : String) (item : Decoder α) (field : RecordField ρ) : Prop :=
  field.name = name → ∀ json r, (∃ r', field.update json r = .ok r') ↔ ∃ a, item json = .ok a

theorem takesAs_own {name : String} {set : α → ρ → ρ} : TakesAs name item (.of name item set) := by
  intro _ json r
  simp only [update_of_iff]
  constructor
  · rintro ⟨r', a, ha, _⟩
    exact ⟨a, ha⟩
  · rintro ⟨a, ha⟩
    exact ⟨set a r, a, ha, rfl⟩

theorem takesAs_other {β : Type} {name other : String} {item' : Decoder β} {set : β → ρ → ρ} (hname : other ≠ name) :
    TakesAs name item (.of other item' set) := fun h => absurd h hname

/-- `item` reads the values of a slot, and the fields of its name take in what `item` reads. -/
structure Slot.ReadBy (slot : Slot ρ) (fields : List (RecordField ρ)) (form : ρ → Json) (item : Decoder slot.α) : Prop
    extends Entry fields form slot.name item slot.get where
  reads : ∀ json a, item json = .ok a ↔ slot.fits a ∧ json = slot.write a
  takes : ∀ field ∈ fields, TakesAs slot.name item field
  writes : ∀ r, (form r).field? slot.name = some (slot.write (slot.get r))

/-- A record is read by fields and written by its slots, which are all that it holds. -/
structure Described (fields : List (RecordField ρ)) (form : ρ → Json) (slots : List (Slot ρ)) : Prop where
  named : ∀ field ∈ fields, ∃ slot ∈ slots, slot.name = field.name
  readBy : ∀ slot ∈ slots, ∃ item, slot.ReadBy fields form item
  ext : ∀ r r', (∀ slot ∈ slots, slot.get r = slot.get r') → r = r'
  isObject : ∀ r, ∃ own, form r = .object own
  tidy : ∀ r, (form r).Tidy

namespace Slot.ReadBy

variable {item : Decoder slot.α}

theorem takes_iff (h : slot.ReadBy fields form item) : slot.Takes json ↔ ∃ a, item json = .ok a :=
  exists_congr fun a => (h.reads json a).symm

/-- No object is a value of a slot, so a slot takes what is laid over a value as it takes that alone. -/
theorem takes_merge_iff (h : slot.ReadBy fields form item) (a b : Json) :
    slot.Takes (merge a b) ↔ slot.Takes b := by
  by_cases hobject : ∃ updates, b = .object updates
  · obtain ⟨updates, rfl⟩ := hobject
    obtain ⟨merged, hmerged⟩ := exists_merge_object a updates
    rw [hmerged, h.takes_iff, h.takes_iff]
    exact iff_of_false (fun ⟨_, hread⟩ => h.leaf _ _ hread) fun ⟨_, hread⟩ => h.leaf _ _ hread
  · rw [merge_eq_update fun updates hb => hobject ⟨updates, hb⟩]

end Slot.ReadBy

namespace Described

/-- A field is taken in if the slot of its name takes its value. -/
theorem exists_decodeField_iff (h : Described fields form slots) {key : String} :
    (∃ r', decodeField fields key json r = .ok r') ↔ ∀ slot ∈ slots, slot.name = key → slot.Takes json := by
  unfold decodeField
  split
  · rename_i field hfind
    have hfield : field ∈ fields := List.mem_of_find?_eq_some hfind
    have hkey : field.name = key := by simpa using List.find?_some hfind
    constructor
    · rintro ⟨r', hr'⟩ slot hslot hname
      obtain ⟨item, hread⟩ := h.readBy slot hslot
      exact hread.takes_iff.2 ((hread.takes field hfield (hkey.trans hname.symm) json r).1 ⟨r', of_under hr'⟩)
    · intro htakes
      obtain ⟨slot, hslot, hname⟩ := h.named field hfield
      obtain ⟨item, hread⟩ := h.readBy slot hslot
      have hitem := hread.takes_iff.1 (htakes slot hslot (hname.trans hkey))
      obtain ⟨r', hr'⟩ := (hread.takes field hfield hname.symm json r).2 hitem
      exact ⟨r', by rw [hr']; rfl⟩
  · rename_i hfind
    refine iff_of_true ⟨r, rfl⟩ ?_
    rintro slot hslot rfl
    obtain ⟨item, hread⟩ := h.readBy slot hslot
    obtain ⟨field, hfield, hname⟩ := List.mem_map.1 hread.known
    exact absurd (beq_iff_eq.2 hname) (List.find?_eq_none.1 hfind field hfield)

theorem exists_decodeFields_iff (h : Described fields form slots) : (∃ r', decodeFields fields given r = .ok r')
    ↔ ∀ entry ∈ given, ∀ slot ∈ slots, slot.name = entry.1 → slot.Takes entry.2 := by
  induction given generalizing r with
  | nil => exact iff_of_true ⟨r, rfl⟩ nofun
  | cons entry rest ih =>
      obtain ⟨key, json⟩ := entry
      rw [List.forall_mem_cons, ← h.exists_decodeField_iff (r := r), decodeFields]
      constructor
      · rintro ⟨r', hr'⟩
        obtain ⟨between, hfirst, hrest⟩ := bind_eq_ok hr'
        exact ⟨⟨between, hfirst⟩, ih.1 ⟨r', hrest⟩⟩
      · rintro ⟨⟨between, hfirst⟩, hrest⟩
        rw [hfirst]
        exact ih.2 hrest

/-- **Overrides can be read** over a record if they fit its slots. -/
theorem exists_decode_merge_iff (h : Described fields form slots)
    (hbase : ∀ slot ∈ slots, slot.fits (slot.get base)) :
    (∃ r, decodeRecord exact expected fields default (merge (form base) (.object overrides)) = .ok r)
      ↔ Fitting slots (.object overrides) := by
  obtain ⟨own, hown⟩ := h.isObject base
  have hkeys : ((mergeFields own overrides).map (·.1)).Nodup :=
    nodup_mergeFields (tidy_object_iff.1 (hown ▸ h.tidy base)).1
  rw [hown, merge_objects, decodeRecord, h.exists_decodeFields_iff]
  constructor
  · intro hall slot hslot json hjson
    obtain ⟨item, hread⟩ := h.readBy slot hslot
    have hlookup : (mergeFields own overrides).lookup slot.name
        = some (merge ((own.lookup slot.name).getD .null) json) := by
      rw [lookup_mergeFields, show overrides.lookup slot.name = some json from hjson]
    have hmem := (Dictionary.lookup_eq_some_iff_mem hkeys).1 hlookup
    exact (hread.takes_merge_iff _ _).1 (hall _ hmem slot hslot rfl)
  · rintro hfitting ⟨key, json⟩ hmem slot hslot rfl
    obtain ⟨item, hread⟩ := h.readBy slot hslot
    have hlookup := (Dictionary.lookup_eq_some_iff_mem hkeys).2 hmem
    rw [lookup_mergeFields] at hlookup
    split at hlookup
    · rename_i update hupdate
      rw [← Option.some_inj.1 hlookup]
      exact (hread.takes_merge_iff _ _).2 (hfitting slot hslot update hupdate)
    · have hwritten := hread.writes base
      rw [hown, field?, hlookup] at hwritten
      exact ⟨slot.get base, hbase slot hslot, Option.some_inj.1 hwritten⟩

/-! ### Overrides of a record -/

theorem exists_overridden_iff (h : Described fields form slots) (ho : IsOverride override)
    (hbase : ∀ slot ∈ slots, slot.fits (slot.get base)) :
    (∃ r, overridden form (decodeRecord exact expected fields default) base override = .ok r)
      ↔ Fitting slots override := by
  rcases ho with rfl | ⟨overrides, rfl⟩
  · exact iff_of_true ⟨base, rfl⟩ fun slot _ json hjson => nomatch hjson
  · have hdecode : (∃ r, decodeRecord exact expected fields default (merge (form base) (.object overrides)) = .ok r)
        ↔ Fitting slots (.object overrides) := h.exists_decode_merge_iff hbase
    rw [← hdecode]
    constructor
    · rintro ⟨r, hr⟩
      exact ⟨r, of_mapError hr⟩
    · rintro ⟨r, hr⟩
      exact ⟨r, congrArg (Except.mapError ConfigError.unfitProfile) hr⟩

theorem settled (h : Described fields form slots) (ho : IsOverride override) {item : Decoder slot.α}
    (hread : slot.ReadBy fields form item)
    (hr : overridden form (decodeRecord exact expected fields default) base override = .ok r) :
    Settled item (override.field? slot.name) (slot.get base) (slot.get r) := by
  rcases ho with rfl | ⟨overrides, rfl⟩
  · cases hr
    rfl
  · exact hread.settled_override (h.tidy base) (h.isObject base) (of_mapError hr)

/-- **What is read holds the overrides**, and what they leave out as it was. -/
theorem overlaid (h : Described fields form slots) (ho : IsOverride override)
    (hr : overridden form (decodeRecord exact expected fields default) base override = .ok r) :
    Overlaid slots override base r := by
  intro slot hslot
  obtain ⟨item, hread⟩ := h.readBy slot hslot
  have hsettled := h.settled ho hread hr
  cases hsaid : override.field? slot.name with
  | none =>
      rw [hsaid] at hsettled
      exact hsettled
  | some json =>
      rw [hsaid] at hsettled
      exact ((hread.reads _ _).1 hsettled).2

theorem fits_overridden (h : Described fields form slots) (ho : IsOverride override)
    (hbase : ∀ slot ∈ slots, slot.fits (slot.get base))
    (hr : overridden form (decodeRecord exact expected fields default) base override = .ok r) :
    ∀ slot ∈ slots, slot.fits (slot.get r) := by
  intro slot hslot
  obtain ⟨item, hread⟩ := h.readBy slot hslot
  have hsettled := h.settled ho hread hr
  cases hsaid : override.field? slot.name with
  | none =>
      rw [hsaid] at hsettled
      exact (show slot.get r = slot.get base from hsettled) ▸ hbase slot hslot
  | some json =>
      rw [hsaid] at hsettled
      exact ((hread.reads _ _).1 hsettled).1

/-- Laying the same override over a record again changes nothing. -/
theorem overridden_again (h : Described fields form slots) (ho : IsOverride override)
    (hbase : ∀ slot ∈ slots, slot.fits (slot.get base))
    (hr : overridden form (decodeRecord exact expected fields default) base override = .ok r) :
    overridden form (decodeRecord exact expected fields default) r override = .ok r := by
  have hfitting := (h.exists_overridden_iff ho hbase).1 ⟨r, hr⟩
  obtain ⟨r', hr'⟩ : ∃ r', overridden form (decodeRecord exact expected fields default) r override = .ok r' :=
    (h.exists_overridden_iff ho (h.fits_overridden ho hbase hr)).2 hfitting
  have heq : r' = r := by
    refine h.ext r' r fun slot hslot => ?_
    obtain ⟨item, hread⟩ := h.readBy slot hslot
    have hfirst := h.settled ho hread hr
    have hagain := h.settled ho hread hr'
    cases hsaid : override.field? slot.name with
    | none =>
        rw [hsaid] at hagain
        exact hagain
    | some json =>
        rw [hsaid] at hfirst hagain
        exact Except.ok.inj (hagain.symm.trans hfirst)
  rw [hr', heq]

end Described

/-! ### What reading keeps -/

/-- Taking in the value of a field keeps a property. -/
def Keeps (P : ρ → Prop) (field : RecordField ρ) : Prop :=
  ∀ json r r', field.update json r = .ok r' → P r → P r'

variable {P : ρ → Prop} {r' : ρ}

theorem decodeFields_keeps (hfields : ∀ field ∈ fields, Keeps P field) (hd : decodeFields fields given r = .ok r')
    (hr : P r) : P r' := by
  induction given generalizing r with
  | nil =>
      cases hd
      exact hr
  | cons entry rest ih =>
      obtain ⟨between, hfirst, hrest⟩ := bind_eq_ok hd
      refine ih hrest ?_
      unfold decodeField at hfirst
      split at hfirst
      · rename_i field hfind
        exact hfields field (List.mem_of_find?_eq_some hfind) _ _ _ (of_under hfirst) hr
      · cases hfirst
        exact hr

theorem decodeColumns_keeps {items : List Json} {position : Nat} (hfields : ∀ field ∈ fields, Keeps P field)
    (hd : decodeColumns position fields items r = .ok r') (hr : P r) : P r' := by
  induction fields generalizing items position r with
  | nil =>
      cases hd
      exact hr
  | cons field fields ih =>
      cases items with
      | nil =>
          cases hd
          exact hr
      | cons item items =>
          obtain ⟨between, hfirst, hrest⟩ := bind_eq_ok hd
          rw [List.forall_mem_cons] at hfields
          exact ih hfields.2 hrest (hfields.1 _ _ _ (of_under hfirst) hr)

/-- What no field breaks holds of every record that is read, if it holds of the defaults. -/
theorem decodeRecord_keeps (hfields : ∀ field ∈ fields, Keeps P field)
    (hd : decodeRecord exact expected fields default json = .ok r) (hdefault : P default) : P r := by
  cases json with
  | object given => exact decodeFields_keeps hfields hd hdefault
  | array items =>
      obtain ⟨read, hread, hd⟩ := bind_eq_ok hd
      split at hd
      · cases hd
      · cases hd
        exact decodeColumns_keeps hfields hread hdefault
  | null | bool | number | string => cases hd

theorem keeps_of {name : String} {set : α → ρ → ρ} (h : ∀ json a r, item json = .ok a → P r → P (set a r)) :
    Keeps P (.of name item set) := by
  intro json r r' hu hr
  obtain ⟨a, ha, rfl⟩ := update_of_iff.1 hu
  exact h json a r ha hr

/-! ### Blame -/

theorem overridden_eq_error {decode : Decoder ρ} {error : ConfigError}
    (h : overridden form decode base override = .error error) : ∃ misfit, error = .unfitProfile misfit := by
  unfold overridden at h
  split at h
  · cases h
  · cases hd : decode (merge (form base) override) with
    | ok r =>
        rw [hd] at h
        cases h
    | error misfit =>
        rw [hd] at h
        cases h
        exact ⟨misfit, rfl⟩

end Pagefold.Json

/-! ### Options and settings -/

namespace Pagefold

open Json

/-- What options hold. -/
def Options.slots : List (Slot Options) :=
  [{ name := "inline_pattern", write := strings, get := patterns },
    { name := "delete_inlined_files", write := bool, get := deleteFolded },
    { name := "remove_module_loader", write := bool, get := removePreload },
    { name := "strip_css_comments", write := bool, get := stripComments },
    { name := "cdata", write := bool, get := Options.cdata },
    { name := "namespace_prefix", write := string, get := lead }]

/-- What settings hold.  Counts are words of 64 bits. -/
def Settings.slots : List (Slot Settings) :=
  [{ name := "log_level", write := ofString?, get := logLevel? },
    { name := "parallel_jobs", write := fun jobs? => (jobs?.map nat).getD .null, get := jobs?,
      fits := fun jobs? => ∀ n ∈ jobs?, n < wordLimit }]

theorem Options.described : Described fields toJson slots where
  named := by simp [fields, slots, RecordField.of]
  readBy := by
    simp only [slots, List.forall_mem_cons, List.not_mem_nil, false_imp_iff, implies_true, and_true]
    refine ⟨⟨_, entry_patterns, ?_, ?_, ?_⟩, ⟨_, entry_deleteFolded, ?_, ?_, ?_⟩, ⟨_, entry_removePreload, ?_, ?_, ?_⟩,
      ⟨_, entry_stripComments, ?_, ?_, ?_⟩, ⟨_, entry_cdata, ?_, ?_, ?_⟩, ⟨_, entry_lead, ?_, ?_, ?_⟩⟩
    all_goals simp [fields, takesAs_own, takesAs_other, decodeBool_eq_ok_iff, decodeString_eq_ok_iff,
      decodeStrings_eq_ok_iff, toJson, ofFields, field?, Fields.lookup_put]
  ext := by
    rintro ⟨⟩ ⟨⟩ h
    simpa [slots] using h
  isObject _ := ⟨_, rfl⟩
  tidy := tidy_toJson

theorem Settings.described : Described fields toJson slots where
  named := by simp [fields, slots, RecordField.of]
  readBy := by
    simp only [slots, List.forall_mem_cons, List.not_mem_nil, false_imp_iff, implies_true, and_true]
    refine ⟨⟨_, entry_logLevel, ?_, ?_, ?_⟩, ⟨_, entry_jobs, ?_, ?_, ?_⟩⟩
    all_goals simp [fields, takesAs_own, takesAs_other, decodeString?_eq_ok_iff, decodeCount?_eq_ok_iff, toJson,
      ofFields, field?, Fields.lookup_put]
  ext := by
    rintro ⟨⟩ ⟨⟩ h
    simpa [slots] using h
  isObject _ := ⟨_, rfl⟩
  tidy := tidy_toJson

theorem Options.fits_slots (o : Options) : ∀ slot ∈ slots, slot.fits (slot.get o) := by
  simp [slots]

theorem Settings.fits_slots_iff {s : Settings} :
    (∀ slot ∈ slots, slot.fits (slot.get s)) ↔ ∀ n ∈ s.jobs?, n < wordLimit := by
  simp [slots]

/-- Settings that are read hold a count that fits. -/
theorem Settings.jobs_lt_of_decode {exact : Bool} {json : Json} {s : Settings}
    (h : Settings.decode exact json = .ok s) : ∀ n ∈ s.jobs?, n < wordLimit := by
  refine decodeRecord_keeps (P := fun s => ∀ n ∈ s.jobs?, n < wordLimit) ?_ h (by simp)
  simp only [fields, List.forall_mem_cons, List.not_mem_nil, false_imp_iff, implies_true, and_true]
  exact ⟨keeps_of fun _ _ _ _ hs => hs, keeps_of fun _ _ _ hread _ => (decodeCount?_eq_ok_iff.1 hread).1⟩

namespace Config

variable {c under : Config} {name : String} {profile : Profile} {error : ConfigError}

/-- Every configuration that is read holds a count that fits. -/
theorem jobs_lt_of_decode {exact : Bool} {json : Json} (h : decode exact json = .ok c) :
    ∀ n ∈ c.settings.jobs?, n < wordLimit := by
  refine decodeRecord_keeps (P := fun c => ∀ n ∈ c.settings.jobs?, n < wordLimit) ?_ h (by simp)
  simp only [fields, List.forall_mem_cons, List.not_mem_nil, false_imp_iff, implies_true, and_true]
  exact ⟨keeps_of fun _ _ _ _ hc => hc, keeps_of fun _ _ _ hread _ => Settings.jobs_lt_of_decode hread,
    keeps_of fun _ _ _ _ hc => hc⟩

theorem withProfile_of_get? (h : c.profiles.get? name = some profile) : c.withProfile (some name)
    = (overridden Options.toJson (Options.decode true) c.options profile.options).bind fun options =>
        (overridden Settings.toJson (Settings.decode true) c.settings profile.settings).bind fun settings =>
          .ok { c with options, settings } := by
  unfold withProfile
  dsimp only
  rw [h]
  rfl

theorem withProfile_eq_ok_iff (h : c.profiles.get? name = some profile) : c.withProfile (some name) = .ok under
    ↔ overridden Options.toJson (Options.decode true) c.options profile.options = .ok under.options ∧
      overridden Settings.toJson (Settings.decode true) c.settings profile.settings = .ok under.settings ∧
      under.profiles = c.profiles := by
  rw [withProfile_of_get? h]
  constructor
  · intro hunder
    obtain ⟨options, hoptions, hunder⟩ := bind_eq_ok hunder
    obtain ⟨settings, hsettings, hunder⟩ := bind_eq_ok hunder
    cases hunder
    exact ⟨hoptions, hsettings, rfl⟩
  · rintro ⟨hoptions, hsettings, hprofiles⟩
    rw [hoptions, hsettings, ← hprofiles]
    rfl

theorem withProfile_eq_error (h : c.profiles.get? name = some profile)
    (herror : c.withProfile (some name) = .error error) : ∃ misfit, error = .unfitProfile misfit := by
  rw [withProfile_of_get? h] at herror
  cases hoptions : overridden Options.toJson (Options.decode true) c.options profile.options with
  | error e =>
      rw [hoptions] at herror
      cases herror
      exact overridden_eq_error hoptions
  | ok options =>
      rw [hoptions] at herror
      cases hsettings : overridden Settings.toJson (Settings.decode true) c.settings profile.settings with
      | error e =>
          rw [hsettings] at herror
          cases herror
          exact overridden_eq_error hsettings
      | ok settings =>
          rw [hsettings] at herror
          cases herror

/-- **Profiles override value by value.**  Without a profile a configuration stays as it is, and an unknown one is
refused.  A known one whose overrides are objects or null can be laid over a configuration just when each value that
they name is of the kind of its slot.  Then each option and each setting is what the overrides say of it, or what it
was if they do not name it; the profiles stay; and the same profile changes nothing any more.  If a profile cannot be
laid over, its overrides are to blame.  Every configuration that is read has a count that fits
(`jobs_lt_of_decode`). -/
theorem profile_overrides (c : Config) (hjobs : ∀ n ∈ c.settings.jobs?, n < wordLimit) :
    c.withProfile none = .ok c ∧
    ∀ name,
      (c.profiles.get? name = none → c.withProfile (some name) = .error (.unknownProfile name)) ∧
      ∀ profile, c.profiles.get? name = some profile → IsOverride profile.options → IsOverride profile.settings →
        ((∃ under, c.withProfile (some name) = .ok under)
          ↔ Fitting Options.slots profile.options ∧ Fitting Settings.slots profile.settings) ∧
        (∀ under, c.withProfile (some name) = .ok under →
          Overlaid Options.slots profile.options c.options under.options ∧
          Overlaid Settings.slots profile.settings c.settings under.settings ∧
          under.profiles = c.profiles ∧ under.withProfile (some name) = .ok under) ∧
        (∀ error, c.withProfile (some name) = .error error → ∃ misfit, error = .unfitProfile misfit) := by
  refine ⟨rfl, fun name => ⟨?_, ?_⟩⟩
  · intro hnone
    unfold withProfile
    dsimp only
    rw [hnone]
  · intro profile hname hoptions hsettings
    have hbaseOptions := c.options.fits_slots
    have hbaseSettings := Settings.fits_slots_iff.2 hjobs
    refine ⟨?_, ?_, fun error => withProfile_eq_error hname⟩
    · constructor
      · rintro ⟨under, hunder⟩
        obtain ⟨ho, hs, _⟩ := (withProfile_eq_ok_iff hname).1 hunder
        exact ⟨(Options.described.exists_overridden_iff hoptions hbaseOptions).1 ⟨_, ho⟩,
          (Settings.described.exists_overridden_iff hsettings hbaseSettings).1 ⟨_, hs⟩⟩
      · rintro ⟨hfitOptions, hfitSettings⟩
        obtain ⟨options, ho⟩ := (Options.described.exists_overridden_iff hoptions hbaseOptions).2 hfitOptions
        obtain ⟨settings, hs⟩ := (Settings.described.exists_overridden_iff hsettings hbaseSettings).2 hfitSettings
        exact ⟨{ c with options, settings }, (withProfile_eq_ok_iff hname).2 ⟨ho, hs, rfl⟩⟩
    · intro under hunder
      obtain ⟨ho, hs, hprofiles⟩ := (withProfile_eq_ok_iff hname).1 hunder
      have hsame : under.profiles.get? name = some profile := hprofiles ▸ hname
      exact ⟨Options.described.overlaid hoptions ho, Settings.described.overlaid hsettings hs, hprofiles,
        (withProfile_eq_ok_iff hsame).2 ⟨Options.described.overridden_again hoptions hbaseOptions ho,
          Settings.described.overridden_again hsettings hbaseSettings hs, rfl⟩⟩

def debugProfile : Profile where
  options := ofFields [("delete_inlined_files", bool false), ("inline_pattern", strings []), ("unknown", nat 1)]
  settings := ofFields [("parallel_jobs", null)]

def brokenProfile : Profile where
  options := ofFields [("cdata", string "yes")]

/-- A configuration with a profile that can be laid over it, and one that cannot. -/
def profiledConfig : Config where
  options := { patterns := ["*.css"], lead := "n_" }
  settings := { logLevel? := some "info", jobs? := some 4 }
  profiles := .ofList [("debug", debugProfile), ("broken", brokenProfile)]

theorem profiledConfig_overridden :
    (∀ n ∈ profiledConfig.settings.jobs?, n < wordLimit) ∧
    profiledConfig.withProfile none = .ok profiledConfig ∧
    profiledConfig.withProfile (some "release") = .error (.unknownProfile "release") ∧
    (∃ under, profiledConfig.withProfile (some "debug") = .ok under ∧
      under.options = { lead := "n_", deleteFolded := false } ∧ under.settings = { logLevel? := some "info" } ∧
      under.withProfile (some "debug") = .ok under) ∧
    ∃ misfit, profiledConfig.withProfile (some "broken") = .error (.unfitProfile misfit) := by
  have hjobs : ∀ n ∈ profiledConfig.settings.jobs?, n < wordLimit := by decide
  obtain ⟨hnone, hname⟩ := profile_overrides profiledConfig hjobs
  obtain ⟨hdebug, hunder, _⟩ := (hname "debug").2 debugProfile rfl (.inr ⟨_, rfl⟩) (.inr ⟨_, rfl⟩)
  obtain ⟨hbroken, _, herror⟩ := (hname "broken").2 brokenProfile rfl (.inr ⟨_, rfl⟩) (.inl rfl)
  have hfits : Fitting Options.slots debugProfile.options ∧ Fitting Settings.slots debugProfile.settings := by
    constructor
    · simp [Fitting, Options.slots, Slot.Takes, debugProfile, ofFields, field?, Fields.lookup_put]
    · have hnull : ∃ jobs? : Option Nat, (∀ n ∈ jobs?, n < wordLimit) ∧ null = (jobs?.map nat).getD null :=
        ⟨none, by simp, rfl⟩
      simpa [Fitting, Settings.slots, Slot.Takes, debugProfile, ofFields, field?, Fields.lookup_put] using hnull
  have hunfit : ¬Fitting Options.slots brokenProfile.options := by
    simp [Fitting, Options.slots, Slot.Takes, brokenProfile, ofFields, field?, Fields.lookup_put]
  refine ⟨hjobs, hnone, (hname "release").1 rfl, ?_, ?_⟩
  · obtain ⟨⟨options, settings, profiles⟩, hok⟩ := hdebug.2 hfits
    obtain ⟨hoptions, hsettings, _, hagain⟩ := hunder _ hok
    refine ⟨_, hok, ?_, ?_, hagain⟩
    · cases options
      simpa [Overlaid, Options.slots, debugProfile, profiledConfig, ofFields, field?, Fields.lookup_put, strings,
        eq_comm] using hoptions
    · obtain ⟨logLevel?, jobs?⟩ := settings
      cases jobs? with
      | none =>
          simpa [Overlaid, Settings.slots, debugProfile, profiledConfig, ofFields, field?, Fields.lookup_put]
            using hsettings
      | some n =>
          simp [Overlaid, Settings.slots, debugProfile, ofFields, field?, Fields.lookup_put, nat, int] at hsettings
  · cases hlaid : profiledConfig.withProfile (some "broken") with
    | ok under => exact absurd (hbroken.1 ⟨under, hlaid⟩).1 hunfit
    | error error =>
        obtain ⟨misfit, rfl⟩ := herror error hlaid
        exact ⟨misfit, rfl⟩

end Config

end Pagefold
