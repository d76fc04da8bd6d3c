import Pagefold.Command.Run
import Pagefold.Proofs.Layering

/-! # What prevails in a configuration

A configuration has sections, and a profile overrides them under the same keys (`Section`).  What a file
and the environment say of a value is settled in two steps: over the defaults before any profile
(`Section.settled_base`), and by the profile over that (`Section.settled_profile`).  Over both lie the
flags of a request, and `config_settled` gives the order of all five for each option and setting. -/

namespace Pagefold.Config

open Json

variable {α ρ : Type} {item : Decoder α} {file environment : Json} {way : List String} {name : String}

/-! ### What is said -/

/-- What a file and the environment say at a path. -/
def layeredAt? (file environment : Json) (path : List String) : Option Json :=
  (environment.at? path).or (file.at? path)

/-- What is said at a path of a section: by the profile that is asked for, which holds null in the place of
a number that is not finite, or else by the section itself. -/
def said? (file environment : Json) (profile? : Option String) (path : List String) : Option Json :=
  ((profile?.bind fun name => layeredAt? file environment ("profiles" :: name :: path)).map finite).or
    (layeredAt? file environment path)

theorem tidy_stacked (hf : file.Tidy) (he : environment.Tidy) : (stacked file environment).Tidy :=
  ((tidy_empty.merge tidy_defaults).merge hf).merge he

theorem opens_stacked (hd : ({} : Config).toJson.Opens way) (hf : file.Opens way)
    (he : environment.Opens way) : (stacked file environment).Opens way :=
  (((opens_empty way).merge hd).merge hf).merge he

/-! ### Sections -/

/-- A section of a configuration: a record under a key, which the same key of a profile overrides. -/
structure Section (ρ : Type) where
  key : String
  listed : key ∈ ["inline", "settings"]
  expected : String
  fields : List (RecordField ρ)
  write : ρ → Json
  default : ρ
  get : Config → ρ
  override : Profile → Json
  holds : Holds (Config.fields false) key (decodeRecord false expected fields default) get
  overrides : Holds Profile.fields key decodeAny override
  isObject : ∀ r, ∃ own, write r = object own
  tidy : ∀ r, (write r).Tidy
  unset : get {} = default
  unsaid : override {} = null
  written : ({} : Config).toJson.at? [key] = some (write default)
  laid : ∀ {c under name}, c.withProfile (some name) = .ok under →
    ∃ profile, c.profiles.get? name = some profile ∧
      overridden write (decodeRecord true expected fields default) (get c) (override profile) = .ok (get under)

/-- A profile changes the options and the settings by its overrides. -/
theorem withProfile_eq_ok {c under : Config} {name : String} (h : c.withProfile (some name) = .ok under) :
    ∃ profile, c.profiles.get? name = some profile ∧
      overridden Options.toJson (Options.decode true) c.options profile.options = .ok under.options ∧
      overridden Settings.toJson (Settings.decode true) c.settings profile.settings = .ok under.settings := by
  unfold withProfile at h
  dsimp only at h
  split at h
  · cases h
  · rename_i profile hprofile
    obtain ⟨options, hoptions, h⟩ := bind_eq_ok h
    obtain ⟨settings, hsettings, h⟩ := bind_eq_ok h
    cases h
    exact ⟨profile, hprofile, hoptions, hsettings⟩

def optionsSection : Section Options where
  key := "inline"
  listed := by simp
  expected := "struct InlineOptions"
  fields := Options.fields
  write := Options.toJson
  default := {}
  get := Config.options
  override := Profile.options
  holds := holds_options
  overrides := Profile.holds_options
  isObject _ := ⟨_, rfl⟩
  tidy := Options.tidy_toJson
  unset := rfl
  unsaid := rfl
  written := by rw [defaults_eq_object]; rfl
  laid h := (withProfile_eq_ok h).imp fun _ h => ⟨h.1, h.2.1⟩

def settingsSection : Section Settings where
  key := "settings"
  listed := by simp
  expected := "struct GlobalSettings"
  fields := Settings.fields
  write := Settings.toJson
  default := {}
  get := Config.settings
  override := Profile.settings
  holds := holds_settings
  overrides := Profile.holds_settings
  isObject _ := ⟨_, rfl⟩
  tidy := Settings.tidy_toJson
  unset := rfl
  unsaid := rfl
  written := by rw [defaults_eq_object]; rfl
  laid h := (withProfile_eq_ok h).imp fun _ h => ⟨h.1, h.2.2⟩

namespace Section

variable {S : Section ρ} {get : ρ → α} {base under : Config} {profile : String}

/-- The section is there by default. -/
theorem opens (S : Section ρ) : ({} : Config).toJson.Opens [S.key] := by
  obtain ⟨own, hown⟩ := S.isObject S.default
  have hat := S.written
  rw [defaults_eq_object, at?_singleton, hown] at hat
  rw [defaults_eq_object]
  refine opens_cons fun inner hinner => ?_
  rw [field?, hinner] at hat
  exact Option.some_inj.1 hat ▸ opens_nil own

/-- A value of a section before any profile. -/
theorem settled_base (entry : Entry S.fields S.write name item get) (hft : file.Tidy) (het : environment.Tidy)
    (hf : file.Opens [S.key]) (he : environment.Opens [S.key])
    (hd : decode false (stacked file environment) = .ok base) :
    Settled item (layeredAt? file environment [S.key, name]) (get S.default) (get (S.get base)) := by
  have htidy := tidy_stacked hft het
  have hopens := opens_stacked S.opens hf he
  obtain ⟨all, hall⟩ := hopens.object
  rw [hall] at htidy hopens hd
  have hsection := S.holds.settled_record htidy hd
  have hs : Settled item ((stacked file environment).at? [S.key, name]) (get S.default) (get (S.get base)) := by
    rw [hall, at?_cons_object]
    cases hl : all.lookup S.key with
    | none =>
        rw [hl] at hsection
        exact congrArg get (hsection.trans S.unset)
    | some inner =>
        rw [hl] at hsection
        obtain ⟨own, rfl⟩ := (hopens.below hl).object
        rw [Option.bind_some, at?_singleton]
        exact entry.settled_record (htidy.of_lookup hl) hsection
  obtain ⟨json, hjson, hback⟩ := entry.written S.default
  have hwritten : ({} : Config).toJson.at? [S.key, name] = some json := by
    rw [← List.singleton_append, at?_append, S.written, Option.bind_some, at?_singleton, hjson]
  have h := settled_stacked [S.key] entry.leaf S.opens hf he hs
  rw [List.singleton_append, hwritten, ← Option.or_assoc] at h
  exact h.of_written (hback _)

/-- A profile that is there was read from an object with distinct keys. -/
theorem exists_profile (htidy : (stacked file environment).Tidy)
    (hopens : (stacked file environment).Opens ["profiles", profile]) {p : Profile}
    (hd : decode false (stacked file environment) = .ok base) (hp : base.profiles.get? profile = some p) :
    ∃ own, (stacked file environment).at? ["profiles", profile] = some (object own) ∧ (object own).Tidy ∧
      Profile.decode false (object own) = .ok p := by
  obtain ⟨all, hall⟩ := hopens.object
  rw [hall] at htidy hopens hd ⊢
  have hsettled := holds_profiles.settled_record htidy hd
  cases hl : all.lookup "profiles" with
  | none =>
      rw [hl] at hsettled
      rw [show base.profiles = .empty from hsettled] at hp
      cases hp
  | some inner =>
      rw [hl] at hsettled
      obtain ⟨table, rfl⟩ := (hopens.below hl).object
      obtain ⟨entries, hentries, hprofiles⟩ := map_eq_ok hsettled
      have hmem : (profile, p) ∈ entries := Table.mem_of_get?_ofList (hprofiles ▸ hp)
      obtain ⟨json, hjson, hdecode⟩ := mem_of_decodeEntries hentries hmem
      have htable := htidy.of_lookup hl
      have hlookup : table.lookup profile = some json :=
        (Dictionary.lookup_eq_some_iff_mem (tidy_object_iff.1 htable).1).2 hjson
      obtain ⟨own, rfl⟩ := ((hopens.below hl).below hlookup).object
      refine ⟨own, ?_, htable.of_lookup hlookup, hdecode⟩
      rw [at?_cons_object, hl, Option.bind_some, at?_singleton, field?, hlookup]

/-- Overrides settle a section over what it was; where there are none it stays so. -/
theorem settled_overridden (entry : Entry S.fields S.write name item get) {r r' : ρ} {sec? : Option Json}
    {override : Json} (hsec : ∀ value, sec? = some value → ∃ own, value = object own)
    (hoverride : Settled decodeAny sec? null override)
    (h : overridden S.write (decodeRecord true S.expected S.fields S.default) r override = .ok r') :
    Settled (fun json => item json.finite) (sec?.bind (·.field? name)) (get r) (get r') := by
  cases sec? with
  | none =>
      rw [show override = null from hoverride] at h
      cases h
      rfl
  | some value =>
      obtain ⟨own, rfl⟩ := hsec value rfl
      have hvalue : override = object (finiteFields own) := (Except.ok.inj hoverride).symm
      rw [hvalue] at h
      have hd := of_mapError h
      have hs := entry.settled_override (S.tidy r) (S.isObject r) hd
      rw [lookup_finiteFields] at hs
      rw [Option.bind_some, field?]
      cases hl : own.lookup name with
      | none => rw [hl] at hs; exact hs
      | some inner => rw [hl] at hs; exact hs

/-- A profile settles the values of a section over those that were there. -/
theorem settled_profile (entry : Entry S.fields S.write name item get) (hft : file.Tidy) (het : environment.Tidy)
    (hf : file.Opens ["profiles", profile, S.key]) (he : environment.Opens ["profiles", profile, S.key])
    (hd : decode false (stacked file environment) = .ok base)
    (hunder : base.withProfile (some profile) = .ok under) :
    Settled (fun json => item json.finite) (layeredAt? file environment ["profiles", profile, S.key, name])
      (get (S.get base)) (get (S.get under)) := by
  have hopens := opens_stacked (opens_profiles [profile, S.key]) hf he
  obtain ⟨p, hp, hlaid⟩ := S.laid hunder
  have hfront : ["profiles", profile] <+: ["profiles", profile, S.key] := List.prefix_append _ [S.key]
  obtain ⟨own, hown, htidy, hread⟩ := exists_profile (tidy_stacked hft het)
    (fun front h => hopens front (h.trans hfront)) hd hp
  have hsaid := S.overrides.settled_record htidy hread
  rw [show S.override {} = null from S.unsaid] at hsaid
  have hat : (stacked file environment).at? ["profiles", profile, S.key, name]
      = (own.lookup S.key).bind (·.field? name) := by
    rw [show ["profiles", profile, S.key, name] = ["profiles", profile] ++ [S.key, name] from rfl, at?_append, hown,
      Option.bind_some, at?_cons_object]
    exact congrArg _ (funext fun _ => at?_singleton)
  have hsec : ∀ value, own.lookup S.key = some value → ∃ inner, value = object inner := by
    intro value hvalue
    refine hopens _ (List.prefix_refl _) value ?_
    rw [show ["profiles", profile, S.key] = ["profiles", profile] ++ [S.key] from rfl, at?_append, hown,
      Option.bind_some, at?_singleton, field?, hvalue]
  have hs := settled_overridden entry hsec hsaid hlaid
  rw [← hat] at hs
  have h := settled_stacked ["profiles", profile, S.key] (fun given value => entry.leaf (finiteFields given) value)
    (opens_profiles _) hf he hs
  have hnone : ({} : Config).toJson.at? ["profiles", profile, S.key, name] = none := by
    rw [defaults_eq_object]
    rfl
  simp only [List.cons_append, List.nil_append] at h
  rw [hnone, Option.or_none] at h
  exact h

/-- **A value of a section** is settled by what is said of it, under a profile or not. -/
theorem settled (entry : Entry S.fields S.write name item get) {profile? : Option String}
    (hft : file.Tidy) (het : environment.Tidy) (hf : file.Opens [S.key]) (he : environment.Opens [S.key])
    (hfp : ∀ profile ∈ profile?, file.Opens ["profiles", profile, S.key])
    (hep : ∀ profile ∈ profile?, environment.Opens ["profiles", profile, S.key])
    (hd : decode false (stacked file environment) = .ok base) (hunder : base.withProfile profile? = .ok under) :
    Settled item (said? file environment profile? [S.key, name]) (get S.default) (get (S.get under)) := by
  have hbase := settled_base entry hft het hf he hd
  cases profile? with
  | none =>
      cases hunder
      exact hbase
  | some profile =>
      have hprofile := settled_profile entry hft het (hfp profile rfl) (hep profile rfl) hd hunder
      rw [said?, Option.bind_some]
      cases hl : layeredAt? file environment ["profiles", profile, S.key, name] with
      | none =>
          rw [hl] at hprofile
          exact (show get (S.get under) = get (S.get base) from hprofile) ▸ hbase
      | some json =>
          rw [hl] at hprofile
          exact hprofile

end Section

end Pagefold.Config

namespace Pagefold.Command

open Json Config

/-- What the configuration file for a request says: nothing when there is none. -/
def FoldRequest.file (r : FoldRequest) (t : FileTree) : Except ConfigError Json :=
  match r.config?.or (Config.find? t "") with
  | some path => (Config.fileLayers t path).map saidBy
  | none => .ok (object [])

variable {r : FoldRequest} {t : FileTree} {env : List (String × String)} {c : Config}

/-- The configuration for a request before its profile and its flags. -/
def FoldRequest.base (r : FoldRequest) (t : FileTree) (env : List (String × String)) : Except ConfigError Config :=
  match r.config? with
  | some path => Config.loadFile t env path
  | none => Config.loadOrDefault t env ""

theorem config_eq_bind : r.config t env = (r.base t env >>= fun base => base.withProfile r.profile? >>= fun under =>
    let c := { under with options := r.overOptions under.options }
    c.check.mapError .flawed >>= fun _ => .ok c) := by
  unfold FoldRequest.config FoldRequest.base
  cases r.config? <;> rfl

theorem base_eq_ok (h : r.base t env = .ok c) :
    ∃ layers, IsSaid layers ∧ r.file t = .ok (saidBy layers) ∧
      decode false (stacked (saidBy layers) (Environment.ofVariables env).value) = .ok c := by
  have hpath : ∀ path, r.config?.or (Config.find? t "") = some path → Config.loadFile t env path = .ok c →
      ∃ layers, IsSaid layers ∧ r.file t = .ok (saidBy layers) ∧
        decode false (stacked (saidBy layers) (Environment.ofVariables env).value) = .ok c := by
    intro path hfile hload
    obtain ⟨layers, hlayers, hsaid, hd⟩ := loadFile_eq_ok hload
    refine ⟨layers, hsaid, ?_, hd⟩
    rw [FoldRequest.file, hfile]
    dsimp only
    rw [hlayers]
    rfl
  unfold FoldRequest.base at h
  cases hc : r.config? with
  | some path =>
      rw [hc] at h
      exact hpath path (by rw [hc]; rfl) h
  | none =>
      rw [hc] at h
      cases hfind : Config.find? t "" with
      | some path =>
          simp only [loadOrDefault, hfind] at h
          exact hpath path (by rw [hc, hfind]; rfl) h
      | none =>
          simp only [loadOrDefault, hfind] at h
          refine ⟨[], .inl rfl, ?_, ofLayers_eq_ok (.inl rfl) h⟩
          rw [FoldRequest.file, hc, hfind]
          rfl

/-- How a configuration comes about: what a file and the environment say is decoded over the defaults, and a
profile is laid over that. -/
structure Loaded (file environment : Json) (profile? : Option String) (base under : Config) : Prop where
  tidyFile : file.Tidy
  tidyEnvironment : environment.Tidy
  objectFile : ∃ fields, file = object fields
  objectEnvironment : ∃ fields, environment = object fields
  decoded : decode false (stacked file environment) = .ok base
  profiled : base.withProfile profile? = .ok under

/-- **A configuration for a request** is made of what its file and the variables say, under its profile and its
flags, and nothing keeps it from being used. -/
theorem config_eq_ok (h : r.config t env = .ok c) :
    ∃ file base under, r.file t = .ok file ∧
      Loaded file (Environment.ofVariables env).value r.profile? base under ∧
      c = { under with options := r.overOptions under.options } ∧ c.check = .ok () := by
  rw [config_eq_bind] at h
  obtain ⟨base, hbase, h⟩ := bind_eq_ok h
  obtain ⟨under, hunder, h⟩ := bind_eq_ok h
  obtain ⟨_, hcheck, h⟩ := bind_eq_ok h
  cases h
  obtain ⟨layers, hsaid, hfile, hd⟩ := base_eq_ok hbase
  exact ⟨saidBy layers, base, under, hfile, ⟨hsaid.tidy, Environment.tidy_ofVariables env, hsaid.isObject,
    Environment.isObject_ofVariables env, hd, hunder⟩, rfl, of_mapError hcheck⟩

/-! ### Precedence -/

/-- An object, or nothing at all. -/
def IsSection : Option Json → Prop
  | none | some (.object _) => True
  | _ => False

instance : DecidablePred IsSection
  | none | some (.object _) => isTrue trivial
  | some .null | some (.bool _) | some (.number _) | some (.string _) | some (.array _) => isFalse id

/-- The paths that lead to sections, with a profile or without. -/
def sectionPaths : (profile? : Option String) → List (List String)
  | none => [["inline"], ["settings"]]
  | some name => [["inline"], ["settings"], ["profiles"], ["profiles", name], ["profiles", name, "inline"],
      ["profiles", name, "settings"]]

/-- Each section is an object, or it is not there. -/
def Sectioned (profile? : Option String) (json : Json) : Prop :=
  ∀ path ∈ sectionPaths profile?, IsSection (json.at? path)

instance (profile? : Option String) (json : Json) : Decidable (Sectioned profile? json) :=
  inferInstanceAs (Decidable (∀ path ∈ sectionPaths profile?, IsSection (json.at? path)))

/-- A value is that of a flag, if the flag is given, and else it is settled by what is said. -/
def Prevails {α : Type} (flag? : Option α) (item : Decoder α) (said? : Option Json) (otherwise value : α) : Prop :=
  match flag? with
  | some a => value = a
  | none => Settled item said? otherwise value

variable {profile? : Option String} {file environment json : Json} {base under : Config}

theorem IsSection.isObject {value : Json} (h : IsSection (some value)) : ∃ fields, value = object fields := by
  cases value with
  | object fields => exact ⟨fields, rfl⟩
  | null | bool | number | string | array => exact h.elim

theorem Sectioned.opens (h : Sectioned profile? json) (hobject : ∃ fields, json = object fields) {path : List String}
    (hpath : ∀ front, front <+: path → front = [] ∨ front ∈ sectionPaths profile?) : json.Opens path := by
  intro front hf value hv
  rcases hpath front hf with rfl | hlisted
  · exact Option.some_inj.1 hv ▸ hobject
  · have hsection := h front hlisted
    rw [hv] at hsection
    exact hsection.isObject

theorem mem_sectionPaths {key : String} (hkey : key ∈ ["inline", "settings"]) {front : List String}
    (hf : front <+: [key]) : front = [] ∨ front ∈ sectionPaths profile? := by
  simp only [List.prefix_cons_iff, List.prefix_nil] at hf
  simp only [List.mem_cons, List.not_mem_nil, or_false] at hkey
  cases profile? <;> simp only [sectionPaths] <;> grind

theorem mem_sectionPaths_profile {key profile : String} (hkey : key ∈ ["inline", "settings"]) {front : List String}
    (hf : front <+: ["profiles", profile, key]) : front = [] ∨ front ∈ sectionPaths (some profile) := by
  simp only [List.prefix_cons_iff, List.prefix_nil] at hf
  simp only [List.mem_cons, List.not_mem_nil, or_false] at hkey
  simp only [sectionPaths]
  grind

/-- Every value of a section is settled by what is said of it. -/
theorem Loaded.settled (h : Loaded file environment profile? base under) (hf : Sectioned profile? file)
    (he : Sectioned profile? environment) {ρ α : Type} {S : Section ρ} {item : Decoder α} {get : ρ → α}
    {name : String} (entry : Entry S.fields S.write name item get) :
    Settled item (said? file environment profile? [S.key, name]) (get S.default) (get (S.get under)) := by
  have hpath : ∀ profile ∈ profile?, ∀ front, front <+: ["profiles", profile, S.key] →
      front = [] ∨ front ∈ sectionPaths profile? := by
    rintro profile rfl front hfront
    exact mem_sectionPaths_profile S.listed hfront
  exact Section.settled entry h.tidyFile h.tidyEnvironment
    (hf.opens h.objectFile fun _ => mem_sectionPaths S.listed)
    (he.opens h.objectEnvironment fun _ => mem_sectionPaths S.listed)
    (fun profile hp => hf.opens h.objectFile (hpath profile hp))
    (fun profile hp => he.opens h.objectEnvironment (hpath profile hp)) h.decoded h.profiled

theorem Prevails.of_settled {α : Type} {flag? : Option α} {item : Decoder α} {said? : Option Json}
    {otherwise value value' : α} (h : Settled item said? otherwise value) (hflag : value' = flag?.getD value) :
    Prevails flag? item said? otherwise value' := by
  subst hflag
  cases flag? with
  | none => exact h
  | some a => rfl

/-- **Precedence.**  Where a request gets a configuration, its file can be read, and the configuration passes
every check.  If the sections of the file, of the environment and of the profile that is asked for are
objects or are not there, each option is that of its flag, and without the flag what the profile says of it,
or else the section, in each the environment before the file; it is the default if none of them says anything.
The lead of names and the settings have no flags, and are settled by the same rule without them. -/
theorem config_settled (h : r.config t env = .ok c) :
    ∃ file, r.file t = .ok file ∧ c.check = .ok () ∧
      let environment := (Environment.ofVariables env).value
      let said := said? file environment r.profile?
      (Sectioned r.profile? file → Sectioned r.profile? environment →
        Prevails (if r.patterns = [] then none else some r.patterns) (decodeList decodeString)
          (said ["inline", "inline_pattern"]) [] c.options.patterns ∧
        Prevails (if r.keepFolded then some false else none) decodeBool
          (said ["inline", "delete_inlined_files"]) true c.options.deleteFolded ∧
        Prevails (if r.removePreload then some true else none) decodeBool
          (said ["inline", "remove_module_loader"]) false c.options.removePreload ∧
        Prevails (if r.keepComments then some false else none) decodeBool
          (said ["inline", "strip_css_comments"]) true c.options.stripComments ∧
        Prevails (if r.cdata then some true else none) decodeBool (said ["inline", "cdata"]) false c.options.cdata ∧
        Settled decodeString (said ["inline", "namespace_prefix"]) "__ns_" c.options.lead ∧
        Settled (decodeOption decodeString) (said ["settings", "log_level"]) none c.settings.logLevel? ∧
        Settled (decodeOption decodeCount) (said ["settings", "parallel_jobs"]) none c.settings.jobs?) := by
  obtain ⟨file, base, under, hfile, hloaded, rfl, hcheck⟩ := config_eq_ok h
  refine ⟨file, hfile, hcheck, ?_⟩
  intro environment said hf he
  have hoptions {α : Type} {item : Decoder α} {get : Options → α} {name : String}
      (entry : Entry Options.fields Options.toJson name item get) :
      Settled item (said ["inline", name]) (get {}) (get under.options) :=
    hloaded.settled (S := optionsSection) hf he entry
  have hsettings {α : Type} {item : Decoder α} {get : Settings → α} {name : String}
      (entry : Entry Settings.fields Settings.toJson name item get) :
      Settled item (said ["settings", name]) (get {}) (get under.settings) :=
    hloaded.settled (S := settingsSection) hf he entry
  refine ⟨.of_settled (hoptions Options.entry_patterns) ?_, .of_settled (hoptions Options.entry_deleteFolded) ?_,
    .of_settled (hoptions Options.entry_removePreload) ?_, .of_settled (hoptions Options.entry_stripComments) ?_,
    .of_settled (hoptions Options.entry_cdata) ?_, hoptions Options.entry_lead, hsettings Settings.entry_logLevel,
    hsettings Settings.entry_jobs⟩
  · cases hp : r.patterns <;> simp [FoldRequest.overOptions, hp]
  · cases hk : r.keepFolded <;> simp [FoldRequest.overOptions, hk]
  · cases hk : r.removePreload <;> simp [FoldRequest.overOptions, hk]
  · cases hk : r.keepComments <;> simp [FoldRequest.overOptions, hk]
  · cases hk : r.cdata <;> simp [FoldRequest.overOptions, hk]

/-- A configuration file with a profile stands in the current directory. -/
def layeredTree : FileTree :=
  .ofList ["site"] [(["site", "inlay.toml"], .file ("[inline]\ncdata = true\nnamespace_prefix = \"f_\"\n" ++
    "[profiles.p.inline]\nstrip_css_comments = false\n").toUTF8)]

def layeredVariables : List (String × String) :=
  [("INLAY_INLINE__NAMESPACE_PREFIX", "e_"), ("INLAY_PROFILES__P__SETTINGS__PARALLEL_JOBS", "3")]

def layeredRequest : FoldRequest where
  directory := "out"
  profile? := some "p"
  patterns := ["*.js"]
  removePreload := true

theorem layeredRequest_settled : ∃ c file,
    layeredRequest.config layeredTree layeredVariables = .ok c ∧ layeredRequest.file layeredTree = .ok file ∧
    Sectioned (some "p") file ∧ Sectioned (some "p") (Environment.ofVariables layeredVariables).value ∧
    c.options = { patterns := ["*.js"], removePreload := true, stripComments := false, cdata := true, lead := "e_" } ∧
    c.settings = { jobs? := some 3 } ∧ c.check = .ok () ∧
    let said := said? file (Environment.ofVariables layeredVariables).value (some "p")
    Prevails none decodeBool (said ["inline", "strip_css_comments"]) true false ∧
    Prevails none decodeBool (said ["inline", "cdata"]) false true ∧
    Settled decodeString (said ["inline", "namespace_prefix"]) "__ns_" "e_" ∧
    Settled (decodeOption decodeCount) (said ["settings", "parallel_jobs"]) none (some 3) := by
  have hvalue : (layeredRequest.config layeredTree layeredVariables).toOption.map (fun c => (c.options, c.settings))
      = some ({ patterns := ["*.js"], removePreload := true, stripComments := false, cdata := true, lead := "e_" },
        { jobs? := some 3 }) := by
    decide +kernel
  have hfileSections : (layeredRequest.file layeredTree).toOption.all
      (fun file => decide (Sectioned (some "p") file)) := by
    decide +kernel
  have henvironment : Sectioned (some "p") (Environment.ofVariables layeredVariables).value := by
    decide +kernel
  cases hc : layeredRequest.config layeredTree layeredVariables with
  | error e =>
      rw [hc] at hvalue
      cases hvalue
  | ok c =>
      rw [hc] at hvalue
      obtain ⟨hoptions, hsettings⟩ := Prod.mk.inj (Option.some_inj.1 hvalue)
      obtain ⟨file, hfile, hcheck, hsettled⟩ := config_settled hc
      rw [hfile] at hfileSections
      have hsections : Sectioned (some "p") file := of_decide_eq_true hfileSections
      obtain ⟨_, _, _, hstrip, hcdata, hlead, _, hjobs⟩ := hsettled hsections henvironment
      rw [hoptions] at hstrip hcdata hlead
      rw [hsettings] at hjobs
      exact ⟨c, file, rfl, hfile, hsections, henvironment, hoptions, hsettings, hcheck, hstrip, hcdata, hlead,
        hjobs⟩

end Pagefold.Command
