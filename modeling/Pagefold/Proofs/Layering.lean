import Pagefold.Config.Discovery
import Pagefold.Proofs.Records
import Pagefold.Proofs.TomlKeys

/-! # Layers of a configuration

Of two values that are laid over each other, the one on top counts where it says anything (`at?_merge`),
as long as nothing but objects stands on the way to the place (`Opens`).

What the file of a configuration says is an object with distinct keys, or nothing at all
(`isSaid_fileLayers`).  It lies between the defaults and the environment (`loadFile_eq_ok`), and a value
of the three together is what the uppermost one says of it that says anything (`settled_stacked`). -/

namespace Pagefold.Json

/-- Nothing but objects stands on the way along a path and at its end. -/
def Opens (json : Json) (path : List String) : Prop :=
  ∀ front, front <+: path → ∀ value, json.at? front = some value → ∃ fields, value = .object fields

variable {α : Type} {a b json value : Json} {key : String} {path : List String} {fields : List (String × Json)}

theorem Opens.object (h : json.Opens path) : ∃ fields, json = .object fields :=
  h [] List.nil_prefix json rfl

theorem at?_singleton : json.at? [key] = json.field? key := Option.bind_fun_some _

theorem at?_append (json : Json) (front path : List String) :
    json.at? (front ++ path) = (json.at? front).bind (·.at? path) := by
  induction front generalizing json with
  | nil => rfl
  | cons key front ih =>
      rw [List.cons_append, at?, at?, Option.bind_assoc]
      exact congrArg _ (funext ih)

theorem at?_cons_object : (Json.object fields).at? (key :: path) = (fields.lookup key).bind (·.at? path) := rfl

theorem Opens.below (h : (Json.object fields).Opens (key :: path)) (hv : fields.lookup key = some value) :
    value.Opens path := by
  intro front hf inner hi
  refine h (key :: front) (List.cons_prefix_cons.2 ⟨rfl, hf⟩) inner ?_
  rwa [at?_cons_object, hv]

theorem opens_nil (fields : List (String × Json)) : (Json.object fields).Opens [] := by
  intro front hf value hv
  rw [List.prefix_nil.1 hf] at hv
  exact ⟨fields, (Option.some_inj.1 hv).symm⟩

theorem opens_cons (h : ∀ value, fields.lookup key = some value → value.Opens path) :
    (Json.object fields).Opens (key :: path) := by
  intro front hf value hv
  cases front with
  | nil => exact ⟨fields, (Option.some_inj.1 hv).symm⟩
  | cons first front =>
      obtain ⟨rfl, hrest⟩ := List.cons_prefix_cons.1 hf
      obtain ⟨inner, hinner, hv⟩ := Option.bind_eq_some_iff.1 hv
      exact h inner hinner front hrest value hv

theorem opens_empty : ∀ path : List String, (Json.object []).Opens path
  | [] => opens_nil []
  | _ :: _ => opens_cons nofun

/-- **A value that is laid over another one** counts where it says anything below a path of objects. -/
theorem at?_merge (ha : a.Opens path) (hb : b.Opens path) (key : String) :
    (merge a b).at? (path ++ [key])
      = match b.at? (path ++ [key]) with
        | some update => some (merge ((a.at? (path ++ [key])).getD .null) update)
        | none => a.at? (path ++ [key]) := by
  induction path generalizing a b with
  | nil =>
      obtain ⟨fields, rfl⟩ := ha.object
      obtain ⟨updates, rfl⟩ := hb.object
      simp only [List.nil_append, merge_objects, at?_cons_object, lookup_mergeFields]
      cases updates.lookup key <;> cases fields.lookup key <;> rfl
  | cons first path ih =>
      obtain ⟨fields, rfl⟩ := ha.object
      obtain ⟨updates, rfl⟩ := hb.object
      simp only [List.cons_append, merge_objects, at?_cons_object, lookup_mergeFields]
      cases hu : updates.lookup first with
      | none => rfl
      | some update =>
          cases hf : fields.lookup first with
          | none =>
              simp only [Option.getD_none, merge_null, Option.bind_some, Option.bind_none]
              cases update.at? (path ++ [key]) <;> rfl
          | some old => exact ih (ha.below hf) (hb.below hu)

/-- What opens in two values opens in one laid over the other. -/
theorem Opens.merge (ha : a.Opens path) (hb : b.Opens path) : (merge a b).Opens path := by
  intro front hf value hv
  rcases List.eq_nil_or_concat front with rfl | ⟨init, last, rfl⟩
  · obtain ⟨fields, rfl⟩ := ha.object
    obtain ⟨updates, rfl⟩ := hb.object
    exact ⟨_, Option.some_inj.1 (merge_objects ▸ hv.symm)⟩
  · rw [List.concat_eq_append] at hf hv
    have hinit : init <+: path := (List.prefix_append init [last]).trans hf
    rw [at?_merge (fun p hp => ha p (hp.trans hinit)) (fun p hp => hb p (hp.trans hinit))] at hv
    cases hl : b.at? (init ++ [last]) with
    | none => rw [hl] at hv; exact ha _ hf value hv
    | some update =>
        rw [hl] at hv
        obtain ⟨updates, rfl⟩ := hb _ hf update hl
        obtain ⟨merged, hmerged⟩ := exists_merge_object ((a.at? (init ++ [last])).getD .null) updates
        exact ⟨merged, hmerged ▸ (Option.some_inj.1 hv).symm⟩

variable {item : Decoder α} {otherwise value' : α} {x y y' : Option Json}

/-- A value that is no object is settled by the layer on top, or else by what is below. -/
theorem Settled.of_merge (hleaf : ∀ given value, item (.object given) ≠ .ok value) (ha : a.Opens path)
    (hb : b.Opens path) (h : Settled item ((merge a b).at? (path ++ [key])) otherwise value') :
    Settled item ((b.at? (path ++ [key])).or (a.at? (path ++ [key]))) otherwise value' := by
  rw [at?_merge ha hb] at h
  cases hl : b.at? (path ++ [key]) with
  | none => rwa [hl] at h
  | some update =>
      rw [hl] at h
      exact eq_of_merge hleaf h

theorem Settled.or (h : Settled item (x.or y) otherwise value')
    (hy : Settled item y otherwise value' → Settled item y' otherwise value') :
    Settled item (x.or y') otherwise value' := by
  cases x with
  | none => exact hy h
  | some json => exact h

end Pagefold.Json

namespace Pagefold.Config

open Json

/-! ### What a file says -/

/-- What the layers of a file say; there is one of them at most. -/
def saidBy (layers : List Layer) : Json := (layers.head?.map (·.reading.value)).getD (.object [])

/-- The defaults under what a file and the variables say. -/
def stacked (file environment : Json) : Json :=
  (((object []).merge ({} : Config).toJson).merge file).merge environment

variable {t : FileTree} {env : List (String × String)} {path : String} {source : Source} {json? : Option Json}
  {layer : Layer} {layers : List Layer}

/-- The layers of a file: none, or one with an object that has distinct keys. -/
def IsSaid (layers : List Layer) : Prop :=
  layers = [] ∨ ∃ source fields, (object fields).Tidy ∧ layers = [.of source (.object fields)]

theorem isSaid_of_object (h : objectLayer source json? = .ok layer) (ht : ∀ json, json? = some json → json.Tidy) :
    IsSaid [layer] := by
  unfold objectLayer at h
  split at h
  · cases h
    exact .inr ⟨_, _, ht _ rfl, rfl⟩
  · cases h

theorem at?_packageKey {package field : Json} (h : packageField? package = some field) :
    package.at? [packageKey] = some field := by
  unfold packageField? at h
  split at h
  · cases h
  · rw [at?, h]
    rfl

theorem isSaid_of_package (h : packageLayer t path = .ok layer) : IsSaid [layer] := by
  obtain ⟨text, _, h⟩ := bind_eq_ok h
  split at h
  · cases h
  · rename_i package hparse
    split at h
    · cases h
    · rename_i field hfield
      refine isSaid_of_object h fun json hjson => ?_
      cases hjson
      exact ((tidy_of_parse? hparse).at? (at?_packageKey hfield)).reread

theorem isSaid_of_format {parse? : String → Option Json} (hp : ∀ text json, parse? text = some json → json.Tidy)
    (h : formatLayer t path source parse? = .ok layers) : IsSaid layers := by
  unfold formatLayer at h
  split at h
  · cases h
    exact .inl rfl
  · split at h
    · rename_i text _
      obtain ⟨layer, hlayer, rfl⟩ := map_eq_ok h
      exact isSaid_of_object hlayer (hp text)
    · cases h

theorem isSaid_fileLayers (h : fileLayers t path = .ok layers) : IsSaid layers := by
  obtain ⟨_, _, h⟩ := bind_eq_ok h
  split at h
  · obtain ⟨layer, hlayer, h⟩ := bind_eq_ok h
    cases h
    exact isSaid_of_package hlayer
  · split at h
    · exact isSaid_of_format (fun _ _ => Json.tidy_of_parse?) h
    · exact isSaid_of_format (fun _ _ => Toml.tidy_of_parse?) h

/-! ### The defaults at the bottom -/

theorem defaults_eq_object : ({} : Config).toJson = object
    [("inline", ({} : Options).toJson), ("profiles", object []), ("settings", ({} : Settings).toJson)] :=
  rfl

theorem tidy_defaults : ({} : Config).toJson.Tidy := by
  rw [defaults_eq_object]
  refine .object (by simp) ?_
  simp [Options.tidy_toJson, Settings.tidy_toJson, tidy_empty]

theorem opens_profiles (path : List String) : ({} : Config).toJson.Opens ("profiles" :: path) := by
  rw [defaults_eq_object]
  refine opens_cons fun value hv => ?_
  cases hv
  exact opens_empty path

variable {α : Type} {item : Decoder α} {file environment : Json} {name : String} {otherwise value : α}

/-- What stands below a section when a file and the environment are laid over the defaults. -/
theorem settled_stacked (way : List String) (hleaf : ∀ given value, item (.object given) ≠ .ok value)
    (hd : ({} : Config).toJson.Opens way) (hf : file.Opens way) (he : environment.Opens way)
    (h : Settled item ((stacked file environment).at? (way ++ [name])) otherwise value) :
    Settled item ((environment.at? (way ++ [name])).or
      ((file.at? (way ++ [name])).or (({} : Config).toJson.at? (way ++ [name])))) otherwise value := by
  have hbottom : (object []).Opens way := opens_empty way
  have hnone : (object []).at? (way ++ [name]) = none := by
    cases way <;> rfl
  refine (Settled.of_merge hleaf ((hbottom.merge hd).merge hf) he h).or fun h => ?_
  refine (Settled.of_merge hleaf (hbottom.merge hd) hf h).or fun h => ?_
  have hd' := Settled.of_merge hleaf hbottom hd h
  rwa [hnone, Option.or_none] at hd'

/-! ### Loading -/

theorem merge_empty (fields : List (String × Json)) : (object fields).merge (object []) = object fields := by
  rw [merge_objects, mergeFields]

theorem IsSaid.tidy (h : IsSaid layers) : (saidBy layers).Tidy := by
  rcases h with rfl | ⟨source, fields, htidy, rfl⟩
  · exact tidy_empty
  · exact htidy

theorem IsSaid.isObject (h : IsSaid layers) : ∃ fields, saidBy layers = object fields := by
  rcases h with rfl | ⟨source, fields, htidy, rfl⟩
  · exact ⟨[], rfl⟩
  · exact ⟨fields, rfl⟩

/-- A file that says nothing is as good as none. -/
theorem IsSaid.layered (h : IsSaid layers) : layered (.defaults :: layers ++ [.ofVariables env])
    = stacked (saidBy layers) (Environment.ofVariables env).value := by
  rcases h with rfl | ⟨source, fields, _, rfl⟩
  · rw [stacked, saidBy, List.head?_nil, Option.map_none, Option.getD_none, defaults_eq_object, merge_objects,
      merge_empty, ← merge_objects, ← defaults_eq_object]
    rfl
  · rfl

theorem ofLayers_eq_ok {c : Config} (h : IsSaid layers)
    (hc : ofLayers (.defaults :: layers ++ [.ofVariables env]) = .ok c) :
    decode false (stacked (saidBy layers) (Environment.ofVariables env).value) = .ok c := by
  rw [ofLayers, h.layered] at hc
  exact of_mapError hc

theorem loadFile_eq_ok {c : Config} (h : loadFile t env path = .ok c) :
    ∃ layers, fileLayers t path = .ok layers ∧ IsSaid layers ∧
      decode false (stacked (saidBy layers) (Environment.ofVariables env).value) = .ok c := by
  obtain ⟨layers, hlayers, h⟩ := bind_eq_ok h
  exact ⟨layers, hlayers, isSaid_fileLayers hlayers, ofLayers_eq_ok (isSaid_fileLayers hlayers) h⟩

end Pagefold.Config
