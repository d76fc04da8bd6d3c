import Pagefold.Proofs.Symbols

/-! # Names that capture objects

The objects of a script have names that are distinct from each other, but a chunk may bind or declare one of
these names itself.  Where it does, `object.name` means a member of the chunk's own value, which goes back to no
symbol (`Memory.field_of_not_seen`).  So when the symbols survive, nothing hid an object: each reading and each
field of a returned object goes through a name that is seen (`reads_seen`, `fields_seen`), and no object was left
without a field (`prototypeKey_not_mem`).

Together with `survives_of_unhidden` this says exactly which scripts keep their symbols
(`symbols_survive_iff`). -/

namespace Pagefold.Link

open Script

variable {taken : String → List String} {code : Dictionary String} {lead entry id n : String} {m : Memory}

/-! ### What a run that keeps the symbols has read -/

theorem map_chunk_piecesOf : (piecesOf code lead entry).map Piece.chunk = (flatOf code lead entry).emitted := by
  rw [piecesOf, List.map_map]
  exact List.map_id _

theorem hasRun_readPiece (hrun : runAll taken (piecesOf code lead entry) = .ok m)
    (hid : id ∈ (flatOf code lead entry).consumed) : (readPiece code lead entry id).HasRun taken m := by
  refine hasRun_of_foldlM_run ?_ hrun _ (List.mem_map_of_mem (mem_emitted_iff.2 hid))
  rw [map_chunk_piecesOf]
  exact emitted_nodup

section survives

variable (hrun : runAll taken (piecesOf code lead entry) = .ok m) (hs : Survives code lead entry m)

include hrun hs

/-- Each alias is free in its chunk, and the object that it is read from is seen there. -/
theorem reads_seen (h : Clean code lead entry) (hid : id ∈ (flatOf code lead entry).consumed) :
    ∀ r ∈ (readPiece code lead entry id).reads,
      r.2.newName ∉ taken id ∧ Memory.Seen taken (readPiece code lead entry id) r.1 := by
  obtain ⟨before, aliases, hread, hget, _⟩ := hasRun_readPiece hrun hid
  have hstep : ∀ r ∈ (readPiece code lead entry id).reads, ∀ d d',
      before.bind taken (readPiece code lead entry id) d r = .ok d' → ∃ v, (r.2.newName ∉ taken id ∧
        (¬ Memory.Seen taken (readPiece code lead entry id) r.1 → ∀ s, v ≠ .symbol s)) ∧
        d' = d.insert r.2.newName v := by
    intro r _ d d' hbind
    obtain ⟨_, hfree, v, hfield, rfl⟩ := Memory.bind_eq_ok_iff.1 hbind
    exact ⟨v, ⟨hfree, fun hhidden s he => Memory.field_of_not_seen hhidden (he ▸ hfield)⟩, rfl⟩
  intro r hr
  obtain ⟨v, ⟨hfree, hhidden⟩, hv⟩ := exists_of_foldlM_insert hstep (nodup_map_reads h hid) hread r hr
  refine ⟨hfree, by_contra fun hnot => ?_⟩
  obtain ⟨aliases', hget', horigins⟩ := hs.aliases id hid
  obtain rfl : aliases = aliases' := Option.some.inj (hget.symm.trans hget')
  obtain ⟨source, _, hb, _⟩ := mem_reads_iff.1 hr
  obtain ⟨_, _, o, ho, _⟩ := horigins source r.2 hb
  exact hhidden hnot o (Option.some.inj (hv.symm.trans ho))

/-- What a wrapped chunk returns, with what the object holds in the end. -/
theorem object_of_survives (ho : id ∈ orderOf code entry) :
    ∃ (before : Memory) (aliases object : Dictionary Value), (readPiece code lead entry id).fields.foldlM
        (before.extend taken (readPiece code lead entry id) aliases) .empty = .ok object ∧
      Offers code id object := by
  have hid : id ∈ (flatOf code lead entry).consumed := mem_consumed_iff.2 (.inr ho)
  obtain ⟨before, aliases, _, _, hresult⟩ := hasRun_readPiece hrun hid
  have hsome : ∃ fields, (readPiece code lead entry id).result? = some (nameOf code lead entry id, fields) :=
    ⟨_, if_neg (ne_entry_of_mem_order ho)⟩
  obtain ⟨fields, hsome⟩ := hsome
  obtain ⟨object, hobject, hget⟩ := hresult _ _ hsome
  obtain ⟨object', hget', hoffers⟩ := hs.objects id ho
  obtain rfl : object = object' := Option.some.inj (hget.symm.trans hget')
  refine ⟨before, aliases, object, ?_, hoffers⟩
  rw [Piece.fields, hsome]
  exact hobject

/-- Every export is a field of an object. -/
theorem prototypeKey_not_mem (ho : id ∈ orderOf code entry) :
    prototypeKey ∉ (parsedChunk code id).exportedNames := by
  obtain ⟨before, aliases, object, hobject, hoffers⟩ := object_of_survives hrun hs ho
  have hnone : object.get? prototypeKey = none := by
    refine of_foldlM (P := fun d => d.get? prototypeKey = none) (fun f _ d d' hextend hd => ?_) hobject rfl
    obtain ⟨v, _, rfl⟩ := Memory.extend_eq_ok_iff.1 hextend
    split
    · exact hd
    · rename_i hkey
      rw [Dictionary.get?_insert, if_neg (Ne.symm hkey), hd]
  intro hproto
  obtain ⟨o, hget, _⟩ := hoffers prototypeKey hproto
  rw [hnone] at hget
  cases hget

/-- The object that a field is taken from is seen. -/
theorem fields_seen (h : Clean code lead entry) (ho : id ∈ orderOf code entry) {f : Field}
    (hf : f ∈ (readPiece code lead entry id).fields) (hn : f.operand.object? = some n) : Memory.Seen taken (readPiece code lead entry id) n := by
  have hid : id ∈ (flatOf code lead entry).consumed := mem_consumed_iff.2 (.inr ho)
  obtain ⟨before, aliases, object, hobject, hoffers⟩ := object_of_survives hrun hs ho
  have hexported : ∀ f ∈ (readPiece code lead entry id).fields, f.key ∈ (parsedChunk code id).exportedNames := by
    intro f hf
    obtain ⟨_, e, he, hfield⟩ := mem_fields_iff.1 hf
    exact mem_exportedNames_iff.2 ⟨e, he, (key_fieldOf? hfield).symm⟩
  have hnodup : ((readPiece code lead entry id).fields.map Field.key).Nodup := by
    rw [fields_readPiece (ne_entry_of_mem_order ho)]
    exact nodup_map_fields (h.exports id hid)
  have hstep : ∀ f ∈ (readPiece code lead entry id).fields, ∀ d d',
      before.extend taken (readPiece code lead entry id) aliases d f = .ok d' → ∃ v, (∀ n, f.operand.object? = some n →
        ¬ Memory.Seen taken (readPiece code lead entry id) n → ∀ s, v ≠ .symbol s) ∧
        d' = d.insert f.key v := by
    intro f hf d d' hextend
    obtain ⟨v, hv, rfl⟩ := Memory.extend_eq_ok_iff.1 hextend
    have hplain : f.key ≠ prototypeKey := fun he => prototypeKey_not_mem hrun hs ho (he ▸ hexported f hf)
    refine ⟨v, fun n hn hhidden s he => ?_, if_neg hplain⟩
    cases hoperand : f.operand with
    | own name =>
        rw [hoperand] at hn
        cases hn
    | field object name =>
        rw [hoperand] at hn hv
        cases hn
        exact Memory.field_of_not_seen hhidden (he ▸ hv)
  obtain ⟨v, hgood, hv⟩ := exists_of_foldlM_insert hstep hnodup hobject f hf
  obtain ⟨o, hget, _⟩ := hoffers f.key (hexported f hf)
  by_contra hhidden
  exact hgood n hn hhidden o (Option.some.inj (hv.symm.trans hget))

/-- No name of the entry is that of an object. -/
theorem outermost_free {t : String} (ht : t ∈ orderOf code entry) :
    nameOf code lead entry t ∉ (readPiece code lead entry entry).aliases ++ taken entry := by
  -- The entry's piece comes last, so at its turn all objects are bound.
  have hlast := hrun
  rw [runAll, piecesOf, emitted_eq, List.map_append] at hlast
  obtain ⟨m₁, _, hlast⟩ := foldlM_append_eq_ok hlast
  obtain ⟨m₂, hentry, hdone⟩ := foldlM_cons_eq_ok_iff.1 hlast
  cases hdone
  obtain ⟨aliases, _, hfree, rfl⟩ := (Piece.run_entry_iff (if_pos rfl)).1 hentry
  obtain ⟨object, hobject, _⟩ := hs.objects t ht
  exact fun hmem => hfree _ hmem (Dictionary.mem_keys_of_get? hobject)

/-- **When the symbols survive**, nothing hides an object. -/
theorem unhidden_of_survives (h : Clean code lead entry) : Unhidden taken code lead entry where
  apart := by
    intro id hid name hname
    obtain ⟨r, hr, rfl⟩ := List.mem_map.1 ((h.mem_aliases_iff hid).2 hname)
    exact (reads_seen hrun hs h hid r hr).1
  wrapped := by
    intro id ho name hname
    have hid : id ∈ (flatOf code lead entry).consumed := mem_consumed_iff.2 (.inr ho)
    have hseen : Memory.Seen taken (readPiece code lead entry id) name := by
      rcases List.mem_append.1 hname with hread | hfield
      · obtain ⟨r, hr, rfl⟩ := List.mem_map.1 hread
        exact (reads_seen hrun hs h hid r hr).2
      · obtain ⟨f, hf, hn⟩ := List.mem_filterMap.1 hfield
        exact fields_seen hrun hs h ho hf hn
    obtain ⟨halias, hdeclared⟩ := hseen
    rw [h.mem_aliases_iff hid] at halias
    rw [Piece.declared, List.mem_append, not_or, mem_ownNames_iff] at hdeclared
    exact ⟨halias, hdeclared.1, fun hown => hdeclared.2 ⟨ne_entry_of_mem_order ho, hown⟩⟩
  outermost := by
    intro t ht
    have hid : entry ∈ (flatOf code lead entry).consumed := mem_consumed_iff.2 (.inl rfl)
    have hfree := outermost_free hrun hs ht
    rw [List.mem_append, not_or, h.mem_aliases_iff hid] at hfree
    exact hfree
  fields := fun id ho => prototypeKey_not_mem hrun hs ho

end survives

/-! ### Which scripts keep their symbols -/

/-- **Which scripts keep their symbols.**  Let the script of `entry` report nothing, let none of its chunks mean
itself by a source, and let none export two things or import two things by one name.  Then the script is the text
of its pieces.  They can be evaluated in order, so that each alias of an import has the one origin of what it
imports and the object of each wrapped chunk has the origins of its exports, exactly when nothing hides an object
in a chunk that reads it: no object is read before it is bound then, none lacks a field that is read, and no name
is bound twice.  The names `taken` where the code of each chunk stands are any. -/
theorem symbols_survive_iff (taken : String → List String) (code : Dictionary String) (lead entry : String)
    (hquiet : (flatOf code lead entry).diagnostics = [])
    (hself : ∀ id ∈ (flatOf code lead entry).consumed, ∀ source ∈ (parsedChunk code id).sources,
      ¬ Resolves code id source id)
    (hexports : ∀ id ∈ (flatOf code lead entry).consumed, (parsedChunk code id).exportedNames.Nodup)
    (himports : ∀ id ∈ (flatOf code lead entry).consumed,
      (importAliases (parsedChunk code id)).Nodup) :
    (flatOf code lead entry).script = String.join ((piecesOf code lead entry).map Piece.text) ∧
    ((∃ m, runAll taken (piecesOf code lead entry) = .ok m ∧ Survives code lead entry m)
      ↔ Unhidden taken code lead entry) := by
  have h : Clean code lead entry := ⟨hquiet, hself, hexports, himports⟩
  refine ⟨script_eq_text, ?_, survives_of_unhidden h⟩
  rintro ⟨m, hrun, hs⟩
  exact unhidden_of_survives hrun hs h

/-- The entry imports a name that `a.js` takes over, by another name, from `b.js`. -/
def renamed : Dictionary String :=
  .ofList [("i.js", "import{x as z}from\"./a.js\";z();"),
    ("a.js", "import{w}from\"./b.js\";export{w as v};export{y as x}from\"./b.js\";"),
    ("b.js", "const y=1,q=2;export{y,q as w};")]

/-- The names that their code declares. -/
def renamedNames (id : String) : List String := if id = "b.js" then ["y", "q"] else []

theorem renamed_symbols : Unhidden renamedNames renamed "__ns_" "i.js" ∧
    ∃ m, runAll renamedNames (piecesOf renamed "__ns_" "i.js") = .ok m ∧
      ∃ aliases, m.aliases.get? "i.js" = some aliases ∧ aliases.get? "z" = some (.symbol ⟨"b.js", "y"⟩) := by
  have hunhidden : Unhidden renamedNames renamed "__ns_" "i.js" :=
    ⟨by decide +kernel, by decide +kernel, by decide +kernel, by decide +kernel⟩
  obtain ⟨m, hrun, hs⟩ := (symbols_survive_iff renamedNames renamed "__ns_" "i.js" (by decide +kernel)
    (by decide +kernel) (by decide +kernel) (by decide +kernel)).2.2 hunhidden
  obtain ⟨aliases, hget, hall⟩ := hs.aliases "i.js" (by decide +kernel)
  obtain ⟨t, hr, o, ho, horigin⟩ := hall "./a.js" ⟨"x", "z"⟩ (by decide +kernel)
  obtain rfl : t = "a.js" := hr.unique (by decide +kernel)
  have hy : OriginOf renamed "b.js" "y" ⟨"b.js", "y"⟩ :=
    @OriginOf.own _ "b.js" "y" ⟨"y", "y"⟩ (by decide +kernel) rfl (by decide +kernel)
  have hx : OriginOf renamed "a.js" "x" ⟨"b.js", "y"⟩ :=
    @OriginOf.taken _ "a.js" "x" [⟨"y", "x"⟩] "./b.js" ⟨"y", "x"⟩ "b.js" _ (by decide +kernel)
      List.mem_cons_self rfl (by decide +kernel) hy
  rw [(horigin _).1 hx]
  exact ⟨hunhidden, m, hrun, aliases, hget, ho⟩

/-- `m.js` imports something under the name that the object of `b.js` gets in the script. -/
def capturing : Dictionary String :=
  .ofList [("i.js", "import{s}from\"./m.js\";f(s);"),
    ("m.js", "import{x as __ns_b}from\"./a.js\";export{y as s}from\"./b.js\";"),
    ("a.js", "const x={y:1};export{x};"), ("b.js", "const y=2;export{y};")]

/-- The names that their code declares. -/
def capturingNames (id : String) : List String :=
  if id = "a.js" then ["x"] else if id = "b.js" then ["y"] else []

/-- An import that bears the name of an object captures what is read of that object: the script of `capturing`
reports nothing, and all of it can be evaluated, but `s` is the member `y` of what `a.js` declares as `x`, where it
goes back to what `b.js` declares as `y`. -/
theorem import_captures_object :
    (flatOf capturing "__ns_" "i.js").diagnostics = [] ∧
    (∀ id ∈ (flatOf capturing "__ns_" "i.js").consumed, ∀ source ∈ (parsedChunk capturing id).sources,
      ¬ Resolves capturing id source id) ∧
    (∀ id ∈ (flatOf capturing "__ns_" "i.js").consumed, (parsedChunk capturing id).exportedNames.Nodup) ∧
    (∀ id ∈ (flatOf capturing "__ns_" "i.js").consumed, (importAliases (parsedChunk capturing id)).Nodup) ∧
    OriginOf capturing "m.js" "s" ⟨"b.js", "y"⟩ ∧
    (runAll capturingNames (piecesOf capturing "__ns_" "i.js")).map
        (fun m => (m.aliases.get? "i.js").bind (·.get? "s"))
      = .ok (some (.member (.symbol ⟨"a.js", "x"⟩) "y")) := by
  have hy : OriginOf capturing "b.js" "y" ⟨"b.js", "y"⟩ :=
    @OriginOf.own _ "b.js" "y" ⟨"y", "y"⟩ (by decide +kernel) rfl (by decide +kernel)
  have hs : OriginOf capturing "m.js" "s" ⟨"b.js", "y"⟩ :=
    @OriginOf.taken _ "m.js" "s" [⟨"y", "s"⟩] "./b.js" ⟨"y", "s"⟩ "b.js" _ (by decide +kernel)
      List.mem_cons_self rfl (by decide +kernel) hy
  exact ⟨by decide +kernel, by decide +kernel, by decide +kernel, by decide +kernel, hs, by decide +kernel⟩

end Pagefold.Link
