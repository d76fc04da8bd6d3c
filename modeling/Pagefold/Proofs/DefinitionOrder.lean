import Pagefold.Proofs.Evaluation

/-! # Definition before use

A piece reads the objects of the chunks that its own chunk is linked to.  Either the piece of such a
chunk ends before the reading piece begins (`EndsBefore`), or the link closes a cycle that the script
reports; the entry's own piece comes behind all others (`definition_before_use`). -/

namespace Pagefold.Link

open Script

variable {code : Dictionary String} {lead entry id source t a b : String}

/-- In the script of `entry` the piece of `a` ends before the piece of `b` begins. -/
def EndsBefore (code : Dictionary String) (lead entry a b : String) : Prop :=
  ∃ front between back : List String,
    (flatOf code lead entry).emitted = front ++ a :: between ++ b :: back ∧
    (flatOf code lead entry).script =
      String.join (front.map (pieceOf code lead entry)) ++ pieceOf code lead entry a
        ++ String.join (between.map (pieceOf code lead entry)) ++ pieceOf code lead entry b
        ++ String.join (back.map (pieceOf code lead entry))

theorem endsBefore_of_sublist (h : [a, b].Sublist (flatOf code lead entry).emitted) :
    EndsBefore code lead entry a b := by
  obtain ⟨front, between, back, he⟩ := Lists.split_of_pair_sublist h
  refine ⟨front, between, back, he, ?_⟩
  rw [script_eq, he]
  simp [String.append_assoc]

/-- The entry comes last. -/
theorem endsBefore_entry (h : a ∈ orderOf code entry) : EndsBefore code lead entry a entry := by
  apply endsBefore_of_sublist
  rw [emitted_eq]
  exact (List.singleton_sublist.2 h).append (.refl [entry])

theorem circularImports_mem_findings {cycle : List String}
    (h : cycle ∈ (surveyOf code entry).graph.loadOrder.cycles) :
    Finding.circularImports cycle ∈ (flatOf code lead entry).findings :=
  List.mem_append_left _ (List.mem_append_right _ (List.mem_map_of_mem h))

theorem diagnostic_mem {f : Flat} {finding : Finding} (h : finding ∈ f.findings) :
    finding.diagnostic ∈ f.diagnostics :=
  List.mem_map_of_mem h

/-- A link leads to an earlier piece, or the cycle that it closes is on record. -/
theorem link_precedes_or_closes (hid : id = entry ∨ id ∈ orderOf code entry)
    (hs : source ∈ (parsedChunk code id).sources) (hl : LinksTo code entry id source t) :
    [t, id].Sublist (flatOf code lead entry).emitted ∨
      (surveyOf code entry).graph.loadOrder.Closes id t := by
  have ht := mem_targets_iff.2 ⟨source, hs, hl⟩
  rw [emitted_eq]
  rcases hid with rfl | hid
  · exact .inl ((List.singleton_sublist.2 (target_mem_order (.inl rfl) ht)).append (.refl [id]))
  · exact (target_precedes_or_closes hid ht).imp_left (·.trans (List.sublist_append_left _ _))

theorem endsBefore_or_closes (hid : id = entry ∨ id ∈ orderOf code entry)
    (hs : source ∈ (parsedChunk code id).sources) (hl : LinksTo code entry id source t) :
    EndsBefore code lead entry t id ∨ (surveyOf code entry).graph.loadOrder.Closes id t :=
  (link_precedes_or_closes hid hs hl).imp_left endsBefore_of_sublist

/-- Without a reported cycle no link closes one. -/
theorem not_closes_of_quiet
    (h : ∀ d ∈ (flatOf code lead entry).diagnostics, d.kind ≠ .circularDependency) :
    ¬ (surveyOf code entry).graph.loadOrder.Closes a b := by
  rintro ⟨cycle, hc, _⟩
  exact h _ (diagnostic_mem (circularImports_mem_findings hc)) rfl

/-- **Definition before use.**  Whatever a source of a chunk of the script is linked to, its piece
ends before the chunk's own piece begins, or the script reports a recorded cycle that ends in the
link.  When no cycle is reported, each name of an object in a piece is the one that a piece before it
binds.  The entry's piece follows all others. -/
theorem definition_before_use (code : Dictionary String) (lead entry : String) :
    (∀ id ∈ (flatOf code lead entry).consumed, ∀ source ∈ (parsedChunk code id).sources,
      ∀ t, LinksTo code entry id source t →
        EndsBefore code lead entry t id ∨
          ∃ cycle ∈ (surveyOf code entry).graph.loadOrder.cycles, [id, t] <:+ cycle ∧
            (Finding.circularImports cycle).diagnostic ∈ (flatOf code lead entry).diagnostics) ∧
    ((∀ d ∈ (flatOf code lead entry).diagnostics, d.kind ≠ .circularDependency) →
      ∀ id ∈ (flatOf code lead entry).consumed,
        (readPiece code lead entry id).text = pieceOf code lead entry id ∧
        ∀ name ∈ (readPiece code lead entry id).objectsRead,
          ∃ t body result, (flatOf code lead entry).names.get? t = some name ∧
            pieceOf code lead entry t = wrap name body result ++ "\n" ∧
            EndsBefore code lead entry t id) ∧
    ∀ t ∈ (flatOf code lead entry).names.keys, EndsBefore code lead entry t entry := by
  refine ⟨?_, ?_, ?_⟩
  · intro id hid source hs t hl
    rcases endsBefore_or_closes (mem_consumed_iff.1 hid) hs hl with h | ⟨cycle, hc, hsuf⟩
    · exact .inl h
    · exact .inr ⟨cycle, hc, hsuf, diagnostic_mem (circularImports_mem_findings hc)⟩
  · intro hquiet id hid
    refine ⟨text_readPiece, fun name hname => ?_⟩
    obtain ⟨source, target, ht, rfl⟩ := target?_of_mem_objectsRead hname
    have hid := mem_consumed_iff.1 hid
    have hs := mem_sources_of_target? ht
    obtain ⟨hl, he⟩ := (target?_iff hid hs).1 ht
    have hto := target_mem_order hid (mem_targets_iff.2 ⟨source, hs, hl⟩)
    have hn : target.name = nameOf code lead entry target.id := congrArg Target.name he
    have hbefore : EndsBefore code lead entry target.id id :=
      (endsBefore_or_closes hid hs hl).resolve_right (not_closes_of_quiet hquiet)
    rw [hn]
    exact ⟨target.id, _, _, names_get? hto, pieceOf_of_ne (ne_entry_of_mem_order hto), hbefore⟩
  · intro t ht
    exact endsBefore_entry (Naming.mem_keys_ofList.1 ht)

/-- Three chunks, each importing the next one. -/
def chain : Dictionary String :=
  .ofList [("i.js", "import{x}from\"./a.js\";x();"),
    ("a.js", "export{y as x}from\"./b.js\";"), ("b.js", "const y=1;export{y};")]

theorem chain_defined_before_use :
    (EndsBefore chain "__ns_" "i.js" "b.js" "a.js" ∨
      ∃ cycle ∈ (surveyOf chain "i.js").graph.loadOrder.cycles, ["a.js", "b.js"] <:+ cycle ∧
        (Finding.circularImports cycle).diagnostic ∈ (flatOf chain "__ns_" "i.js").diagnostics) ∧
    (∃ t body result, (flatOf chain "__ns_" "i.js").names.get? t = some "__ns_b" ∧
      pieceOf chain "__ns_" "i.js" t = wrap "__ns_b" body result ++ "\n" ∧
      EndsBefore chain "__ns_" "i.js" t "a.js") ∧
    EndsBefore chain "__ns_" "i.js" "b.js" "i.js" := by
  obtain ⟨hlinks, hnames, hlast⟩ := definition_before_use chain "__ns_" "i.js"
  refine ⟨?_, ?_, hlast "b.js" (by decide +kernel)⟩
  · exact hlinks "a.js" (by decide +kernel) "./b.js" (by decide +kernel) "b.js" (by decide +kernel)
  · exact (hnames (by decide +kernel) "a.js" (by decide +kernel)).2 "__ns_b" (by decide +kernel)

end Pagefold.Link
