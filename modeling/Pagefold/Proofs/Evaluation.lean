import Pagefold.Proofs.Rewriting

/-! # Evaluating a flat script

What a flat script does to names, read off its pieces.  A piece is text that binds no alias, readings
`const { a: b } = x;` of objects, and for a wrapped chunk an object that is returned and bound to the
chunk's name (`Piece`).  Each piece of a script is the text of such a piece (`text_readPiece`).

Pieces are evaluated in order (`Piece.run`, `runAll`).  What an alias or a field holds is the name that
it goes back to, together with the chunk that declares it (`Symbol`), or a member of such a value.  The
objects are bound in the scope of the script, and a wrapped piece has a scope of its own in which its
aliases and the names of its code hide them (`Memory.field`); the entry stands in the scope of the script
itself.  An object that is read before it is bound, a field that it does not have and a name that is
bound twice are faults.

`foldlM_insert` is the step by which names are added one after the other.  Read backwards
(`exists_of_foldlM_insert`, `hasRun_of_foldlM_run`), it says of an evaluation that succeeded what each
of its pieces has left. -/

namespace Pagefold.Link

open Script

/-- A name with the chunk that declares it. -/
structure Symbol where
  chunk : String
  name : String
deriving DecidableEq, Repr

/-- What a name holds: what a chunk declares, or a member of another value. -/
inductive Value where
  | symbol (s : Symbol)
  | member (of : Value) (name : String)
deriving DecidableEq, Repr

/-! ### Pieces -/

/-- Text that binds no alias, or a reading of bindings from the object of that name. -/
inductive Part where
  | plain (text : List Char)
  | read (bindings : List Binding) (object : String)

namespace Part

def text : Part → List Char
  | plain text => text
  | read bindings object => (destructure bindings object).toList

/-- The bindings that are read, each with the name of the object. -/
def reads : Part → List (String × Binding)
  | plain _ => []
  | read bindings object => bindings.map (object, ·)

end Part

/-- What a field of a returned object holds: a name of the piece, or a field of another object. -/
inductive Operand where
  | own (name : String)
  | field (object name : String)

namespace Operand

def text : Operand → String
  | own name => name
  | field object name => object ++ "." ++ name

/-- The object that is read for an operand. -/
def object? : Operand → Option String
  | own _ => none
  | field object _ => some object

def own? : Operand → Option String
  | own name => some name
  | field _ _ => none

end Operand

structure Field where
  key : String
  operand : Operand

def Field.text (f : Field) : String := pair f.key f.operand.text

structure Piece where
  chunk : String
  parts : List Part
  /-- The name that a wrapped piece is bound to, and the fields of its object. -/
  result? : Option (String × List Field)

namespace Piece

def body (p : Piece) : String := String.ofList (p.parts.flatMap Part.text)

def text (p : Piece) : String :=
  match p.result? with
  | none => p.body
  | some (name, fields) =>
    wrap name (withoutFinalNewlines p.body) (objectText (fields.map Field.text)) ++ "\n"

/-- The fields of the object that a piece returns. -/
def fields (p : Piece) : List Field := (p.result?.map (·.2)).getD []

/-- The bindings that a piece reads, each with the name of its object. -/
def reads (p : Piece) : List (String × Binding) := p.parts.flatMap Part.reads

/-- The aliases that a piece binds. -/
def aliases (p : Piece) : List String := p.reads.map (·.2.newName)

/-- The names of its own that a piece returns. -/
def ownNames (p : Piece) : List String := p.fields.filterMap (·.operand.own?)

/-- The names of the objects that a piece reads, in its readings and for its own object. -/
def objectsRead (p : Piece) : List String :=
  (p.parts.flatMap Part.reads).map (·.1) ++ p.fields.filterMap (·.operand.object?)

end Piece

/-! ### Reading the pieces of a script -/

variable {code : Dictionary String} {lead entry id : String} {scope : Scope} {c : Chunk}

def partOf (scope : Scope) (c : Chunk) : Segment → Part
  | .statement text (.namedImport (b :: bindings) source) =>
    match scope.target? c source with
    | some t => .read (b :: bindings) t.name
    | none => .plain text
  | segment => .plain (segmentText scope c segment)

def fieldOf? (scope : Scope) (c : Chunk) (e : Export) : Option Field :=
  match e.source? with
  | none => some ⟨e.binding.newName, .own e.binding.name⟩
  | some source =>
    (scope.target? c source).map fun t => ⟨e.binding.newName, .field t.name e.binding.name⟩

/-- The piece of a chunk in the script of `entry`. -/
def readPiece (code : Dictionary String) (lead entry id : String) : Piece where
  chunk := id
  parts := (parsedChunk code id).segments.map
    (partOf (scopeOf code lead entry) (linkedChunk code entry id))
  result? :=
    if id = entry then none
    else some (nameOf code lead entry id, (parsedChunk code id).exports.filterMap
      (fieldOf? (scopeOf code lead entry) (linkedChunk code entry id)))

/-- The pieces of the script of `entry`, in order. -/
def piecesOf (code : Dictionary String) (lead entry : String) : List Piece :=
  (flatOf code lead entry).emitted.map (readPiece code lead entry)

theorem text_partOf (segment : Segment) :
    (partOf scope c segment).text = segmentText scope c segment := by
  cases segment with
  | code text => rfl
  | statement text parsed =>
      cases parsed with
      | bareImport source => rfl
      | reexport bindings source => rfl
      | exportClause bindings => rfl
      | namedImport bindings source =>
          cases bindings with
          | nil => rfl
          | cons b bindings =>
              simp only [partOf, segmentText, statementText]
              cases scope.target? c source with
              | none => rfl
              | some t => rfl

theorem map_text_fieldOf? (e : Export) :
    (fieldOf? scope c e).map Field.text = exportPair? scope c e := by
  unfold fieldOf? exportPair?
  cases e.source? with
  | none => rfl
  | some source =>
      dsimp only
      rw [Option.map_map]
      rfl

theorem key_fieldOf? {e : Export} {f : Field} (h : fieldOf? scope c e = some f) : f.key = e.binding.newName := by
  unfold fieldOf? at h
  split at h
  · cases h
    rfl
  · obtain ⟨_, _, rfl⟩ := Option.map_eq_some_iff.1 h
    rfl

theorem fields_readPiece (hne : id ≠ entry) : (readPiece code lead entry id).fields
    = (parsedChunk code id).exports.filterMap
        (fieldOf? (scopeOf code lead entry) (linkedChunk code entry id)) := by
  rw [Piece.fields, readPiece]
  simp only [if_neg hne]
  rfl

theorem body_readPiece : (readPiece code lead entry id).body
    = Link.body (scopeOf code lead entry) (linkedChunk code entry id) := by
  rw [Piece.body, readPiece, List.flatMap_map, Link.body, linkedChunk_segments]
  simp only [text_partOf]

theorem objectText_fields : exportObject scope c
    = objectText ((c.exports.filterMap (fieldOf? scope c)).map Field.text) := by
  rw [List.map_filterMap]
  simp only [map_text_fieldOf?]
  rfl

/-- What is read of a piece is the whole piece. -/
theorem text_readPiece : (readPiece code lead entry id).text = pieceOf code lead entry id := by
  rw [Piece.text, body_readPiece]
  by_cases h : id = entry
  · subst h
    rw [pieceOf_entry]
    simp only [readPiece, if_pos]
  · rw [pieceOf_of_ne h, wrapped, objectText_fields]
    simp only [readPiece, if_neg h, linkedChunk_exports]

theorem script_eq_text : (flatOf code lead entry).script
    = String.join ((piecesOf code lead entry).map Piece.text) := by
  rw [script_eq, piecesOf, List.map_map]
  congr 1
  apply List.map_congr_left
  intro id _
  exact text_readPiece.symm

/-- What a part reads is the object of a target. -/
theorem target?_of_mem_reads {segment : Segment} {r : String × Binding}
    (h : r ∈ (partOf scope c segment).reads) :
    ∃ source target, scope.target? c source = some target ∧ target.name = r.1 := by
  unfold partOf at h
  split at h
  · rename_i source
    cases ht : scope.target? c source with
    | none =>
        rw [ht] at h
        cases h
    | some target =>
        rw [ht] at h
        obtain ⟨_, _, rfl⟩ := List.mem_map.1 h
        exact ⟨source, target, ht, rfl⟩
  · cases h

theorem target?_of_fieldOf? {e : Export} {f : Field} {name : String}
    (hf : fieldOf? scope c e = some f) (hn : f.operand.object? = some name) :
    ∃ source target, scope.target? c source = some target ∧ target.name = name := by
  unfold fieldOf? at hf
  split at hf
  · cases hf
    cases hn
  · rename_i source _
    obtain ⟨target, ht, rfl⟩ := Option.map_eq_some_iff.1 hf
    cases hn
    exact ⟨source, target, ht, rfl⟩

/-- A piece reads the objects of targets of its chunk's sources only. -/
theorem target?_of_mem_objectsRead {name : String}
    (h : name ∈ (readPiece code lead entry id).objectsRead) :
    ∃ source target, (scopeOf code lead entry).target? (linkedChunk code entry id) source = some target
      ∧ target.name = name := by
  rcases List.mem_append.1 h with h | h
  · obtain ⟨r, hr, rfl⟩ := List.mem_map.1 h
    obtain ⟨part, hpart, hr⟩ := List.mem_flatMap.1 hr
    obtain ⟨segment, _, rfl⟩ := List.mem_map.1 hpart
    exact target?_of_mem_reads hr
  · obtain ⟨f, hf, hn⟩ := List.mem_filterMap.1 h
    unfold Piece.fields readPiece at hf
    dsimp only at hf
    split at hf
    · cases hf
    · obtain ⟨e, _, hf⟩ := List.mem_filterMap.1 hf
      exact target?_of_fieldOf? hf hn

/-! ### Running pieces -/

inductive Fault where
  /-- A name is read before it is bound. -/
  | unbound (name : String)
  /-- An object does not have a field. -/
  | noField (object field : String)
  | boundTwice (name : String)
deriving DecidableEq, Repr

/-- The objects by name, and the aliases of each chunk. -/
structure Memory where
  objects : Dictionary (Dictionary Value)
  aliases : Dictionary (Dictionary Value)

/-- A key that gives an object a prototype and no field. -/
def prototypeKey : String := "__proto__"

section run

-- For each chunk the names that are taken where its code stands: those that the code declares for itself, and
-- such as nothing can be bound to there.
variable (taken : String → List String)

/-- The names that stand for something of the chunk's own in a piece.  What it exports as its own is among
them. -/
def Piece.declared (p : Piece) : List String := taken p.chunk ++ p.ownNames

namespace Memory

def empty : Memory := ⟨.empty, .empty⟩

/-- What a field of an object of the script holds. -/
def objectField (m : Memory) (object name : String) : Except Fault Value :=
  match m.objects.get? object with
  | none => .error (.unbound object)
  | some fields =>
    match fields.get? name with
    | none => .error (.noField object name)
    | some value => .ok value

/-- What `object.name` means in a piece.  An alias of the piece and a name of the chunk's own hide an object of
the script. -/
def field (m : Memory) (p : Piece) (aliases : Dictionary Value) (object name : String) :
    Except Fault Value :=
  if object ∈ p.aliases then
    match aliases.get? object with
    | none => .error (.unbound object)
    | some value => .ok (.member value name)
  else if object ∈ p.declared taken then .ok (.member (.symbol ⟨p.chunk, object⟩) name)
  else m.objectField object name

/-- Binds an alias to a field of an object. -/
def bind (m : Memory) (p : Piece) (aliases : Dictionary Value) (r : String × Binding) :
    Except Fault (Dictionary Value) :=
  if r.2.newName ∈ aliases.keys ∨ r.2.newName ∈ taken p.chunk then .error (.boundTwice r.2.newName)
  else (m.field taken p aliases r.1 r.2.name).map (aliases.insert r.2.newName)

/-- What an operand means in a piece.  A name that is no alias is the chunk's own. -/
def value (m : Memory) (p : Piece) (aliases : Dictionary Value) : Operand → Except Fault Value
  | .own name => .ok ((aliases.get? name).getD (.symbol ⟨p.chunk, name⟩))
  | .field object name => m.field taken p aliases object name

/-- Gives an object one more field. -/
def extend (m : Memory) (p : Piece) (aliases object : Dictionary Value) (f : Field) :
    Except Fault (Dictionary Value) :=
  (m.value taken p aliases f.operand).map fun v =>
    if f.key = prototypeKey then object else object.insert f.key v

variable {taken} {m : Memory} {p : Piece} {aliases object : Dictionary Value} {name key : String}

theorem objectField_eq_ok {fields : Dictionary Value} {v : Value} (ho : m.objects.get? name = some fields)
    (hf : fields.get? key = some v) : m.objectField name key = .ok v := by
  simp only [objectField, ho, hf]

/-- Nothing hides the object of that name in a piece. -/
def Seen (taken : String → List String) (p : Piece) (name : String) : Prop :=
  name ∉ p.aliases ∧ name ∉ p.declared taken

theorem field_of_seen (h : Seen taken p name) : m.field taken p aliases name key = m.objectField name key := by
  rw [field, if_neg h.1, if_neg h.2]

/-- What is read of a hidden object goes back to no symbol. -/
theorem field_of_not_seen (h : ¬ Seen taken p name) {s : Symbol} :
    m.field taken p aliases name key ≠ .ok (.symbol s) := by
  unfold field
  split
  · split <;> simp
  · rename_i halias
    rw [if_pos (by_contra fun hdeclared => h ⟨halias, hdeclared⟩)]
    simp

theorem bind_eq_ok_iff {r : String × Binding} {aliases' : Dictionary Value} :
    m.bind taken p aliases r = .ok aliases' ↔ r.2.newName ∉ aliases.keys ∧ r.2.newName ∉ taken p.chunk ∧
      ∃ v, m.field taken p aliases r.1 r.2.name = .ok v ∧ aliases' = aliases.insert r.2.newName v := by
  unfold bind
  split
  · rename_i hbound
    refine iff_of_false (by simp) fun ⟨hnew, hfree, _⟩ => ?_
    exact hbound.elim hnew hfree
  · rename_i hnew
    rw [not_or] at hnew
    cases m.field taken p aliases r.1 r.2.name with
    | error fault => simp [Except.map]
    | ok v => simp [Except.map, hnew.1, hnew.2, eq_comm]

theorem extend_eq_ok_iff {f : Field} {object' : Dictionary Value} :
    m.extend taken p aliases object f = .ok object' ↔ ∃ v, m.value taken p aliases f.operand = .ok v ∧
      object' = if f.key = prototypeKey then object else object.insert f.key v := by
  unfold extend
  cases m.value taken p aliases f.operand with
  | error fault => simp [Except.map]
  | ok v => simp [Except.map, eq_comm]

end Memory

namespace Piece

/-- Binds the aliases of a piece, one after the other. -/
def readAliases (m : Memory) (p : Piece) : Except Fault (Dictionary Value) :=
  p.reads.foldlM (m.bind taken p) .empty

/-- Evaluates a piece: its readings, and then the object that it returns.  A piece that returns none stands
where the objects are bound, so no alias and no name of its code may be one of theirs. -/
def run (m : Memory) (p : Piece) : Except Fault Memory := do
  let aliases ← p.readAliases taken m
  match p.result? with
  | none =>
    match (p.aliases ++ taken p.chunk).find? m.objects.contains with
    | some name => .error (.boundTwice name)
    | none => return ⟨m.objects, m.aliases.insert p.chunk aliases⟩
  | some (name, fields) =>
    let object ← fields.foldlM (m.extend taken p aliases) .empty
    if m.objects.contains name then .error (.boundTwice name)
    else return ⟨m.objects.insert name object, m.aliases.insert p.chunk aliases⟩

variable {taken} {m m' : Memory} {p : Piece} {name : String} {fields : List Field}

/-- When a piece that returns nothing can be evaluated. -/
theorem run_entry_iff (hr : p.result? = none) : p.run taken m = .ok m' ↔
    ∃ aliases, p.readAliases taken m = .ok aliases ∧
      (∀ name ∈ p.aliases ++ taken p.chunk, name ∉ m.objects.keys) ∧
      m' = ⟨m.objects, m.aliases.insert p.chunk aliases⟩ := by
  unfold run
  cases p.readAliases taken m with
  | error fault => simp [bind, Except.bind]
  | ok aliases =>
      simp only [bind, Except.bind, hr]
      split
      · rename_i name hfound
        refine iff_of_false (by simp) ?_
        rintro ⟨_, _, hfree, _⟩
        exact hfree name (List.mem_of_find?_eq_some hfound)
          (Dictionary.contains_iff.1 (List.find?_some hfound))
      · rename_i hfree
        simp only [List.find?_eq_none, Dictionary.contains_iff] at hfree
        simp only [pure, Except.pure, Except.ok.injEq, exists_eq_left']
        exact ⟨fun he => ⟨hfree, he.symm⟩, fun h => h.2.symm⟩

/-- When a wrapped piece can be evaluated. -/
theorem run_wrapped_iff (hr : p.result? = some (name, fields)) : p.run taken m = .ok m' ↔
    ∃ aliases object, p.readAliases taken m = .ok aliases ∧
      fields.foldlM (m.extend taken p aliases) .empty = .ok object ∧ name ∉ m.objects.keys ∧
      m' = ⟨m.objects.insert name object, m.aliases.insert p.chunk aliases⟩ := by
  unfold run
  cases hread : p.readAliases taken m with
  | error fault => simp [bind, Except.bind]
  | ok aliases =>
      simp only [bind, Except.bind, hr, Except.ok.injEq, exists_and_left, exists_eq_left']
      cases hobject : fields.foldlM (m.extend taken p aliases) .empty with
      | error fault => simp
      | ok object =>
          simp only [Except.ok.injEq, exists_eq_left']
          split
          · rename_i hbound
            exact iff_of_false (by simp) fun h => h.1 (Dictionary.contains_iff.1 hbound)
          · rename_i hnew
            rw [Dictionary.contains_iff] at hnew
            exact ⟨fun h => ⟨hnew, (Except.ok.inj h).symm⟩, fun h => congrArg _ h.2.symm⟩

end Piece

end run

/-! ### Names that are added -/

section fold

variable {α : Type} {step : Dictionary Value → α → Except Fault (Dictionary Value)} {key : α → String}
  {Good : α → Value → Prop} {items : List α} {d d' : Dictionary Value}

/-- Names with distinct keys are added one after the other.  Each gets a value of its own (`Good`), and
what was there before stays. -/
theorem foldlM_insert (hstep : ∀ x ∈ items, ∃ v, Good x v ∧
      ∀ d : Dictionary Value, key x ∉ d.keys → step d x = .ok (d.insert (key x) v))
    (hnodup : (items.map key).Nodup) (hnew : ∀ x ∈ items, key x ∉ d.keys) :
    ∃ d', items.foldlM step d = .ok d' ∧
      (∀ k, k ∈ d'.keys ↔ k ∈ d.keys ∨ k ∈ items.map key) ∧
      (∀ k ∈ d.keys, d'.get? k = d.get? k) ∧
      ∀ x ∈ items, ∃ v, Good x v ∧ d'.get? (key x) = some v := by
  induction items generalizing d with
  | nil => exact ⟨d, rfl, by simp, fun _ _ => rfl, by simp⟩
  | cons a items ih =>
      rw [List.map_cons, List.nodup_cons] at hnodup
      obtain ⟨v, hgood, hv⟩ := hstep a List.mem_cons_self
      have ha := hnew a List.mem_cons_self
      have hnew' : ∀ x ∈ items, key x ∉ (d.insert (key a) v).keys := by
        intro x hx
        rw [Dictionary.mem_keys_insert, not_or]
        refine ⟨fun he => hnodup.1 ?_, hnew x (List.mem_cons_of_mem _ hx)⟩
        rw [← he]
        exact List.mem_map_of_mem hx
      obtain ⟨d', hfold, hkeys, hold, hall⟩ := ih
        (fun x hx => hstep x (List.mem_cons_of_mem _ hx)) hnodup.2 hnew'
      refine ⟨d', ?_, ?_, ?_, ?_⟩
      · rw [List.foldlM_cons, hv d ha]
        exact hfold
      · intro k
        rw [hkeys, Dictionary.mem_keys_insert, List.map_cons, List.mem_cons]
        tauto
      · intro k hk
        rw [hold k (Dictionary.mem_keys_insert.2 (.inr hk)), Dictionary.get?_insert, if_neg]
        rintro rfl
        exact ha hk
      · intro x hx
        rcases List.mem_cons.1 hx with rfl | hx
        · refine ⟨v, hgood, ?_⟩
          rw [hold _ (Dictionary.mem_keys_insert.2 (.inl rfl)), Dictionary.get?_insert, if_pos rfl]
        · exact hall x hx

theorem foldlM_cons_eq_ok_iff {β : Type} {step : β → α → Except Fault β} {a : α} {b b' : β} :
    (a :: items).foldlM step b = .ok b' ↔ ∃ b₁, step b a = .ok b₁ ∧ items.foldlM step b₁ = .ok b' := by
  rw [List.foldlM_cons]
  cases step b a with
  | error fault => simp [Bind.bind, Except.bind]
  | ok b₁ => simp [Bind.bind, Except.bind]

theorem foldlM_append_eq_ok {β : Type} {step : β → α → Except Fault β} {items' : List α} {b b' : β}
    (h : (items ++ items').foldlM step b = .ok b') :
    ∃ b₁, items.foldlM step b = .ok b₁ ∧ items'.foldlM step b₁ = .ok b' := by
  rw [List.foldlM_append] at h
  cases hfirst : items.foldlM step b with
  | error fault =>
      rw [hfirst] at h
      cases h
  | ok b₁ =>
      rw [hfirst] at h
      exact ⟨b₁, rfl, h⟩

/-- What every step keeps is kept. -/
theorem of_foldlM {β : Type} {P : β → Prop} {step : β → α → Except Fault β} {b b' : β}
    (hstep : ∀ x ∈ items, ∀ b b', step b x = .ok b' → P b → P b') (h : items.foldlM step b = .ok b')
    (hb : P b) : P b' := by
  induction items generalizing b with
  | nil =>
      cases h
      exact hb
  | cons a items ih =>
      obtain ⟨b₁, hfirst, hrest⟩ := foldlM_cons_eq_ok_iff.1 h
      exact ih (fun x hx => hstep x (List.mem_cons_of_mem _ hx)) hrest
        (hstep a List.mem_cons_self b b₁ hfirst hb)

/-- Where names with distinct keys were added, each has the value that its step gave it. -/
theorem exists_of_foldlM_insert
    (hstep : ∀ x ∈ items, ∀ d d', step d x = .ok d' → ∃ v, Good x v ∧ d' = d.insert (key x) v)
    (hnodup : (items.map key).Nodup) (h : items.foldlM step d = .ok d') :
    ∀ x ∈ items, ∃ v, Good x v ∧ d'.get? (key x) = some v := by
  induction items generalizing d with
  | nil => simp
  | cons a items ih =>
      have hothers : ∀ x ∈ items, ∀ d d', step d x = .ok d' → ∃ v, Good x v ∧ d' = d.insert (key x) v :=
        fun x hx => hstep x (List.mem_cons_of_mem _ hx)
      rw [List.map_cons, List.nodup_cons] at hnodup
      obtain ⟨d₁, hfirst, hrest⟩ := foldlM_cons_eq_ok_iff.1 h
      intro x hx
      rcases List.mem_cons.1 hx with rfl | hx
      · obtain ⟨v, hgood, rfl⟩ := hstep x List.mem_cons_self d d₁ hfirst
        refine ⟨v, hgood, ?_⟩
        -- The other keys are different ones, so the value stays.
        refine of_foldlM (P := fun d => d.get? (key x) = some v) (fun y hy d₂ d₃ hy' hd => ?_) hrest ?_
        · obtain ⟨w, _, rfl⟩ := hothers y hy d₂ d₃ hy'
          rw [Dictionary.get?_insert, if_neg, hd]
          intro he
          rw [he] at hnodup
          exact hnodup.1 (List.mem_map_of_mem hy)
        · rw [Dictionary.get?_insert, if_pos rfl]
      · exact ih hothers hnodup.2 hrest x hx

end fold

/-! ### Running pieces in order -/

/-- Evaluates pieces in order. -/
def runAll (taken : String → List String) (pieces : List Piece) : Except Fault Memory :=
  pieces.foldlM (Piece.run taken) .empty

/-- A memory holds what a piece has left when it was evaluated. -/
def Piece.HasRun (taken : String → List String) (p : Piece) (m : Memory) : Prop :=
  ∃ before aliases, p.readAliases taken before = .ok aliases ∧ m.aliases.get? p.chunk = some aliases ∧
    ∀ name fields, p.result? = some (name, fields) → ∃ object,
      fields.foldlM (before.extend taken p aliases) .empty = .ok object ∧ m.objects.get? name = some object

section pieces

variable {taken : String → List String} {m m' : Memory} {p : Piece} {pieces : List Piece} {name : String}

theorem Piece.hasRun_of_run (h : p.run taken m = .ok m') : p.HasRun taken m' := by
  cases hr : p.result? with
  | none =>
      obtain ⟨aliases, hread, _, rfl⟩ := (run_entry_iff hr).1 h
      refine ⟨m, aliases, hread, by rw [Dictionary.get?_insert, if_pos rfl], fun name fields hsome => ?_⟩
      rw [hr] at hsome
      cases hsome
  | some result =>
      obtain ⟨name, fields⟩ := result
      obtain ⟨aliases, object, hread, hobject, _, rfl⟩ := (run_wrapped_iff hr).1 h
      refine ⟨m, aliases, hread, by rw [Dictionary.get?_insert, if_pos rfl], fun name' fields' hsome => ?_⟩
      rw [hr] at hsome
      cases hsome
      exact ⟨object, hobject, by rw [Dictionary.get?_insert, if_pos rfl]⟩

/-- A piece changes the aliases of its own chunk only, and no object that is there. -/
theorem Piece.kept_of_run (h : p.run taken m = .ok m') :
    (∀ id, id ≠ p.chunk → m'.aliases.get? id = m.aliases.get? id) ∧
      ∀ name object, m.objects.get? name = some object → m'.objects.get? name = some object := by
  cases hr : p.result? with
  | none =>
      obtain ⟨aliases, _, _, rfl⟩ := (run_entry_iff hr).1 h
      exact ⟨fun id hid => by rw [Dictionary.get?_insert, if_neg hid], fun _ _ hobject => hobject⟩
  | some result =>
      obtain ⟨name, fields⟩ := result
      obtain ⟨aliases, object, _, _, hnew, rfl⟩ := (run_wrapped_iff hr).1 h
      refine ⟨fun id hid => by rw [Dictionary.get?_insert, if_neg hid], fun name' object' hobject => ?_⟩
      rw [Dictionary.get?_insert, if_neg, hobject]
      rintro rfl
      exact hnew (Dictionary.mem_keys_of_get? hobject)

/-- What one piece has left is there when others have run. -/
theorem Piece.HasRun.of_foldlM_run (hp : p.HasRun taken m) (hchunk : p.chunk ∉ pieces.map Piece.chunk)
    (h : pieces.foldlM (Piece.run taken) m = .ok m') : p.HasRun taken m' := by
  refine of_foldlM (P := p.HasRun taken) (fun q hq m₁ m₂ hrun hm₁ => ?_) h hp
  obtain ⟨haliases, hobjects⟩ := kept_of_run hrun
  obtain ⟨before, aliases, hread, hget, hresult⟩ := hm₁
  refine ⟨before, aliases, hread, ?_, fun name fields hsome => ?_⟩
  · rw [haliases p.chunk fun he => hchunk (he ▸ List.mem_map_of_mem hq), hget]
  · obtain ⟨object, hobject, hkept⟩ := hresult name fields hsome
    exact ⟨object, hobject, hobjects name object hkept⟩

/-- **Each piece of different chunks** has left its aliases and its object when all of them have run. -/
theorem hasRun_of_foldlM_run (hnodup : (pieces.map Piece.chunk).Nodup)
    (h : pieces.foldlM (Piece.run taken) m = .ok m') : ∀ p ∈ pieces, p.HasRun taken m' := by
  induction pieces generalizing m with
  | nil => simp
  | cons q pieces ih =>
      rw [List.map_cons, List.nodup_cons] at hnodup
      obtain ⟨m₁, hfirst, hrest⟩ := foldlM_cons_eq_ok_iff.1 h
      intro p hp
      rcases List.mem_cons.1 hp with rfl | hp
      · exact (Piece.hasRun_of_run hfirst).of_foldlM_run hnodup.1 hrest
      · exact ih hnodup.2 hrest p hp

end pieces

end Pagefold.Link
