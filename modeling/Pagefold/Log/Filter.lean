import Pagefold.Log.ValuePattern
import Pagefold.Log.Verbosity
import Pagefold.Text.Blank
import Pagefold.Text.Bytes

/-! # Log filters

Which events of a log are told.  A filter is a list of directives, each of which gives a verbosity to
the parts of the program whose addresses begin in some way, or to those of their events that have a
value of some name; for an event the first directive counts that applies to it, and the closer one
comes first (`Filter.verbosity`).  A filter that is the same for all parts of the program has one
verbosity for all their events (`Filter.verbosity_uniform`).  A filter is written as directives with
commas between them (`Filter.parse?`). -/

namespace Pagefold.Log

/-- How much is told of the parts whose address begins with a text, or of those of their events that
have a value of some name. -/
structure Directive where
  address : String
  field? : Option String
  verbosity : Verbosity
deriving DecidableEq, Repr

/-- Directives in the order in which they are tried. -/
structure Filter where
  directives : List Directive
deriving DecidableEq, Repr

/-! ### What a filter lets through -/

/-- The names of the values of an event; the message is one of them. -/
def Event.fieldNames (e : Event) : List String := "message" :: e.fields.map (·.1)

namespace Directive

def appliesTo (d : Directive) (e : Event) : Bool :=
  d.address.isPrefixOf e.speaker.address && d.field?.all e.fieldNames.contains

/-- Whether two directives are for the same events. -/
def sameScope (d e : Directive) : Bool := d.address == e.address && d.field? == e.field?

/-- Whether `d` is tried before `e`: the one with the longer address, of these the one that asks for
a value, and of these the one whose texts are greater. -/
def before (d e : Directive) : Bool :=
  if d.address.utf8ByteSize ≠ e.address.utf8ByteSize then
    e.address.utf8ByteSize < d.address.utf8ByteSize
  else if d.field?.isSome ≠ e.field?.isSome then d.field?.isSome
  else if d.address ≠ e.address then e.address < d.address
  else e.field?.getD "" < d.field?.getD ""

/-- Puts a directive in its place, over an earlier one for the same events. -/
def place (d : Directive) : List Directive → List Directive
  | [] => [d]
  | e :: rest =>
    if d.sameScope e then d :: rest
    else if d.before e then d :: e :: rest
    else e :: place d rest

/-- Placing a directive adds no other one. -/
theorem eq_or_mem_of_mem_place {d e : Directive} {placed : List Directive}
    (h : e ∈ d.place placed) : e = d ∨ e ∈ placed := by
  induction placed with
  | nil =>
    rw [place, List.mem_singleton] at h
    exact .inl h
  | cons first rest ih =>
    unfold place at h
    split at h
    · rcases List.mem_cons.1 h with rfl | h
      · exact .inl rfl
      · exact .inr (List.mem_cons_of_mem _ h)
    · split at h
      · exact List.mem_cons.1 h
      · rcases List.mem_cons.1 h with rfl | h
        · exact .inr List.mem_cons_self
        · exact (ih h).imp_right (List.mem_cons_of_mem _)

theorem mem_of_mem_foldl_place {e : Directive} {directives placed : List Directive}
    (h : e ∈ directives.foldl (fun placed d => d.place placed) placed) :
    e ∈ directives ∨ e ∈ placed := by
  induction directives generalizing placed with
  | nil => exact .inr h
  | cons d rest ih =>
    rcases ih h with h | h
    · exact .inl (List.mem_cons_of_mem _ h)
    · rcases eq_or_mem_of_mem_place h with rfl | h
      · exact .inl List.mem_cons_self
      · exact .inr h

end Directive

namespace Filter

/-- The filter of some directives; of two for the same events the later one counts. -/
def ofDirectives (directives : List Directive) : Filter :=
  ⟨directives.foldl (fun placed d => d.place placed) []⟩

/-- How much is told of events like this one.  Without a directive for it that is nothing. -/
def verbosity (f : Filter) (e : Event) : Verbosity :=
  match f.directives.find? (·.appliesTo e) with
  | some d => d.verbosity
  | none => .silent

def admits (f : Filter) (e : Event) : Bool := (f.verbosity e).admits e.level

/-- Where the addresses of the program's own parts begin. -/
def ownAddresses : List String := ["inlay", "inlay_link", "inlay_config", "inlay_cli"]

/-- The same verbosity for all parts of the program. -/
def uniform (v : Verbosity) : Filter := ofDirectives (ownAddresses.map (⟨·, none, v⟩))

theorem inlay_mem_uniform (v : Verbosity) : ⟨"inlay", none, v⟩ ∈ (uniform v).directives := by
  cases v with
  | silent => decide +kernel
  | upTo level => cases level <;> decide +kernel

/-- The parts of the program all have addresses of its own, so a uniform filter is the same for them. -/
theorem verbosity_uniform (v : Verbosity) (e : Event) : (uniform v).verbosity e = v := by
  have happlies : (⟨"inlay", none, v⟩ : Directive).appliesTo e := by
    -- Only the address counts, and all of them begin with that of the folder.
    rw [Directive.appliesTo, Option.all_none, Bool.and_true]
    show "inlay".isPrefixOf e.speaker.address
    cases e.speaker <;> decide +kernel
  unfold verbosity
  split
  · rename_i d hfind
    rcases Directive.mem_of_mem_foldl_place (List.mem_of_find?_eq_some hfind) with hd | hd
    · obtain ⟨address, _, rfl⟩ := List.mem_map.1 hd
      rfl
    · cases hd
  · rename_i hfind
    exact absurd happlies (List.find?_eq_none.1 hfind _ (inlay_mem_uniform v))

end Filter

/-! ### Written filters

A directive is read from its text without the blanks around it, but what it names is taken from the
text as it stands, at the same positions.  So blanks before a directive shift all that it names, and
blanks behind it belong to what it names last. -/

/-- A verbosity by name or by number. -/
def writtenVerbosity? (s : List Char) : Option Verbosity :=
  let digits := if s.head? == some '+' then s.tail else s
  if !digits.isEmpty && digits.all Char.isDigit then Verbosity.all[Toml.valueOf 10 digits]?
  else
    let name := String.ofList (s.map Char.toLower)
    Verbosity.all.find? (·.name == name)

/-- The characters with which an address may begin. -/
def opensAddress (c : Char) : Bool :=
  c == '-' || c == ':' || c == '_' || Text.isLetterOrNumber c

/-- The verbosity that a directive ends with, from its text and the rest of it that begins at a
position.  Without one everything is told. -/
def directiveEnd? (text : List Char) (position : Nat) : List Char → Option Verbosity
  | [] => some (.upTo .trace)
  | '=' :: _ =>
    match Text.slice (position + 1) (Text.byteSize text) text with
    | [] => some (.upTo .trace)
    | level => writtenVerbosity? level
  | _ => none

/-- The name of a value that a directive asks for, and whether it asks for a pattern as well. -/
def writtenField? (s : List Char) : Option (String × Bool) :=
  match s.splitOn '=' with
  | name :: pattern :: _ =>
    if isValuePattern pattern then some (String.ofList name, true) else none
  | _ => some (String.ofList s, false)

/-- The end of a directive from behind a bracket, which begins at a position of its text.  In the
brackets stand a stretch of work, the name of a value in braces, or both.  The program does not divide
its work into stretches, so a directive for such is one for no part; and so is one for a pattern,
which only the values of a stretch are held against. -/
def bracketed? (text : List Char) (address : String) (position : Nat) (rest : List Char) :
    Option (Option Directive) :=
  let stretch := rest.takeWhile fun c => c != ']' && c != '\x7b'
  let position := position + Text.byteSize stretch + 1
  match rest.drop stretch.length with
  | ']' :: rest => (directiveEnd? text position rest).map fun _ => none
  | '\x7b' :: rest =>
    let field := rest.takeWhile (· != '\x7d')
    let stop := position + Text.byteSize field
    match rest.drop field.length with
    | '\x7d' :: ']' :: rest => do
      if field.isEmpty then none
      else
        let (name, isNarrow) ← writtenField? (Text.slice position stop text)
        let v ← directiveEnd? text (stop + 2) rest
        return if stretch.isEmpty && !isNarrow then some ⟨address, some name, v⟩ else none
    | _ => none
  | _ => none

/-- The meaning of a written directive: nothing if it is malformed.  A verbosity alone is one for all
parts. -/
def directive? (text : List Char) : Option (Option Directive) :=
  match Text.trim text with
  | [] => none
  | '[' :: rest => bracketed? text "" 1 rest
  | c :: rest =>
    let trimmed := c :: rest
    let front := trimmed.takeWhile fun c => c != '=' && c != '['
    let stop := Text.byteSize front
    let address := String.ofList (Text.slice 0 stop text)
    if !opensAddress c then none
    else
      match trimmed.drop front.length with
      | [] =>
        match writtenVerbosity? text with
        | some v => some (some ⟨"", none, v⟩)
        | none => some (some ⟨String.ofList text, none, .upTo .trace⟩)
      | '[' :: rest => bracketed? text address (stop + 1) rest
      | rest => (directiveEnd? text stop rest).map fun v => some ⟨address, none, v⟩

/-- The filter that a text writes, unless one of its directives is malformed.  Empty directives do
not count; a filter without any tells of errors alone. -/
def Filter.parse? (text : String) : Option Filter := do
  let directives ← ((text.toList.splitOn ',').filter (!·.isEmpty)).mapM directive?
  return if directives.isEmpty then ⟨[⟨"", none, .upTo .error⟩]⟩
    else .ofDirectives (directives.filterMap id)

end Pagefold.Log
