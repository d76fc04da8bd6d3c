import Pagefold.Config.Check

/-! # Arguments

The arguments of a command are options, long (`--name`) or short (`-n`), and operands.  The value of
an option stands behind it, or is attached to it, with `=` or to a short option directly; short
options without a value may share a dash.  Behind `--` everything is an operand.  A value is judged
when the next argument is taken in, so of two faults in neighbouring arguments an unknown option is
the one that is told. -/

namespace Pagefold.Command

/-- Why a command line says nothing that can be done. -/
inductive UsageError where
  | unknownArgument
  | unknownCommand
  /-- Two options exclude each other, or one that counts once is given twice. -/
  | conflict
  /-- An option has no value, or an empty one where a path is meant. -/
  | noValue
  | badValue
  /-- An option that takes no value has one. -/
  | surplusValue
  | missingOperand
  | missingCommand
  | nothingGiven
  | helpAsked
  | versionAsked
deriving DecidableEq, Repr

/-- Whether a usage error is an answer to a question and no fault. -/
def UsageError.isAnswer : UsageError → Bool
  | helpAsked | versionAsked => true
  | _ => false

/-! ### Openings of names -/

/-- Why a text cannot open names. -/
inductive LeadFault where
  | empty
  | badStart (text : String)
  | badCharacter (c : Char) (text : String)
deriving DecidableEq, Repr

def LeadFault.message : LeadFault → String
  | empty => "Namespace prefix cannot be empty"
  | badStart text =>
    s!"Namespace prefix must start with a letter, underscore, or dollar sign: '{text}'"
  | badCharacter c text => s!"Namespace prefix cannot contain '{c}': '{text}'"

/-- A text that can open names. -/
def readLead (text : String) : Except LeadFault String :=
  match text.toList with
  | [] => .error .empty
  | c :: rest =>
    if !opensName [c] then .error (.badStart text)
    else
      match rest.find? (!isNameChar ·) with
      | some c => .error (.badCharacter c text)
      | none => .ok text

/-! ### What can be given -/

/-- What a value must be. -/
inductive ValueKind where
  | text
  | path
  /-- An opening of names. -/
  | lead
deriving DecidableEq, Repr

/-- Nothing, unless a value is not what it must be. -/
def ValueKind.check (value : String) : ValueKind → Except UsageError Unit
  | text => .ok ()
  | path => if value.isEmpty then .error .noValue else .ok ()
  | lead => (readLead value).map (fun _ => ()) |>.mapError fun _ => .badValue

inductive OptionKind where
  | flag
  | value (kind : ValueKind)
  /-- An option that ends the reading. -/
  | stop (answer : UsageError)
deriving DecidableEq, Repr

structure OptionSpec where
  name : String
  short? : Option Char := none
  kind : OptionKind := .flag
  /-- Whether the option may be given more than once. -/
  repeats : Bool := false
deriving DecidableEq, Repr

/-- The arguments of a command. -/
structure Level where
  options : List OptionSpec
  /-- Pairs of options of which one alone may be given. -/
  exclusive : List (String × String) := []
  /-- The operands, in order; each has to be given. -/
  operands : List (String × ValueKind) := []

/-! ### Taking arguments in -/

/-- How far arguments have been read. -/
structure Progress where
  /-- The names and values that count, in order; a flag has an empty value. -/
  given : List (String × String) := []
  /-- An option or operand that is not judged yet, with its value. -/
  pending? : Option (OptionSpec × Option String) := none
  /-- Whether all that follows is an operand. -/
  onlyOperands : Bool := false
  /-- How many operands were given. -/
  operandCount : Nat := 0

namespace Progress

def has (p : Progress) (name : String) : Bool := p.given.any (·.1 == name)

/-- Takes in an option with its value. -/
def accept (p : Progress) (spec : OptionSpec) (value : String) : Except UsageError Progress := do
  if !spec.repeats && p.has spec.name then .error .conflict
  match spec.kind with
  | .value kind => kind.check value
  | _ => .ok ()
  return { p with given := p.given ++ [(spec.name, value)] }

/-- Judges what is pending. -/
def settle (p : Progress) : Except UsageError Progress :=
  match p.pending? with
  | none => .ok p
  | some (_, none) => .error .noValue
  | some (spec, some value) => { p with pending? := none }.accept spec value

/-- Takes in an option without a value. -/
def flag (p : Progress) (spec : OptionSpec) : Except UsageError Progress := do
  let p ← p.settle
  match spec.kind with
  | .stop answer => .error answer
  | _ => p.accept spec ""

/-- Takes in an option that has a value, attached or to come. -/
def valued (p : Progress) (spec : OptionSpec) : (value? : Option String) → Except UsageError Progress
  | some value => do (← p.settle).accept spec value
  | none => do return { ← p.settle with pending? := some (spec, none) }

end Progress

/-- The name and the value of a long option. -/
def longParts (s : List Char) : String × Option String :=
  match Text.until? (· == '=') s with
  | some (name, value) => (String.ofList name, some (String.ofList value))
  | none => (String.ofList s, none)

namespace Level

def takesValue (spec : OptionSpec) : Bool := spec.kind matches .value _

/-- Takes in a long option. -/
def long (level : Level) (p : Progress) (s : List Char) : Except UsageError Progress :=
  let (name, value?) := longParts s
  match level.options.find? (·.name == name) with
  | none => .error .unknownArgument
  | some spec =>
    if takesValue spec then p.valued spec value?
    else if value?.isSome then .error .surplusValue
    else p.flag spec

/-- Takes in short options that share a dash. -/
def shorts (level : Level) (p : Progress) : List Char → Except UsageError Progress
  | [] => .ok p
  | c :: rest =>
    match level.options.find? (·.short? == some c) with
    | none => .error .unknownArgument
    | some spec =>
      if takesValue spec then
        p.valued spec (match rest with
          | [] => none
          | '=' :: value => some (String.ofList value)
          | value => some (String.ofList value))
      else (p.flag spec).bind fun p => level.shorts p rest

/-- Takes in an operand; `surplus` is the error if no more are expected. -/
def operand (level : Level) (p : Progress) (surplus : UsageError) (arg : String) :
    Except UsageError Progress :=
  match level.operands[p.operandCount]? with
  | none => .error surplus
  | some (name, kind) => do
    let p ← p.settle
    return { p with
      pending? := some ({ name, kind := .value kind }, some arg)
      operandCount := p.operandCount + 1 }

/-- Takes in the next argument. -/
def take (level : Level) (p : Progress) (surplus : UsageError) (arg : String) :
    Except UsageError Progress :=
  if p.onlyOperands then level.operand p surplus arg
  else
    match arg.toList with
    | ['-', '-'] => .ok { p with onlyOperands := true }
    | '-' :: '-' :: rest => level.long p rest
    | '-' :: c :: rest => level.shorts p (c :: rest)
    | _ =>
      match p.pending? with
      | some (spec, none) => .ok { p with pending? := some (spec, some arg) }
      | _ => level.operand p surplus arg

/-- Takes in arguments up to the end. -/
def takeAll (level : Level) (p : Progress) : List String → Except UsageError Progress
  | [] => p.settle
  | arg :: rest => (level.take p .unknownArgument arg).bind fun p => level.takeAll p rest

/-- Nothing, unless options that exclude each other are given or an operand is missing. -/
def checkAll (level : Level) (p : Progress) : Except UsageError Unit :=
  if level.exclusive.any fun (a, b) => p.has a && p.has b then .error .conflict
  else if p.operandCount < level.operands.length then .error .missingOperand
  else .ok ()

end Level

end Pagefold.Command
