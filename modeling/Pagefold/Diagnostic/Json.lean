import Pagefold.Diagnostic
import Pagefold.Json.Decode

/-! # Diagnostics as data

A diagnostic as an object (`Diagnostic.toJson`), and back (`Diagnostic.decode`). -/

namespace Pagefold.Diagnostic

open Json

/-- The fields of a diagnostic, in order, with their values. -/
def fieldValues (d : Diagnostic) : List (String × Json) :=
  [("kind", string d.kind.name), ("severity", string d.severity.name), ("message", string d.message),
    ("chunk", ofString? d.chunk?), ("reference", ofString? d.reference?), ("help", ofString? d.help?)]

def toJson (d : Diagnostic) : Json := object d.fieldValues

/-- A diagnostic of which only some fields are known. -/
structure Draft where
  kind : Option DiagnosticKind := none
  severity : Option Severity := none
  message : Option String := none
  chunk? : Option String := none
  reference? : Option String := none
  help? : Option String := none

namespace Draft

def fields : List (RecordField Draft) :=
  [.of "kind" (decodeName DiagnosticKind.name DiagnosticKind.all)
      fun kind draft => { draft with kind := some kind },
    .of "severity" (decodeName Severity.name Severity.all)
      fun severity draft => { draft with severity := some severity },
    .of "message" decodeString fun message draft => { draft with message := some message },
    .of "chunk" (decodeOption decodeString) fun chunk draft => { draft with chunk? := chunk },
    .of "reference" (decodeOption decodeString)
      fun reference draft => { draft with reference? := reference },
    .of "help" (decodeOption decodeString) fun help draft => { draft with help? := help }]

/-- The diagnostic, if what it cannot do without is known. -/
def finish (draft : Draft) : Except DecodeError Diagnostic :=
  match draft.kind, draft.severity, draft.message with
  | none, _, _ => fail (.missing "kind")
  | _, none, _ => fail (.missing "severity")
  | _, _, none => fail (.missing "message")
  | some kind, some severity, some message =>
    .ok ⟨kind, severity, message, draft.chunk?, draft.reference?, draft.help?⟩

end Draft

/-- Reads a diagnostic.  The texts that it can do without may be left out of an object, but not of
a list. -/
def decode (json : Json) : Except DecodeError Diagnostic := do
  let draft ← decodeRecord true "struct Diagnostic" Draft.fields {} json
  match json with
  | array items =>
    if items.length < Draft.fields.length then
      fail (.wrongLength items.length "struct Diagnostic with 6 elements")
    else draft.finish
  | _ => draft.finish

end Pagefold.Diagnostic
