import Pagefold.Decimal.Places
import Pagefold.Fold.Run
import Pagefold.Terminal.Style

/-! # Status lines

How a run is told to the reader of a terminal: one line for each thing that was done, that was left
as it was, or that is to be noticed.  `summary` tells of a run that folds a build, and
`diagnosticLines` of the warnings of a linked script. -/

namespace Pagefold.Command

open Terminal

inductive Status where
  | done
  | note
  | warning
deriving DecidableEq, Repr

namespace Status

def sign : Status → String
  | done => "✓"
  | note => "ℹ"
  | warning => "⚠"

def colour : Status → Colour
  | done => .green
  | note => .blue
  | warning => .yellow

/-- A line with the sign of the status in front.  Warnings are coloured to the end. -/
def line (status : Status) (text : String) : String :=
  let text := if status == warning then coloured status.colour text else text
  bold (coloured status.colour status.sign) ++ " " ++ text ++ "\n"

end Status

/-! ### Warnings -/

/-- The lines of a warning: what it says and where, and the help. -/
def warningLines (d : Diagnostic) : String :=
  Status.line .warning
      ("[" ++ d.kind.name ++ "] " ++ d.message ++ (d.chunk?.elim "" fun chunk => " (" ++ chunk ++ ")"))
    ++ d.help?.elim "" fun help => "  " ++ dim "help:" ++ " " ++ help ++ "\n"

/-- The lines of all warnings. -/
def diagnosticLines (ds : List Diagnostic) : String :=
  String.join ((ds.filter Diagnostic.isWarning).map warningLines)

/-! ### Folded builds -/

def documentLine (d : Fold.DocumentReport) : String :=
  if d.scripts.isEmpty && d.styles.isEmpty then
    Status.line .note (d.name ++ " " ++ dim "(nothing to inline)")
  else
    Status.line .done <| bold d.name ++ " "
      ++ dim s!"{d.scripts.length} script(s), {d.styles.length} stylesheet(s)"

/-- The lines of a report on documents that have so many bytes together. -/
def summary (r : Fold.Report) (bytes : Nat) : String :=
  String.join (r.documents.map documentLine)
    ++ (if r.warningCount == 0 then ""
      else Status.line .warning s!"{r.warningCount} warning(s)")
    ++ Status.line .note
      (s!"Inlined {r.scriptCount} script(s) and {r.styleCount} stylesheet(s) into "
        ++ s!"{r.documents.length} document(s), deleted {r.deleted.length} file(s), "
        ++ s!"{Decimal.sizeText bytes} of HTML")

end Pagefold.Command
