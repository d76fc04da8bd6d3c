import Pagefold.Command.Run
import Pagefold.Command.Usage
import Pagefold.Files.Change

/-! # The program

Reads what a request concerns from the disk into a tree, carries the request out on the tree, and lays
what has changed over the disk. -/

open Pagefold

namespace Pagefold.Program

/-- Adds to a tree what stands at a place of the disk, and all that stands below if it is wanted.  What has a
name that is no text cannot be asked for here; it is passed over. -/
partial def load (below : Bool) (t : FileTree) (place : Place) : IO FileTree := do
  let path := (← IO.currentDir) / place.path
  match ← path.symlinkMetadata.toBaseIO with
  | .error _ => return t
  | .ok data =>
    match data.type with
    | .dir =>
      let t := t.putDirectories place
      if below then
        (← path.readDir).foldlM (fun t found => load below t (place ++ [found.fileName])) t
      else return t
    | .file => return (t.putDirectories place.dropLast).put place (.file (← IO.FS.readBinFile path))
    | _ => return t

/-- Adds to a tree what stands along a path, and below its end if that is wanted. -/
def loadAlong (below : Bool) (t : FileTree) (path : String) : IO FileTree := do
  let places := t.placesAlong path
  let t ← places.foldlM (load false) t
  places.getLast?.elim (return t) (load below t)

/-- The part of the disk that a request concerns. -/
def loadFor (request : Command.Request) : IO FileTree := do
  let current := Path.steps (toString (← IO.currentDir)).toList
  let t := FileTree.ofList (current.map String.ofList) []
  let t ← request.directories.foldlM (loadAlong true) t
  request.files.foldlM (loadAlong false) t

/-- Lays the changes of a tree over the disk. -/
def save (before after : FileTree) : IO Unit := do
  for (place, entry) in after.newSince before do
    match entry with
    | .directory => IO.FS.createDirAll place.path
    | .file bytes => IO.FS.writeBinFile place.path bytes
  for place in after.goneSince before do
    IO.FS.removeFile place.path

/-- The variables of the environment. -/
def env : IO (List (String × String)) := do
  match ← (IO.FS.readBinFile "/proc/self/environ").toBaseIO with
  | .ok block => return ((String.fromUTF8? block).map Environment.variablesOf).getD []
  | .error _ => return []

/-- Carries a request out and answers with the exit code. -/
def carryOut (invocation : Command.Invocation) : IO UInt32 := do
  let before ← loadFor invocation.request
  let outcome := Command.run before (← env) invocation
  save before outcome.files
  IO.print outcome.output
  IO.eprint outcome.notes
  match outcome.result with
  | .ok () => return 0
  | .error failure =>
    IO.eprintln s!"Error: {failure.report}"
    failure.help?.forM fun help => IO.eprintln s!"  help: {help}"
    return 1

end Pagefold.Program

def main (args : List String) : IO UInt32 := do
  match Command.Invocation.read args with
  | .ok invocation => Program.carryOut invocation
  | .error answer =>
    if answer.isAnswer then
      IO.println answer.message
      return 0
    else
      IO.eprintln s!"error: {answer.message}"
      return 2
