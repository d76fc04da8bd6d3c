import Pagefold.Build.Disk
import Pagefold.Fold.Run

/-! # Runs on disk

A run on the build in a directory: the build is read, folded and written back, and the files that
went are deleted.  With another directory for the output, the build itself stays as it is. -/

namespace Pagefold.Fold

open Log

/-- The note that a build was read from a directory. -/
def readEvent (directory : String) (b : Build) : Event :=
  ⟨.debug, .build, "read build output",
    [("dir", .bare directory), ("files", .bare (toString b.size))]⟩

/-- The note that a build was written below a directory. -/
def writtenEvent (directory : String) (b : Build) : Event :=
  ⟨.debug, .build, "wrote build output",
    [("dir", .bare (reducedPath directory)), ("files", .bare (toString b.size))]⟩

/-- What a run on disk leaves: the disk, the log up to the end or to the error that stopped it, and
the outcome. -/
structure DiskOutcome where
  files : FileTree
  log : List Event
  result : Except DiskError Report

/-- Runs on the build in a directory; the output goes to `output?` or back to the directory. -/
def runDirectory (options : Options) (selection : Glob.Selection) (t : FileTree)
    (directory : String) (output? : Option String) : DiskOutcome :=
  match Build.read t directory with
  | .error error => ⟨t, [], .error error⟩
  | .ok build =>
    let outcome := run options selection build
    let target := output?.getD directory
    let log := readEvent directory build :: outcome.log
    match outcome.build.write t target with
    | (t, .error error) => ⟨t, log, .error error⟩
    | (t, .ok ()) =>
      let log := log ++ [writtenEvent target outcome.build]
      match output? with
      | some _ => ⟨t, log, .ok outcome.report⟩
      | none =>
        match Build.prune t directory outcome.report.deleted with
        | (t, .error error) => ⟨t, log, .error error⟩
        | (t, .ok ()) => ⟨t, log, .ok outcome.report⟩

end Pagefold.Fold
