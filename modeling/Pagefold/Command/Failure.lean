import Pagefold.Build.Disk
import Pagefold.Config.Error
import Pagefold.Finding
import Pagefold.Log.Verbosity

/-! # Failures

Why a command could not be carried out, as causes.  A failure has a message, a report for the reader
of a terminal, and for some causes a word of help. -/

namespace Pagefold.Command

inductive Failure where
  | config (error : ConfigError)
  /-- The verbosity that is configured is none. -/
  | verbosity (error : Log.UnknownVerbosity)
  | noDirectory (path : String)
  /-- What is at a path is no directory. -/
  | notDirectory (path : String)
  /-- A build cannot be read or written. -/
  | build (error : DiskError)
  | link (error : Link.LinkError)
  /-- A script cannot be written. -/
  | notWritten (path : String) (error : FileError)
  | file (error : FileError)

namespace Failure

def fileMessage (error : FileError) : String := s!"I/O error: {error.message}"

def message : Failure → String
  | config error => s!"Configuration error: {error.message}"
  | verbosity error => s!"Invalid argument: {error.message}"
  | noDirectory path => s!"Directory not found: {path}"
  | notDirectory path => s!"Invalid argument: {path} is not a directory"
  | build error => s!"Inline error: {error.message}"
  | link error => s!"Link error: {error.message}"
  | notWritten path error => s!"Failed to write {path}: {fileMessage error}"
  | file error => fileMessage error

def report : Failure → String
  | link error => error.message
  | failure => failure.message

def help? : Failure → Option String
  | config error => error.hint?
  | noDirectory _ => some "Point inlay at the output directory of your bundler, e.g. dist"
  | link _ => some "ENTRY is matched against file names relative to DIR"
  | _ => none

/-- Whether the help is about the format of a text, and not about a value. -/
def isMalformed : Failure → Bool
  | config error => error.isMalformed
  | _ => false

end Failure

end Pagefold.Command
