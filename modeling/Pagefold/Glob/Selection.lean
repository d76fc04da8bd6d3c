import Pagefold.Glob.Match

/-! # Selections of files

Which files a list of patterns selects: those that fit any of them, and all files if the list is
empty. -/

namespace Pagefold.Glob

structure Selection where
  patterns : List (List Token)

namespace Selection

/-- The selection of some patterns, or the first of them that cannot be read. -/
def ofPatterns : List String → Except (String × Fault) Selection
  | [] => .ok ⟨[]⟩
  | pattern :: rest =>
    match parse pattern.toList with
    | .error fault => .error (pattern, fault)
    | .ok tokens => (ofPatterns rest).map fun selection => ⟨tokens :: selection.patterns⟩

def isUnrestricted (s : Selection) : Bool := s.patterns.isEmpty

/-- Whether a file is selected. -/
def admits (s : Selection) (name : String) : Bool :=
  s.isUnrestricted || s.patterns.any (fits · (bytesOf name.toList))

end Selection

end Pagefold.Glob
