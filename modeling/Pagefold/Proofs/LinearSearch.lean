import Pagefold.Proofs.Catalogs
import Pagefold.Proofs.References

/-! # A catalog and a search through the list

A catalog answers from two tables, which the ids were entered in one after the other.  The same answers can
be given from the list of the ids alone, by going through it for each reference (`search`): first for the
path that the reference spells out from the folders of its importer, then for what ends in its last
segment.  A catalog finds what the search finds, whether ids come again in the list or not
(`locate_ofList`). -/

namespace Pagefold

namespace Path

variable {name s : List Char}

theorem fileName_eq_getLastD (s : List Char) : fileName s = (s.splitOn '/').getLastD [] := by
  rcases splitOn_cases s with ⟨_, hsplit⟩ | ⟨dir, _, hsplit⟩
  · rw [hsplit]
    rfl
  · rw [hsplit]
    simp

/-- A last name is the whole path, or the end of it behind a slash. -/
theorem fileName_eq_iff (h : '/' ∉ name) : fileName s = name ↔ s = name ∨ '/' :: name <:+ s := by
  constructor
  · rintro rfl
    exact (eq_fileName_or_cut s).imp_right fun ⟨dir, hs⟩ => ⟨dir, hs.symm⟩
  · have hname : fileName name = name := by
      rcases eq_fileName_or_cut name with hn | ⟨dir, hn⟩
      · exact hn.symm
      · exact absurd (hn ▸ List.mem_append_right dir List.mem_cons_self) h
    rintro (rfl | ⟨front, rfl⟩)
    · exact hname
    · rw [fileName_append_cons, hname]

end Path

namespace Link

open Reference

variable {ids : List String} {path : List Char}

/-! ### Going through a list -/

/-- The path from the root of the build that a reference spells out: a rooted one the path behind its slash,
any other its path in the folders of the importer. -/
def spelledOut (path : List Char) (importer? : Option String) : List Char :=
  if path.head? = some '/' then path.tail else ['/'].intercalate (foldersOf importer? ++ [path])

/-- The id that a path reduces to.  A backslash counts as a slash in it. -/
def idOf (path : List Char) : String :=
  String.ofList ((Path.clean path).map fun c => if c = '\\' then '/' else c)

/-- The last segment of a path: what follows its last slash. -/
def lastSegment (path : List Char) : List Char := (path.splitOn '/').getLastD []

/-- The ids that are a segment or end in a slash and the segment, in the order of the list, each once. -/
def endingIn (ids : List String) (segment : List Char) : List String :=
  ids.eraseDups.filter fun id => id.toList = segment ∨ '/' :: segment <:+ id.toList

/-- What a reference in `importer?` means among some ids, found by going through them. -/
def search (ids : List String) (reference : String) (importer? : Option String) :
    Except LinkError Located :=
  let path := Text.trim (reference.toList.takeWhile fun c => c != '?' && c != '#')
  if isNonLocal path then .error (.nonLocal reference)
  else if lastSegment path = [] then .error (.unresolved reference)
  else
    let id := idOf (spelledOut path importer?)
    if id ∈ ids then .ok ⟨id, false, 1⟩
    else
      match endingIn ids (lastSegment path) with
      | [] => .error (.unresolved reference)
      | first :: others => .ok ⟨first, true, (first :: others).length⟩

/-! ### The tables of a catalog -/

theorem idOf_spelledOut (path : List Char) (importer? : Option String) :
    idOf (spelledOut path importer?) = normalized path importer? := by
  rw [normalized, target_eq, idOf, spelledOut]
  simp

theorem lastSegment_eq (path : List Char) : lastSegment path = Path.fileName path :=
  (Path.fileName_eq_getLastD path).symm

theorem endingIn_lastSegment (ids : List String) (path : List Char) : endingIn ids (lastSegment path)
    = (Catalog.ofList ids).named (String.ofList (Path.fileName path)) := by
  rw [Catalog.named_ofList_eq, endingIn, lastSegment_eq]
  apply List.filter_congr
  intro id _
  rw [Catalog.fileName, Bool.eq_iff_iff, decide_eq_true_eq, beq_iff_eq, String.ofList_inj,
    Path.fileName_eq_iff (Path.slash_not_mem_fileName path)]

/-- **A catalog finds what going through the list finds.** -/
theorem locate_ofList (ids : List String) (reference : String) (importer? : Option String) :
    (Catalog.ofList ids).locate reference importer? = search ids reference importer? := by
  unfold Catalog.locate search
  dsimp only
  rw [endingIn_lastSegment, lastSegment_eq, idOf_spelledOut]
  simp only [List.isEmpty_iff, Catalog.contains_ofList, List.length_cons]
  rfl

/-- An id that comes again counts once. -/
example : search ["a/x.js", "b/x.js", "a/x.js"] "./x.js?v=1" none = .ok ⟨"a/x.js", true, 2⟩ := by
  decide +kernel

end Link

end Pagefold
