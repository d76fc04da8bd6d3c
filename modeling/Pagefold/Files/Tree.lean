import Pagefold.Lookup
import Pagefold.Path

/-! # Trees of files

The files and directories of a disk, each at its place: the steps that lead there from the top.  A
path is followed step by step from the current directory (`FileTree.locate`); the operations fail as
an operating system does.  No operation but `put` and `erase` changes a tree.

Names on a disk are bytes that need not be text, and paths are text.  So no path leads to an entry that
has a name on its way that is no text (`FileTree.strays`), and no operation concerns it. -/

namespace Pagefold

inductive FileError where
  | notFound
  | alreadyExists
  | notDirectory
  | isDirectory
  | nameTooLong
  | nulInPath
  | notText
deriving DecidableEq, Repr

def FileError.message : FileError → String
  | notFound => "No such file or directory (os error 2)"
  | alreadyExists => "File exists (os error 17)"
  | notDirectory => "Not a directory (os error 20)"
  | isDirectory => "Is a directory (os error 21)"
  | nameTooLong => "File name too long (os error 36)"
  | nulInPath => "file name contained an unexpected NUL byte"
  | notText => "stream did not contain valid UTF-8"

/-- What stands at a place. -/
inductive FileEntry where
  | file (bytes : ByteArray)
  | directory

/-- Whether two entries are directories, or files with the same bytes. -/
def FileEntry.same : FileEntry → FileEntry → Bool
  | file a, file b => a.data == b.data
  | directory, directory => true
  | _, _ => false

theorem FileEntry.same_iff {a b : FileEntry} : a.same b = true ↔ a = b := by
  cases a with
  | file x =>
    cases b with
    | file y => cases x; cases y; simp [same]
    | directory => simp [same]
  | directory => cases b <;> simp [same]

instance : DecidableEq FileEntry := fun _ _ => decidable_of_iff _ FileEntry.same_iff

/-- The steps to a place from the top. -/
abbrev Place := List String

/-- Steps to an entry, each as the bytes of its name. -/
abbrev RawPlace := List (List UInt8)

def Place.raw (place : Place) : RawPlace := place.map fun step => step.toUTF8.data.toList

structure FileTree where
  /-- What stands at each place below the top, each place once. -/
  entries : List (Place × FileEntry)
  /-- The directory from which paths are followed. -/
  current : Place
  /-- What no path leads to, since a name on the way is no text. -/
  strays : List (RawPlace × FileEntry) := []

namespace FileTree

open Lookup

/-! ### Places -/

/-- What stands at a place.  At the top there is a directory. -/
def get? (t : FileTree) (place : Place) : Option FileEntry :=
  if place.isEmpty then some .directory else t.entries.lookup place

/-- Puts something at a place, over what stood there. -/
def put (t : FileTree) (place : Place) (entry : FileEntry) : FileTree :=
  { t with entries := (place, entry) :: t.entries.filter (·.1 != place) }

/-- Leaves a place empty. -/
def erase (t : FileTree) (place : Place) : FileTree :=
  { t with entries := t.entries.filter (·.1 != place) }

/-- Puts directories at a place and above it, where nothing stands. -/
def putDirectories (t : FileTree) (place : Place) : FileTree :=
  (List.range (place.length + 1)).foldl (fun t n =>
    if (t.get? (place.take n)).isSome then t else t.put (place.take n) .directory) t

/-- The tree of some entries, with the directories above them and a current directory. -/
def ofList (current : Place) (entries : List (Place × FileEntry)) : FileTree :=
  entries.foldl (fun t (place, entry) =>
      let t := t.putDirectories place.dropLast
      match entry with
      | .directory => t.putDirectories place
      | .file _ => t.put place entry)
    (putDirectories { entries := [], current } current)

/-- The steps from a directory to a place below it. -/
def relative? {α : Type} [BEq α] : (directory place : List α) → Option (List α)
  | [], place => some place
  | step :: directory, first :: place => if step == first then relative? directory place else none
  | _ :: _, [] => none

/-- The entries that stand below a directory, with the steps from there. -/
def below {α : Type} [BEq α] (directory : List α) (entries : List (List α × FileEntry)) :
    List (List α × FileEntry) :=
  entries.filterMap fun (place, entry) =>
    match relative? directory place with
    | some (step :: steps) => some (step :: steps, entry)
    | _ => none

/-- What stands below a directory, with the steps from there. -/
def entriesBelow (t : FileTree) (directory : Place) : List (Place × FileEntry) := below directory t.entries

/-- What stands below a directory where no path leads, with the steps from there. -/
def straysBelow (t : FileTree) (directory : Place) : List (RawPlace × FileEntry) :=
  below directory.raw t.strays

/-- The files below a directory, with the steps from there. -/
def filesBelow (t : FileTree) (directory : Place) : List (Place × ByteArray) :=
  t.entries.filterMap fun (place, entry) =>
    match entry, relative? directory place with
    | .file bytes, some (step :: steps) => some (step :: steps, bytes)
    | _, _ => none

/-- The directories below a directory in which nothing stands, with the steps from there. -/
def emptyDirectoriesBelow (t : FileTree) (directory : Place) : List Place :=
  t.entries.filterMap fun (place, entry) =>
    match entry, relative? directory place with
    | .directory, some (step :: steps) =>
      if t.entries.any fun (other, _) => other != place && place.isPrefixOf other then none
      else some (step :: steps)
    | _, _ => none

/-! ### Paths -/

/-- How many bytes the name of an entry may have. -/
def nameLimit : Nat := 255

/-- How many bytes a path may not have. -/
def pathLimit : Nat := 4096

/-- Follows steps from a place.  Only directories lead on; what stands at the end does not matter. -/
def follow (t : FileTree) (place : Place) : List String → Except FileError Place
  | [] => .ok place
  | step :: steps =>
    match t.get? place with
    | none => .error .notFound
    | some (.file _) => .error .notDirectory
    | some .directory =>
      if step == "" || step == "." then t.follow place steps
      else if step == ".." then t.follow place.dropLast steps
      else if nameLimit < step.utf8ByteSize then .error .nameTooLong
      else t.follow (place ++ [step]) steps

/-- The place that a path leads to, whether anything stands there or not. -/
def locate (t : FileTree) (path : String) : Except FileError Place :=
  let s := path.toList
  if s.contains '\x00' then .error .nulInPath
  else if s.isEmpty then .error .notFound
  else if pathLimit ≤ path.utf8ByteSize then .error .nameTooLong
  else
    t.follow (if Path.isRooted s then [] else t.current) ((s.splitOn '/').map String.ofList)

/-- What a path leads to. -/
def find (t : FileTree) (path : String) : Except FileError FileEntry := do
  let place ← t.locate path
  match t.get? place with
  | some entry => .ok entry
  | none => .error .notFound

def isFile (t : FileTree) (path : String) : Bool :=
  match t.find path with
  | .ok (.file _) => true
  | _ => false

def isDirectory (t : FileTree) (path : String) : Bool :=
  match t.find path with
  | .ok .directory => true
  | _ => false

/-- The contents of a file. -/
def read (t : FileTree) (path : String) : Except FileError ByteArray := do
  match ← t.find path with
  | .file bytes => .ok bytes
  | .directory => .error .isDirectory

/-- The contents of a file that holds text. -/
def readText (t : FileTree) (path : String) : Except FileError String := do
  match String.fromUTF8? (← t.read path) with
  | some text => .ok text
  | none => .error .notText

/-! ### Changes -/

/-- Makes a directory in one that is there. -/
def makeDirectory (t : FileTree) (path : String) : Except FileError FileTree := do
  let place ← t.locate path
  match t.get? place with
  | some _ => .error .alreadyExists
  | none => .ok (t.put place .directory)

/-- Writes a file.  Where a path ends in a slash a directory is meant. -/
def write (t : FileTree) (path : String) (bytes : ByteArray) : Except FileError FileTree := do
  if path.toList.getLast? == some '/' then
    let _ ← t.locate (String.ofList (path.toList.reverse.dropWhile (· == '/')).reverse)
    .error .isDirectory
  else
    let place ← t.locate path
    match t.get? place with
    | some .directory => .error .isDirectory
    | _ => .ok (t.put place (.file bytes))

/-- Deletes a file. -/
def delete (t : FileTree) (path : String) : Except FileError FileTree := do
  let place ← t.locate path
  match t.get? place with
  | some (.file _) => .ok (t.erase place)
  | some .directory => .error .isDirectory
  | none => .error .notFound

/-! ### Look-ups after changes -/

/-- Putting something at a place changes that place only. -/
theorem get?_put (t : FileTree) {place : Place} (p : Place) (entry : FileEntry)
    (h : place ≠ []) :
    (t.put place entry).get? p = if p = place then some entry else t.get? p := by
  unfold get? put
  by_cases hp : p = place
  · subst hp
    simp [h]
  · have hb : (p == place) = false := by simpa using hp
    simp [List.lookup_cons, hb, lookup_filter_ne, hp]

theorem get?_erase (t : FileTree) {place : Place} (p : Place) (h : place ≠ []) :
    (t.erase place).get? p = if p = place then none else t.get? p := by
  unfold get? erase
  by_cases hp : p = place
  · subst hp
    simp [h, lookup_filter_ne]
  · simp [lookup_filter_ne, hp]

end FileTree

end Pagefold
