import Pagefold.Build.Contents
import Pagefold.Files.Walk

/-! # Builds on disk

A build is read from a directory (`Build.read`), written below one (`Build.write`), and files are
deleted below one (`Build.prune`).  The names of files are paths below the directory, with U+FFFD for what
is no text; of several files with one name the last one of the walk is read.  A name that leads out of the
directory is refused (`outputPath`).  What was changed before an error stays changed. -/

namespace Pagefold

inductive DiskError where
  /-- A directory cannot be walked. -/
  | unreadable (path : String) (error : FileError)
  | notRead (path : String)
  | nulInName
  /-- A file's name leads out of the directory. -/
  | escapes (name directory : String)
  | outputNotMade (path : String)
  | directoryNotMade (path : String)
  | notWritten (path : String)
  | notDeleted (path : String)
deriving DecidableEq, Repr

def DiskError.message : DiskError → String
  | unreadable path error =>
    s!"Failed to read build directory: IO error for operation on {path}: {error.message}"
  | notRead path => s!"Failed to read '{path}'"
  | nulInName => "Invalid output path: Filename contains null byte"
  | escapes name directory =>
    s!"Invalid output path: Path '{name}' escapes output directory '{directory}'"
  | outputNotMade path => s!"Failed to create output directory '{path}'"
  | directoryNotMade path => s!"Failed to create directory '{path}'"
  | notWritten path => s!"Failed to write '{path}'"
  | notDeleted path => s!"Failed to delete '{path}'"

/-! ### Directories -/

/-- Makes the directory at the first of some paths, of which each is the parent of the one before,
and the others as needed. -/
def FileTree.makeDirectories (t : FileTree) : List String → FileTree × Except FileError Unit
  | [] => (t, .ok ())
  | path :: parents =>
    match t.makeDirectory path with
    | .ok t => (t, .ok ())
    | .error .notFound =>
      match t.makeDirectories parents with
      | (t, .error error) => (t, .error error)
      | (t, .ok ()) =>
        match t.makeDirectory path with
        | .ok t => (t, .ok ())
        | .error error => (t, if t.isDirectory path then .ok () else .error error)
    | .error error => (t, if t.isDirectory path then .ok () else .error error)

/-- A path and its parents, but for the empty one. -/
def pathAndParents (path : String) : List String :=
  let parts := Path.parts path.toList
  (List.range parts.length).map fun n =>
    String.ofList (Path.ofParts (parts.take (parts.length - n)))

/-- Makes a directory with all its parents. -/
def FileTree.makePath (t : FileTree) (path : String) : FileTree × Except FileError Unit :=
  t.makeDirectories (pathAndParents path)

/-! ### Output paths -/

/-- Whether a path lies below a directory, both reduced. -/
def liesBelow (directory path : List Char) : Bool :=
  (Path.parts directory).isPrefixOf (Path.parts path) && Path.parts directory != Path.parts path

/-- Where the file of a name goes below a reduced directory. -/
def outputPath (directory name : String) : Except DiskError String :=
  if name.toList.contains '\x00' then .error .nulInName
  else
    let path := Path.clean (Path.join directory.toList (Path.clean name.toList))
    if liesBelow directory.toList path then .ok (String.ofList path)
    else .error (.escapes name directory)

def reducedPath (path : String) : String := String.ofList (Path.clean path.toList)

/-! ### Reading -/

namespace Build

/-- What a file of a name is kept as. -/
def itemOf (name : String) (bytes : ByteArray) : Item :=
  if isScriptName name then (String.fromUTF8? bytes).elim (.asset bytes) .chunk else .asset bytes

/-- The name of a file below a directory. -/
def nameOf (steps : Place) : String := "/".intercalate steps

/-- The path by which an entry below a directory is opened. -/
def walkedPath (directory : String) (steps : Place) : String :=
  String.ofList (Path.join directory.toList (nameOf steps).toList)

/-- How many bytes the path of an entry has: those of the path as it is shown, with the bytes of the names in
the place of their text. -/
def walkedSize (directory : String) (steps : RawPlace) : Nat :=
  (walkedPath directory steps.text).utf8ByteSize + steps.size - steps.text.raw.size

/-- The first entry of a walk that has a path too long to open. -/
def firstTooLong? (t : FileTree) (directory : String) (place : Place) : Option (RawPlace × FileEntry) :=
  (t.walk place).find? fun (steps, _) => FileTree.pathLimit ≤ walkedSize directory steps

/-- The files that a walk meets, by their names. -/
def ofWalk (t : FileTree) (place : Place) : Build :=
  .ofList ((t.walk place).filterMap fun (steps, entry) =>
    match entry with
    | .file bytes => some (nameOf steps.text, itemOf (nameOf steps.text) bytes)
    | .directory => none)

/-- The files below a directory.  A path that leads to a file gives this file, with no name. -/
def read (t : FileTree) (directory : String) : Except DiskError Build := do
  let place ← (t.locate directory).mapError (.unreadable directory)
  match t.get? place with
  | none => .error (.unreadable directory .notFound)
  | some (.file bytes) => .ok (.ofList [("", itemOf "" bytes)])
  | some .directory =>
    match firstTooLong? t directory place with
    | some (steps, .directory) =>
      .error (.unreadable (walkedPath directory steps.text) .nameTooLong)
    | some (steps, .file _) => .error (.notRead (walkedPath directory steps.text))
    | none => .ok (ofWalk t place)

/-! ### Writing -/

/-- Writes one file below a reduced directory. -/
def writeItem (t : FileTree) (directory name : String) (bytes : ByteArray) :
    FileTree × Except DiskError Unit :=
  match outputPath directory name with
  | .error error => (t, .error error)
  | .ok path =>
    let parent := (Path.parent? path.toList).elim "" String.ofList
    match t.makePath parent with
    | (t, .error _) => (t, .error (.directoryNotMade parent))
    | (t, .ok ()) =>
      match t.write path bytes with
      | .ok t => (t, .ok ())
      | .error _ => (t, .error (.notWritten path))

def writeItems (t : FileTree) (directory : String) :
    List (String × Item) → FileTree × Except DiskError Unit
  | [] => (t, .ok ())
  | (name, item) :: rest =>
    match writeItem t directory name item.bytes with
    | (t, .ok ()) => writeItems t directory rest
    | (t, .error error) => (t, .error error)

/-- Writes all files below a directory, in the order of their names. -/
def write (b : Build) (t : FileTree) (directory : String) : FileTree × Except DiskError Unit :=
  let directory := reducedPath directory
  match t.makePath directory with
  | (t, .error _) => (t, .error (.outputNotMade directory))
  | (t, .ok ()) => writeItems t directory b.items.entries

/-! ### Deleting -/

/-- Deletes the files of some names below a reduced directory, where there are any. -/
def deleteAll (t : FileTree) (directory : String) :
    List String → FileTree × Except DiskError Unit
  | [] => (t, .ok ())
  | name :: rest =>
    match outputPath directory name with
    | .error error => (t, .error error)
    | .ok path =>
      if t.isFile path then
        match t.delete path with
        | .ok t => deleteAll t directory rest
        | .error _ => (t, .error (.notDeleted path))
      else deleteAll t directory rest

/-- Deletes the files of some names below a directory. -/
def prune (t : FileTree) (directory : String) (names : List String) :
    FileTree × Except DiskError Unit :=
  deleteAll t (reducedPath directory) names

end Build

end Pagefold
