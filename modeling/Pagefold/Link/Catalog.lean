import Pagefold.Dictionary
import Pagefold.Link.Reference

/-! # Finding chunks by reference

A catalog holds the ids of a set of chunks, by id and by file name.  A reference is looked up by the
path it makes from the directory of its importer first; when no chunk has that path, the chunks of
the same file name stand in, and the first of them is taken. -/

namespace Pagefold.Link

/-- Why a reference leads to no chunk. -/
inductive LinkError where
  | unresolved (reference : String)
  | nonLocal (reference : String)
  | noEntry (reference : String)
deriving DecidableEq, Repr

def LinkError.message : LinkError → String
  | unresolved reference => s!"unresolved module reference: {reference}"
  | nonLocal reference => s!"module reference is not a local chunk: {reference}"
  | noEntry reference => s!"entry chunk not found: {reference}"

/-- A chunk found for a reference. -/
structure Located where
  id : String
  /-- Whether only the file name led to the chunk. -/
  byFileName : Bool
  /-- How many chunks came into question. -/
  candidates : Nat
deriving DecidableEq, Repr

def Located.isAmbiguous (l : Located) : Bool := 1 < l.candidates

structure Catalog where
  /-- The distinct ids, in order. -/
  ids : List String
  /-- The ids of each file name, in order. -/
  byFileName : Dictionary (List String)

namespace Catalog

def empty : Catalog := ⟨[], .empty⟩

def fileName (id : String) : String := String.ofList (Path.fileName id.toList)

def contains (catalog : Catalog) (id : String) : Bool := catalog.ids.contains id

/-- The ids that have a file name, in order. -/
def named (catalog : Catalog) (name : String) : List String :=
  (catalog.byFileName.get? name).getD []

/-- Enters an id, unless it is there already. -/
def insert (catalog : Catalog) (id : String) : Catalog :=
  if catalog.contains id then catalog
  else
    { ids := catalog.ids ++ [id]
      byFileName :=
        catalog.byFileName.insert (fileName id) (catalog.named (fileName id) ++ [id]) }

def ofList (ids : List String) : Catalog := ids.foldl insert empty

/-- The chunk that a reference in `importer?` means. -/
def locate (catalog : Catalog) (reference : String) (importer? : Option String) :
    Except LinkError Located :=
  let path := Reference.path reference
  let name := Path.fileName path
  if Reference.isNonLocal path then .error (.nonLocal reference)
  else if name.isEmpty then .error (.unresolved reference)
  else
    let id := Reference.normalized path importer?
    if catalog.contains id then .ok ⟨id, false, 1⟩
    else
      match catalog.named (String.ofList name) with
      | [] => .error (.unresolved reference)
      | first :: others => .ok ⟨first, true, others.length + 1⟩

end Catalog

end Pagefold.Link
