import Pagefold.Files.Tree

/-! # Differences between trees

What a tree of files holds that another one does not (`newSince`, `goneSince`), and the places that a
path passes (`placesAlong`): what is needed to lay a tree over a disk. -/

namespace Pagefold

/-- The path of a place from the top. -/
def Place.path (place : Place) : String := "/" ++ "/".intercalate place

namespace FileTree

/-- What stands at places where something else, or nothing, stood before; what came first comes
first. -/
def newSince (t before : FileTree) : List (Place × FileEntry) :=
  (t.entries.filter fun (place, entry) => before.get? place != some entry).reverse

/-- The places of which nothing is left. -/
def goneSince (t before : FileTree) : List Place :=
  (before.entries.map (·.1)).filter fun place => (t.get? place).isNone

theorem newSince_self {t : FileTree} (h : ∀ e ∈ t.entries, t.get? e.1 = some e.2) :
    t.newSince t = [] := by
  have : (t.entries.filter fun (place, entry) => t.get? place != some entry) = [] :=
    List.filter_eq_nil_iff.2 fun e he => by simp [h e he]
  simp [newSince, this]

/-- The places that steps pass by name alone, from the first one to the last. -/
def placesFrom (place : Place) : (steps : List String) → List Place
  | [] => [place]
  | step :: steps =>
    place :: placesFrom (if step == ".." then place.dropLast else place ++ [step]) steps

/-- The places that a path passes, from where it begins to where it ends. -/
def placesAlong (t : FileTree) (path : String) : List Place :=
  let s := path.toList
  placesFrom (if Path.isRooted s then [] else t.current) ((Path.steps s).map String.ofList)

end FileTree

end Pagefold
