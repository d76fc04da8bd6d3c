import Pagefold.Files.Tree
import Pagefold.Text.Lossy

/-! # Walks through directories

A walk meets everything below a directory, strays too: a directory before what is in it, and the entries of a
directory by the bytes of their names (`FileTree.walk`).  Where names are wanted as text, U+FFFD stands for what is
none (`RawPlace.text`). -/

namespace Pagefold

namespace RawPlace

/-- The steps as text. -/
def text (steps : RawPlace) : Place := steps.map fun step => String.ofList (Text.lossy step)

/-- How many bytes the names take. -/
def size (steps : RawPlace) : Nat := steps.flatten.length

/-- Whether an entry comes before another one in a walk. -/
def isBefore : (steps steps' : RawPlace) → Bool
  | [], steps' => !steps'.isEmpty
  | _ :: _, [] => false
  | name :: steps, name' :: steps' => name < name' || (name == name' && isBefore steps steps')

end RawPlace

namespace FileTree

/-- Puts an entry where it belongs among entries in order. -/
def insertInOrder (e : RawPlace × FileEntry) : List (RawPlace × FileEntry) → List (RawPlace × FileEntry)
  | [] => [e]
  | first :: rest =>
    if first.1.isBefore e.1 then first :: insertInOrder e rest else e :: first :: rest

/-- Everything below a directory, in the order of a walk. -/
def walk (t : FileTree) (directory : Place) : List (RawPlace × FileEntry) :=
  let reached := (t.entriesBelow directory).map fun (steps, entry) => (Place.raw steps, entry)
  (reached ++ t.straysBelow directory).foldr insertInOrder []

theorem mem_insertInOrder {e e' : RawPlace × FileEntry} {l : List (RawPlace × FileEntry)} :
    e ∈ insertInOrder e' l ↔ e = e' ∨ e ∈ l := by
  induction l with
  | nil => simp [insertInOrder]
  | cons first rest ih =>
    unfold insertInOrder
    split
    · rw [List.mem_cons, ih, List.mem_cons]
      exact or_left_comm
    · rw [List.mem_cons]

theorem mem_foldr_insertInOrder {e : RawPlace × FileEntry} {l : List (RawPlace × FileEntry)} :
    e ∈ l.foldr insertInOrder [] ↔ e ∈ l := by
  induction l with
  | nil => rfl
  | cons e' l ih => rw [List.foldr_cons, mem_insertInOrder, ih, List.mem_cons]

/-- A walk meets what stands below a directory, and strays. -/
theorem mem_walk_iff {t : FileTree} {directory : Place} {e : RawPlace × FileEntry} :
    e ∈ t.walk directory ↔ (∃ steps, (steps, e.2) ∈ t.entriesBelow directory ∧ Place.raw steps = e.1) ∨
      e ∈ t.straysBelow directory := by
  rw [walk, mem_foldr_insertInOrder, List.mem_append, List.mem_map]
  refine or_congr_left ⟨?_, ?_⟩
  · rintro ⟨⟨steps, entry⟩, hmem, rfl⟩
    exact ⟨steps, hmem, rfl⟩
  · rintro ⟨steps, hmem, hsteps⟩
    exact ⟨(steps, e.2), hmem, Prod.ext hsteps rfl⟩

end FileTree

end Pagefold
