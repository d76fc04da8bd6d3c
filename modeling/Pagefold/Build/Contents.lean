import Pagefold.Dictionary
import Pagefold.Table

/-! # Builds

The output of a bundler in memory: its files by name, in the order of their names.  A script is kept
as text, any other file as bytes. -/

namespace Pagefold

inductive Item where
  /-- A script. -/
  | chunk (code : String)
  /-- Any other file. -/
  | asset (bytes : ByteArray)

namespace Item

/-- Whether two items are of one kind and have the same contents. -/
def same : Item → Item → Bool
  | chunk a, chunk b => a == b
  | asset a, asset b => a.data == b.data
  | _, _ => false

theorem same_iff {a b : Item} : a.same b = true ↔ a = b := by
  cases a with
  | chunk x => cases b <;> simp [same]
  | asset x =>
    cases b with
    | chunk y => simp [same]
    | asset y => cases x; cases y; simp [same]

instance : DecidableEq Item := fun _ _ => decidable_of_iff _ same_iff

def bytes : Item → ByteArray
  | chunk code => code.toUTF8
  | asset bytes => bytes

/-- The contents, if they are text. -/
def text? : Item → Option String
  | chunk code => some code
  | asset bytes => String.fromUTF8? bytes

/-- An item of the same kind with other contents. -/
def withText (text : String) : Item → Item
  | chunk _ => chunk text
  | asset _ => asset text.toUTF8

end Item

/-- The files of a build by their paths. -/
structure Build where
  items : Table Item

namespace Build

def empty : Build := ⟨.empty⟩

instance : Inhabited Build := ⟨empty⟩

def size (b : Build) : Nat := b.items.size

def isEmpty (b : Build) : Bool := b.items.isEmpty

/-- The names of all files, in order. -/
def names (b : Build) : List String := b.items.keys

def get? (b : Build) (name : String) : Option Item := b.items.get? name

def contains (b : Build) (name : String) : Bool := b.items.contains name

def insert (b : Build) (name : String) (item : Item) : Build := ⟨b.items.insert name item⟩

def erase (b : Build) (name : String) : Build := ⟨b.items.erase name⟩

def eraseAll (b : Build) (names : List String) : Build := names.foldl erase b

def ofList (items : List (String × Item)) : Build := ⟨.ofList items⟩

/-- The text of a file, if it is there and is text. -/
def text? (b : Build) (name : String) : Option String := (b.get? name).bind Item.text?

/-- Gives a file other contents.  A file that is not there yet is no script. -/
def setText (b : Build) (name text : String) : Build :=
  b.insert name (((b.get? name).getD (.asset .empty)).withText text)

/-! ### Kinds of files -/

/-- Whether a name ends in one of some endings, in any case. -/
def endsIn (endings : List String) (name : String) : Bool :=
  let small := name.toList.map Char.toLower
  endings.any fun ending => ending.toList.isSuffixOf small

def isScriptName (name : String) : Bool := endsIn [".js", ".mjs"] name

/-- The code of all scripts. -/
def chunks (b : Build) : Dictionary String :=
  .ofList (b.items.entries.filterMap fun (name, item) =>
    match item with
    | .chunk code => some (name, code)
    | .asset _ => none)

/-- The names of the documents. -/
def documents (b : Build) : List String := b.names.filter (endsIn [".html", ".htm"])

/-- The names of the stylesheets. -/
def stylesheets (b : Build) : List String := b.names.filter (endsIn [".css"])

end Build

end Pagefold
