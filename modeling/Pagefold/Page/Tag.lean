import Pagefold.Text.Blank
import Pagefold.Text.Caseless
import Pagefold.Text.Cut
import Pagefold.Text.Occurrence
import Pagefold.Text.Word

/-! # Script elements and link tags

A page is searched for two things only: `script` elements, from the opening tag to the closing one,
and `link` tags.  Links are searched for in the whole page; those that lie inside a script element
are dropped.  Both are recognised by their shape in the text. -/

namespace Pagefold.Page

open Text

inductive TagKind where
  | script
  | link
deriving DecidableEq, Repr

/-- An attribute with its name in lower case; a bare one has no value. -/
structure Attribute where
  name : String
  value? : Option String
deriving DecidableEq, Repr

structure Tag where
  kind : TagKind
  /-- The position of the first byte of the element. -/
  start : Nat
  /-- The position behind the element. -/
  stop : Nat
  attributes : List Attribute
  /-- The text of a script element. -/
  body : String
deriving DecidableEq, Repr

/-! ### Attributes -/

/-- The characters of an attribute's name. -/
def isNameChar (c : Char) : Bool :=
  !(isBlank c || c == '"' || c == '\'' || c == '<' || c == '>' || c == '/' || c == '=')

/-- The characters of a value without quotes. -/
def isPlainValueChar (c : Char) : Bool :=
  !(isBlank c || c == '"' || c == '\'' || c == '=' || c == '<' || c == '>' || c == '\x60')

/-- A value, in quotes of either kind or without. -/
def attributeValue? (s : List Char) : Option (List Char × List Char) :=
  match s with
  | '"' :: rest => until? (· == '"') rest
  | '\'' :: rest => until? (· == '\'') rest
  | _ =>
    match s.takeWhile isPlainValueChar with
    | [] => none
    | value => some (value, s.dropWhile isPlainValueChar)

/-- An equals sign with a value behind it. -/
def assigned? (s : List Char) : Option (List Char × List Char) :=
  match skipBlanks s with
  | '=' :: rest => attributeValue? (skipBlanks rest)
  | _ => none

/-- An attribute, with its value if one is assigned. -/
def readAttribute? (s : List Char) : Option (Attribute × List Char) :=
  match s.takeWhile isNameChar with
  | [] => none
  | name =>
    let name := String.ofList (name.map Char.toLower)
    let rest := s.dropWhile isNameChar
    match assigned? rest with
    | some (value, rest) => some (⟨name, some (String.ofList value)⟩, rest)
    | none => some (⟨name, none⟩, rest)

/-- The attributes in the text of an opening tag. -/
def attributesOf (s : List Char) : List Attribute := (occurrences readAttribute? s).map (·.value)

/-! ### Elements -/

/-- The text of an opening tag behind its name `word`, up to the first `>`. -/
def openingTag? (word s : List Char) : Option (List Char × List Char) :=
  match s with
  | '<' :: rest => do
    let rest ← dropCaseless? word rest
    if rest.head?.any isWordChar then none else until? (· == '>') rest
  | _ => none

/-- What follows the closing tag that a text opens with. -/
def closingTag? (word s : List Char) : Option (List Char) :=
  match s with
  | '<' :: '/' :: rest => do
    match skipBlanks (← dropCaseless? word rest) with
    | '>' :: rest => some rest
    | _ => none
  | _ => none

/-- The text before the first closing tag, after the characters `front` already passed, and what
follows the tag. -/
def untilClosing? (word front : List Char) : List Char → Option (List Char × List Char)
  | [] => none
  | c :: rest =>
    match closingTag? word (c :: rest) with
    | some after => some (front.reverse, after)
    | none => untilClosing? word (c :: front) rest

/-- A script element: the text of its opening tag and its body. -/
def readScript? (s : List Char) : Option ((List Char × List Char) × List Char) := do
  let (attributes, rest) ← openingTag? ['s', 'c', 'r', 'i', 'p', 't'] s
  let (body, rest) ← untilClosing? ['s', 'c', 'r', 'i', 'p', 't'] [] rest
  return ((attributes, body), rest)

/-- A link tag: its text. -/
def readLink? (s : List Char) : Option (List Char × List Char) :=
  openingTag? ['l', 'i', 'n', 'k'] s

def scriptTags (page : List Char) : List Tag :=
  (occurrences readScript? page).map fun o =>
    ⟨.script, o.start, o.stop, attributesOf o.value.1, String.ofList o.value.2⟩

def linkTags (page : List Char) : List Tag :=
  (occurrences readLink? page).map fun o => ⟨.link, o.start, o.stop, attributesOf o.value, ""⟩

/-- Whether a tag lies within another one. -/
def Tag.within (t u : Tag) : Bool := u.start ≤ t.start && t.stop ≤ u.stop

/-- The script elements and link tags of a page, by position. -/
def tags (page : String) : List Tag :=
  let scripts := scriptTags page.toList
  let links := (linkTags page.toList).filter fun link => !scripts.any link.within
  (scripts ++ links).mergeSort fun t u => t.start ≤ u.start

/-! ### What a tag refers to -/

namespace Tag

/-- The value of the first attribute of a name; a bare one has the empty value. -/
def attribute? (t : Tag) (name : String) : Option String :=
  (t.attributes.find? (·.name == name)).map fun a => a.value?.getD ""

/-- The blanks between the words of a `rel` attribute. -/
def isRelBlank (c : Char) : Bool :=
  c == ' ' || c == '\t' || c == '\n' || c == '\x0c' || c == '\r'

/-- Whether a word stands in the `rel` attribute, in any case. -/
def hasRel (t : Tag) (word : String) : Bool :=
  (t.attribute? "rel").any fun rel =>
    (rel.toList.splitOnP isRelBlank).any fun w => w.map Char.toLower == word.toList

/-- The value of an attribute that is not blank. -/
def filled? (t : Tag) (name : String) : Option String :=
  (t.attribute? name).filter (!allBlank ·)

/-- The file that a script element loads. -/
def scriptSource? (t : Tag) : Option String :=
  match t.kind with
  | .script => t.filled? "src"
  | .link => none

/-- What a link tag of a relation refers to. -/
def linked? (t : Tag) (rel : String) : Option String :=
  match t.kind with
  | .script => none
  | .link => if t.hasRel rel then t.filled? "href" else none

def stylesheet? (t : Tag) : Option String := t.linked? "stylesheet"

/-- The module that a link tag asks to load ahead. -/
def preloaded? (t : Tag) : Option String := t.linked? "modulepreload"

end Tag

end Pagefold.Page
