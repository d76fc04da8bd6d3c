import Pagefold.Link.Reference
import Pagefold.Page.Tag

/-! # Inline scripts

The element that takes the place of a tag which loads a script.  It keeps the tag's attributes, but
for those that are about loading, and holds the code in its body, with every closing tag in the code
guarded. -/

namespace Pagefold.Page

open Text

/-- Whether a reference of a page leads out of the build. -/
def isExternal (reference : String) : Bool := Link.Reference.isNonLocal (trim reference.toList)

/-- The attributes that are about loading. -/
def loadingAttributes : List String := ["src", "crossorigin", "integrity"]

/-- A text between double quotes. -/
def quotedValue (value : String) : String :=
  "\"" ++ String.ofList (value.toList.flatMap fun c =>
    if c == '"' then ['&', 'q', 'u', 'o', 't', ';'] else [c]) ++ "\""

def Attribute.text (a : Attribute) : String :=
  " " ++ a.name ++ a.value?.elim "" ("=" ++ quotedValue ·)

/-- Code in which no script element ends. -/
def guardScript (code : String) : String :=
  String.ofList (guardClosing ['s', 'c', 'r', 'i', 'p', 't'] code.toList)

/-- A script element with a tag's attributes and with code as its body; `cdata` encloses the code in
a section that hides it from a reader of XML. -/
def scriptElement (t : Tag) (code : String) (cdata : Bool) : String :=
  let attributes := t.attributes.filter fun a => !loadingAttributes.contains a.name
  let code := guardScript code
  "<script" ++ String.join (attributes.map Attribute.text) ++ ">"
    ++ (if cdata then "//<![CDATA[\n" ++ code ++ "\n//]]>" else code) ++ "</script>"

end Pagefold.Page
