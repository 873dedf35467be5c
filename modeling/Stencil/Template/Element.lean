import Stencil.Text.Slice
/-
  What the name of an element says about its content.

  Names are compared without regard to the case of the letters A to Z.
-/

namespace Stencil.Element

/-- Elements that never have content and are never closed. -/
def voidNames : List String :=
  ["area", "base", "br", "col", "embed", "hr", "img", "input", "link", "meta", "param", "source",
   "track", "wbr"]

/-- Whether an element never has content. -/
def isVoid (tag : String) : Bool := voidNames.contains (Text.lowerAscii tag)

/-- Whether the content of an element is text in which tags are not read. -/
def isRawText (tag : String) : Bool := ["script", "style"].contains (Text.lowerAscii tag)

/-- Whether blanks in the content of an element show on the page. -/
def showsBlanks (tag : String) : Bool := ["pre", "textarea"].contains (Text.lowerAscii tag)

end Stencil.Element
