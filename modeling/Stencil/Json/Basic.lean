import Stencil.Ordered
/-
  Structured data as it is exchanged in text.

  Whole numbers and fractions are kept apart, and the members of an object keep their order.
-/

namespace Stencil

/-- A value of structured data. -/
inductive Json where
  | null
  | bool (value : Bool)
  | int (value : Int)
  | float (value : Float)
  | text (value : String)
  | array (items : List Json)
  | object (members : List (String × Json))
deriving Inhabited

namespace Json

/-- The items of an array. -/
def items? : Json → Option (List Json)
  | .array items => some items
  | _ => none

/-- The text of a text value. -/
def text? : Json → Option String
  | .text s => some s
  | _ => none

/-- A text, or null when there is none. -/
def ofText? : Option String → Json
  | some s => .text s
  | none => .null

end Json

end Stencil
