import Stencil.Ordered
import Stencil.Decimal.Nearest
/-
  Values that templates compute with.

  A value is null, a truth value, a whole number of 64 bits, a floating-point number, a text, a piece of
  markup, a list, or a map that keeps the order of its keys.  Markup is text that has been made safe for
  a page already: it reads as text everywhere, and only escaping tells the two apart.
-/

namespace Stencil

/-- A value that can be bound to a name and computed by an expression. -/
inductive Value where
  | null
  | bool (value : Bool)
  | int (value : Int64)
  | float (value : Float)
  | text (value : String)
  | html (markup : String)
  | list (items : List Value)
  | map (entries : List (String × Value))
deriving Inhabited

/-- Names with their values, in the order they were first bound. -/
abbrev Bindings := Ordered Value

namespace Value

/-- What error texts call a value. -/
inductive Kind where
  | null
  | bool
  | int
  | float
  | string
  | array
deriving DecidableEq, Repr

/-- The word for a kind. -/
def Kind.name : Kind → String
  | .null => "null"
  | .bool => "bool"
  | .int => "int"
  | .float => "float"
  | .string => "string"
  | .array => "array"

/-- The kind of a value: markup is a string, and both lists and maps are arrays. -/
def kind : Value → Kind
  | .null => .null
  | .bool _ => .bool
  | .int _ => .int
  | .float _ => .float
  | .text _ | .html _ => .string
  | .list _ | .map _ => .array

/-- Whether a value is null. -/
def isNull : Value → Bool
  | .null => true
  | _ => false

/-- Whether a value is a piece of markup. -/
def isHtml : Value → Bool
  | .html _ => true
  | _ => false

/-- Whether a value counts as true: all do but null, false, the zeros, the texts `""` and `"0"`, and
    empty lists and maps. -/
def truthy : Value → Bool
  | .null => false
  | .bool b => b
  | .int n => n != 0
  | .float x => !Binary64.isZero x
  | .text s | .html s => !(s.isEmpty || s == "0")
  | .list items => !items.isEmpty
  | .map entries => !entries.isEmpty

/-- The whole number for a count. -/
def ofNat (n : Nat) : Value := .int (Int64.ofNat n)

/-- The pairs a loop runs over: a list has the numbers from 0 as keys, a map its own keys, null has no
    pairs, and other values cannot be looped over. -/
def entries? : Value → Option (List (Value × Value))
  | .null => some []
  | .list items => some (items.zipIdx.map fun (item, i) => (ofNat i, item))
  | .map entries => some (entries.map fun (key, item) => (.text key, item))
  | _ => none

/-- A named property: the entry of a map; null where there is none. -/
def property (v : Value) (name : String) : Value :=
  match v with
  | .map entries => (Ordered.get? entries name).getD .null
  | _ => .null

end Value

end Stencil
