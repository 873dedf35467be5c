import Stencil.Value.Basic
import Stencil.Json.Printer
/-
  Values as structured data, and the text they are shown as.

  A value becomes structured data with its order kept; markup becomes text, and what is infinite or not a
  number becomes null.  The text of a list or map is that data on one line.  Numbers are shown
  without an exponent, whole ones without a point.
-/

namespace Stencil.Value

mutual

/-- A value as structured data. -/
def toJson : Value → Json
  | .null => .null
  | .bool b => .bool b
  | .int n => .int n.toInt
  | .float x => if Binary64.isFinite x then .float x else .null
  | .text s => .text s
  | .html s => .text s
  | .list items => .array (itemsToJson items)
  | .map entries => .object (entriesToJson entries)

/-- The items of a list as structured data. -/
def itemsToJson : List Value → List Json
  | [] => []
  | item :: items => toJson item :: itemsToJson items

/-- The entries of a map as structured data. -/
def entriesToJson : List (String × Value) → List (String × Json)
  | [] => []
  | (key, value) :: entries => (key, toJson value) :: entriesToJson entries

end

mutual

/-- The value that structured data stands for.  A whole number that does not fit 64 bits with a sign
    becomes the nearest floating-point number, and of several members with one name the last counts. -/
def ofJson : Json → Value
  | .null => .null
  | .bool b => .bool b
  | .int n =>
    match Decimal.word? n with
    | some w => .int w
    | none => .float (Binary64.ofInt n)
  | .float x => .float x
  | .text s => .text s
  | .array items => .list (itemsOfJson items)
  | .object members => .map (Ordered.ofList (membersOfJson members))

/-- The values of the items of an array. -/
def itemsOfJson : List Json → List Value
  | [] => []
  | item :: items => ofJson item :: itemsOfJson items

/-- The values of the members of an object. -/
def membersOfJson : List (String × Json) → List (String × Value)
  | [] => []
  | (name, value) :: members => (name, ofJson value) :: membersOfJson members

end

/-- Numbers are shown with all their digits around the point, which a whole number does without. -/
def numberLayout : Decimal.Layout := ⟨.up, fun _ => true, false, false⟩

/-- The largest whole numbers that are shown exactly as integers are below this bound. -/
def wholeBound : Nat := Nat.pow 10 15

/-- The text of a floating-point number.  A whole one below the bound is shown as an integer, so that
    both zeros are shown alike. -/
def displayFloat (x : Float) : List Char :=
  match Binary64.shape x with
  | .nan => "NaN".toList
  | .infinite negative => (if negative then "-inf" else "inf").toList
  | .finite negative m e =>
    if Binary64.isWhole x && Binary64.wholePart m e < wholeBound then
      Decimal.intDigits (Binary64.signed negative (Binary64.wholePart m e))
    else numberLayout.finite negative m e

/-- The text a value is shown as. -/
def display : Value → String
  | .null => ""
  | .bool b => if b then "1" else ""
  | .int n => Decimal.intText n.toInt
  | .float x => String.ofList (displayFloat x)
  | .text s | .html s => s
  | v => (toJson v).line

/-- The item of a list at a whole number, if there is one. -/
def itemAt (items : List Value) (n : Int) : Value :=
  if n < 0 then .null else (items[n.toNat]?).getD .null

/-- The place in a list that a text names: digits, perhaps after a plus sign. -/
def place? (s : String) : Option Nat :=
  let digits :=
    match s.toList with
    | '+' :: rest => rest
    | rest => rest
  (Decimal.natural? digits).filter (· < UInt64.size)

/-- The part of a value at a key.  Lists take whole numbers and texts that are written as one, maps take
    any key by its text; where there is nothing the answer is null. -/
def index (v key : Value) : Value :=
  match v, key with
  | .list items, .int n => itemAt items n.toInt
  | .list items, .text s =>
    match place? s with
    | some n => itemAt items n
    | none => .null
  | .map entries, key => (Ordered.get? entries key.display).getD .null
  | _, _ => .null

end Stencil.Value
