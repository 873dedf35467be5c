import Stencil.Value.Basic
import Stencil.Text.Blank
/-
  The numeric reading of values.

  Null and the truth values read as whole numbers, texts read as the number they are written as, and
  lists and maps have no numeric reading.  A text is a whole number if it can be one, and otherwise the
  nearest floating-point number; blanks around it do not count.
-/

namespace Stencil

/-- A number: whole if possible. -/
inductive Number where
  | int (value : Int64)
  | float (value : Float)

namespace Number

/-- A number as a floating-point number. -/
def toFloat : Number → Float
  | .int n => Binary64.ofInt n.toInt
  | .float x => x

/-- A number as a value. -/
def toValue : Number → Value
  | .int n => .int n
  | .float x => .float x

/-- A whole number if it fits, and a floating-point number in its stead if it does not. -/
def intOr (exact : Int) (inexact : Float) : Number :=
  match Decimal.word? exact with
  | some n => .int n
  | none => .float inexact

/-- The number a text is written as.  The only letter of a number is the `e` of its exponent. -/
def ofText? (s : String) : Option Number :=
  let cs := Text.trim s.toList
  if cs.isEmpty then none
  else
    match (Decimal.integer? cs).bind Decimal.word? with
    | some n => some (.int n)
    | none =>
      if cs.any fun c => c.isAlpha && c != 'e' && c != 'E' then none
      else (Decimal.float? cs).map .float

end Number

namespace Value

/-- The number a value reads as, if it has a numeric reading. -/
def number? : Value → Option Number
  | .null => some (.int 0)
  | .bool b => some (.int (if b then 1 else 0))
  | .int n => some (.int n)
  | .float x => some (.float x)
  | .text s | .html s => Number.ofText? s
  | .list _ | .map _ => none

/-- Whether a value is a number or a text that is written as one. -/
def isNumeric : Value → Bool
  | .int _ | .float _ => true
  | .text s => (Number.ofText? s).isSome
  | _ => false

end Value

end Stencil
