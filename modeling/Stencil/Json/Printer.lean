import Stencil.Json.Basic
import Stencil.Decimal.Layout
/-
  Writing structured data on one line, with no blanks between its parts.

  Texts escape the double quote, the backslash and the controls below the blank, and nothing else.
  Finite fractions have their shortest digits; what is infinite or not a number is written `null`.
-/

namespace Stencil.Json

/-- Fractions stand around a point from five places after it to sixteen digits before it; else they
    have an exponent, signed when it is positive.  A whole one keeps its point. -/
def numberLayout : Decimal.Layout :=
  ⟨.toEven, fun lead => -5 ≤ lead && lead < 16, true, true⟩

/-- The text of a floating-point number. -/
def renderFloat (x : Float) : List Char :=
  match Binary64.shape x with
  | .finite negative m e => numberLayout.finite negative m e
  | _ => "null".toList

/-- The letters of the controls that have a short escape. -/
def shortEscapes : List (Char × Char) :=
  [('"', '"'), ('\\', '\\'), ('\x08', 'b'), ('\x0c', 'f'), ('\n', 'n'), ('\r', 'r'), ('\t', 't')]

/-- A character inside a quoted text. -/
def escapeChar (c : Char) : List Char :=
  match shortEscapes.lookup c with
  | some letter => ['\\', letter]
  | none =>
    if c.toNat < 0x20 then
      ['\\', 'u', '0', '0', Nat.digitChar (c.toNat / 16), Nat.digitChar (c.toNat % 16)]
    else [c]

/-- A quoted text. -/
def renderText (s : String) : List Char := '"' :: s.toList.flatMap escapeChar ++ ['"']

mutual

/-- The text of a value. -/
def render : Json → List Char
  | .null => "null".toList
  | .bool true => "true".toList
  | .bool false => "false".toList
  | .int n => Decimal.intDigits n
  | .float x => renderFloat x
  | .text s => renderText s
  | .array items => '[' :: renderItems items ++ [']']
  | .object members => '\x7b' :: renderMembers members ++ ['\x7d']

/-- The texts of items with commas between. -/
def renderItems : List Json → List Char
  | [] => []
  | [item] => render item
  | item :: items => render item ++ ',' :: renderItems items

/-- The texts of members with commas between. -/
def renderMembers : List (String × Json) → List Char
  | [] => []
  | [(name, value)] => renderText name ++ ':' :: render value
  | (name, value) :: members =>
    renderText name ++ ':' :: (render value ++ ',' :: renderMembers members)

end

/-- The text of a value, as a string. -/
def line (j : Json) : String := String.ofList (render j)

end Stencil.Json
