import Stencil.Decimal.Integer
import Stencil.Decimal.Binary64
/-
  Reading decimal numbers.

  A decimal number is digits with an optional point among them, an optional exponent and an optional
  sign; it is read as the floating-point number nearest to it.  The exponent may be of any size, so
  numbers far beyond the largest or far below the smallest are decided before any power is taken.
-/

namespace Stencil.Decimal

/-- A decimal number taken apart: its value is `digits * 10 ^ exponent`. -/
structure Scientific where
  negative : Bool
  digits : Nat
  exponent : Int
deriving DecidableEq, Repr

/-- The floating-point number nearest to a decimal one. -/
def Scientific.nearest (s : Scientific) : Float :=
  let size : Int := (natDigits s.digits).length + s.exponent
  if s.digits = 0 ∨ size < -330 then Binary64.ofRatio s.negative 0 1
  else if size > 310 then Binary64.ofRatio s.negative (Nat.pow 2 1025) 1
  else if s.exponent < 0 then Binary64.ofRatio s.negative s.digits (Nat.pow 10 (-s.exponent).toNat)
  else Binary64.ofRatio s.negative (s.digits * Nat.pow 10 s.exponent.toNat) 1

/-- Read an exponent after its letter: a sign and digits up to the end. -/
def exponent? (cs : List Char) : Option Int := integer? cs

/-- Read a decimal number that takes up a whole text.  Digits are needed on one side of the point at
    least; after an `e` or `E` an exponent is needed. -/
def scientific? (cs : List Char) : Option Scientific :=
  let (negative, cs) := splitSign cs
  let whole := cs.takeWhile Char.isDigit
  let rest := cs.dropWhile Char.isDigit
  let (fraction, rest) :=
    match rest with
    | '.' :: rest => (rest.takeWhile Char.isDigit, rest.dropWhile Char.isDigit)
    | rest => ([], rest)
  if whole.isEmpty && fraction.isEmpty then none
  else
    let digits := digitsValue (whole ++ fraction)
    match rest with
    | [] => some ⟨negative, digits, -(fraction.length : Int)⟩
    | c :: rest =>
      if c == 'e' || c == 'E' then
        (exponent? rest).map fun e => ⟨negative, digits, e - fraction.length⟩
      else none

/-- Read a decimal number as the floating-point number nearest to it. -/
def float? (cs : List Char) : Option Float := (scientific? cs).map Scientific.nearest

end Stencil.Decimal
