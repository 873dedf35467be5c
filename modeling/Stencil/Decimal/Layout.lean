import Stencil.Decimal.Shortest
/-
  How the digits of a floating-point number are laid out.

  A number has shortest digits and a leading power of ten.  A layout says between which powers the
  digits are written around a point, whether a whole number keeps a zero after the point, and how an
  exponent is written where they are not.
-/

namespace Stencil.Decimal

/-- The decisions of a format for finite numbers. -/
structure Layout where
  /-- Where a number exactly between two shortest candidates goes. -/
  tie : Tie
  /-- Whether the digits stand around a point, by the leading power of ten. -/
  positional : Int → Bool
  /-- Whether a whole number that stands around a point ends in `.0`. -/
  keepsPoint : Bool
  /-- Whether a positive exponent has a sign. -/
  signsExponent : Bool

/-- Digits without the zeros at their end, and how many those were. -/
def dropEndZeros (digits : List Char) : List Char × Nat :=
  let kept := (digits.reverse.dropWhile (· == '0')).reverse
  (kept, digits.length - kept.length)

/-- Digits around a point: `digits * 10 ^ power`. -/
def Layout.around (l : Layout) (digits : List Char) (power : Int) : List Char :=
  if power ≥ 0 then
    digits ++ List.replicate power.toNat '0' ++ (if l.keepsPoint then ['.', '0'] else [])
  else
    let places := (-power).toNat
    let padded := List.replicate (places + 1 - digits.length) '0' ++ digits
    padded.take (padded.length - places) ++ ['.'] ++ padded.drop (padded.length - places)

/-- One digit before the point, the others after it, and an exponent. -/
def Layout.withExponent (l : Layout) (digits : List Char) (lead : Int) : List Char :=
  let mantissa :=
    match digits with
    | d :: e :: rest => d :: '.' :: e :: rest
    | ds => ds
  mantissa ++ ['e'] ++ (if l.signsExponent && lead > 0 then ['+'] else []) ++ intDigits lead

/-- The text of a finite number that is given by its sign, significand and exponent. -/
def Layout.finite (l : Layout) (negative : Bool) (significand : Nat) (exponent : Int) : List Char :=
  let (d, power) := shortest l.tie significand exponent
  let (digits, zeros) := if d = 0 then (['0'], 0) else dropEndZeros (natDigits d)
  let power := power + zeros
  let lead := power + digits.length - 1
  let sign := if negative then ['-'] else []
  sign ++ (if l.positional lead then l.around digits power else l.withExponent digits lead)

end Stencil.Decimal
