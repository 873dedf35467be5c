/-
  Floating-point numbers of 64 bits as exact values.

  A finite number is a whole significand times a power of two.  This module takes a number apart into
  these, puts the nearest number to a ratio of naturals together (a half goes to the even neighbour),
  and compares, truncates and tests numbers by their exact values, all in the arithmetic of naturals
  and integers, where it can be reasoned about.
-/

namespace Stencil.Binary64

/-- What a number is: its sign, and for a finite one its value `significand * 2 ^ exponent`. -/
inductive Shape where
  | nan
  | infinite (negative : Bool)
  | finite (negative : Bool) (significand : Nat) (exponent : Int)
deriving DecidableEq, Repr

/-- The bit of a word that says that a number is negative. -/
def signBit : Nat := Nat.pow 2 63

/-- The bit in front of the fraction of a word, from which the exponent goes up. -/
def unitBit : Nat := Nat.pow 2 52

/-- The number whose word has the given bits. -/
def ofWord (word : Nat) : Shape :=
  let negative := decide (signBit ≤ word)
  let biased : Nat := word / unitBit % 2048
  let fraction : Nat := word % unitBit
  if biased = 2047 then
    if fraction = 0 then .infinite negative else .nan
  else if biased = 0 then .finite negative fraction (-1074)
  else .finite negative (fraction + unitBit) ((biased : Int) - 1075)

/-- Take a number apart. -/
def shape (x : Float) : Shape := ofWord x.toBits.toNat

/-- The word of the number nearest to `num / den` without its sign.  The exponent is chosen so that
    the quotient has 53 bits, or is as small as exponents go; the quotient is then rounded, a half
    to the even side, and a carry runs from the significand into the exponent by itself. -/
def nearestWord (num den : Nat) : Nat :=
  if num = 0 ∨ den = 0 then 0
  else
    let guess : Int := max ((num.log2 : Int) - den.log2 - 53) (-1074)
    let quotient (e : Int) : Nat × Nat × Nat :=
      let n := if e < 0 then num * Nat.pow 2 (-e).toNat else num
      let d := if e < 0 then den else den * Nat.pow 2 e.toNat
      (n / d, n % d, d)
    let e := if (quotient guess).1 < 2 * unitBit then guess else guess + 1
    let (q, r, d) := quotient e
    let q := if 2 * r > d ∨ (2 * r = d ∧ q % 2 = 1) then q + 1 else q
    min ((e + 1075).toNat * unitBit + q - unitBit) (2047 * unitBit)

/-- The number nearest to `num / den`, with a sign. -/
def ofRatio (negative : Bool) (num den : Nat) : Float :=
  Float.ofBits (UInt64.ofNat ((if negative then signBit else 0) + nearestWord num den))

/-- The number nearest to an integer. -/
def ofInt (n : Int) : Float := ofRatio (n < 0) n.natAbs 1

/-- Whether a number is not a number. -/
def isNaN (x : Float) : Bool := shape x == .nan

/-- Whether a number is neither infinite nor not a number. -/
def isFinite (x : Float) : Bool :=
  match shape x with
  | .finite .. => true
  | _ => false

/-- The words of numbers as integers in the order of the numbers; both zeros are at 0. -/
def rank (x : Float) : Int :=
  let word := x.toBits.toNat
  if word < signBit then word else -((word : Int) - signBit)

/-- The order of two numbers; there is none with what is not a number. -/
def order (x y : Float) : Option Ordering :=
  if isNaN x || isNaN y then none else some (compare (rank x) (rank y))

/-- Whether two numbers are equal: the zeros are, and what is not a number equals nothing. -/
def equal (x y : Float) : Bool := order x y == some .eq

/-- Whether a number is one of the zeros. -/
def isZero (x : Float) : Bool := rank x == 0

theorem order_swap (x y : Float) : order y x = (order x y).map Ordering.swap := by
  simp only [order]
  cases hx : isNaN x <;> cases hy : isNaN y <;> simp [← Std.OrientedCmp.eq_swap]

/-- The magnitude of a finite number without its fraction. -/
def wholePart (significand : Nat) (exponent : Int) : Nat :=
  if exponent < 0 then significand / Nat.pow 2 (-exponent).toNat
  else significand * Nat.pow 2 exponent.toNat

/-- Whether a number has no fraction. -/
def isWhole (x : Float) : Bool :=
  match shape x with
  | .finite _ m e => e ≥ 0 || m % Nat.pow 2 (-e).toNat == 0
  | _ => false

/-- The integer with the magnitude `n` and a sign. -/
def signed (negative : Bool) (n : Nat) : Int := if negative then -(n : Int) else n

/-- A number cut down to an integer of 64 bits: the fraction is dropped, what lies outside goes to
    the nearest bound, and what is not a number is 0. -/
def truncate (x : Float) : Int64 :=
  match shape x with
  | .nan => 0
  | .infinite negative => if negative then Int64.minValue else Int64.maxValue
  | .finite negative m e =>
    Int64.ofInt
      (max Int64.minValue.toInt (min Int64.maxValue.toInt (signed negative (wholePart m e))))

end Stencil.Binary64
