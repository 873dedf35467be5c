import Stencil.Decimal.Integer
import Stencil.Decimal.Binary64
/-
  The shortest decimal digits of a floating-point number.

  Between a finite number and its two neighbours lie the decimal numbers that are read back as it: an
  interval whose ends lie halfway to the neighbours and belong to it when the significand is even.
  The digits of a number are those of a decimal number in that interval that has as few digits as
  possible and is, among those, nearest to the number.  They are found by trying one digit, two digits,
  and so on: on the grid of decimal numbers with that many digits only the two next to the number
  can be in the interval.
-/

namespace Stencil.Decimal

/-- Where a number exactly halfway between two candidates goes. -/
inductive Tie where
  | up
  | toEven
deriving DecidableEq, Repr

/-- The interval that is read back as `significand * 2 ^ exponent`, as numerators over one common
    denominator: the low end, the number, the high end. -/
structure Interval where
  low : Nat
  value : Nat
  high : Nat
  denominator : Nat
  closed : Bool
deriving Repr

/-- The interval of a positive finite number.  Below a power of two the neighbour is nearer. -/
def Interval.of (significand : Nat) (exponent : Int) : Interval :=
  let below := if significand = Nat.pow 2 52 ∧ exponent > -1074 then 1 else 2
  let scale := if exponent < 2 then 1 else Nat.pow 2 (exponent - 2).toNat
  let denominator := if exponent < 2 then Nat.pow 2 (2 - exponent).toNat else 1
  ⟨(4 * significand - below) * scale, 4 * significand * scale, (4 * significand + 2) * scale,
    denominator, significand % 2 == 0⟩

/-- Whether `num / den` lies in an interval. -/
def Interval.holds (i : Interval) (num den : Nat) : Bool :=
  let x := num * i.denominator
  if i.closed then i.low * den ≤ x && x ≤ i.high * den else i.low * den < x && x < i.high * den

/-- `10 ^ k` as a ratio. -/
def powerOfTen (k : Int) : Nat × Nat :=
  if k < 0 then (1, Nat.pow 10 (-k).toNat) else (Nat.pow 10 k.toNat, 1)

/-- The candidate `d * 10 ^ k` nearest to the number among its two neighbours on the grid of the
    multiples of `10 ^ k`, if one of the two lies in the interval. -/
def Interval.candidate? (i : Interval) (tie : Tie) (k : Int) : Option Nat :=
  let (up, down) := powerOfTen k
  let num := i.value * down
  let den := i.denominator * up
  let d := num / den
  let inside (n : Nat) : Bool := i.holds (n * up) down
  match inside d, inside (d + 1) with
  | false, false => none
  | true, false => some d
  | false, true => some (d + 1)
  | true, true =>
    let r := 2 * (num % den)
    if r < den then some d
    else if r > den then some (d + 1)
    else match tie with
      | .up => some (d + 1)
      | .toEven => some (if d % 2 = 0 then d else d + 1)

/-- The power of ten at the front of a positive ratio: the `k` with `10 ^ k ≤ num / den < 10 ^ (k+1)`. -/
def leadingPower (num den : Nat) : Int :=
  if den ≤ num then ((natDigits (num / den)).length : Int) - 1
  else -((natDigits ((den - 1) / num)).length : Int)

/-- The first grid with a candidate, from one digit to seventeen. -/
def Interval.search (i : Interval) (tie : Tie) (lead : Int) : List Nat → Nat × Int
  | [] => (0, 0)
  | n :: ns =>
    let k := lead - n
    match i.candidate? tie k with
    | some d => (d, k)
    | none => i.search tie lead ns

/-- The shortest digits and the power of ten they are multiplied by.  The digits of zero are 0. -/
def shortest (tie : Tie) (significand : Nat) (exponent : Int) : Nat × Int :=
  if significand = 0 then (0, 0)
  else
    let i := Interval.of significand exponent
    i.search tie (leadingPower i.value i.denominator) (List.range 18)

end Stencil.Decimal
