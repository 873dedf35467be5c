/-
  Decimal text of whole numbers.

  A natural number is written with its digits and no leading zero, an integer with a minus sign in front
  when it is negative.  Reading is more generous than writing: leading zeros are accepted, and so is a
  plus sign.  A reading that has to fit a word says so by failing when it does not.
-/

namespace Stencil.Decimal

/-- The value of a digit. -/
def digitValue (c : Char) : Nat := c.toNat - '0'.toNat

/-- The value of a run of digits. -/
def digitsValue (cs : List Char) : Nat := cs.foldl (fun n c => 10 * n + digitValue c) 0

/-- Read a text of at least one digit and nothing else. -/
def natural? (cs : List Char) : Option Nat :=
  if !cs.isEmpty && cs.all Char.isDigit then some (digitsValue cs) else none

/-- Split a sign off the front of a text; without one the number is not negative. -/
def splitSign : List Char → Bool × List Char
  | '-' :: cs => (true, cs)
  | '+' :: cs => (false, cs)
  | cs => (false, cs)

/-- Read an integer with an optional sign. -/
def integer? (cs : List Char) : Option Int :=
  let (negative, digits) := splitSign cs
  (natural? digits).map fun n => if negative then -(n : Int) else n

/-- The digits of a natural number. -/
def natDigits (n : Nat) : List Char := Nat.toDigits 10 n

/-- The text of an integer. -/
def intDigits : Int → List Char
  | .ofNat n => natDigits n
  | .negSucc n => '-' :: natDigits (n + 1)

/-- The text of a natural number, as a string. -/
def natText (n : Nat) : String := String.ofList (natDigits n)

/-- The text of an integer, as a string. -/
def intText (n : Int) : String := String.ofList (intDigits n)

/-- The 64-bit word for an integer, if it fits one. -/
def word? (n : Int) : Option Int64 :=
  if Int64.minValue.toInt ≤ n ∧ n ≤ Int64.maxValue.toInt then some (Int64.ofInt n) else none

theorem minValue_toInt : Int64.minValue.toInt = -9223372036854775808 := rfl

theorem maxValue_toInt : Int64.maxValue.toInt = 9223372036854775807 := rfl

theorem toInt_of_word? {n : Int} {w : Int64} (h : word? n = some w) : w.toInt = n := by
  simp only [word?] at h
  split at h
  · next hn =>
    obtain rfl := Option.some.inj h
    rw [minValue_toInt, maxValue_toInt] at hn
    exact Int64.toInt_ofInt_of_le (by omega) (by omega)
  · cases h

/-- Every word is the word of the integer it stands for. -/
theorem word?_toInt (w : Int64) : word? w.toInt = some w := by
  have h1 := w.le_toInt
  have h2 := w.toInt_lt
  simp only [word?, minValue_toInt, maxValue_toInt]
  rw [if_pos ⟨by omega, by omega⟩, Int64.ofInt_toInt]

end Stencil.Decimal
