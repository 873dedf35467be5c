/-
  Sets of characters given by ranges of code points.

  A property of characters that a standard defines by enumeration is written down as a table of
  closed ranges in rising order.  This module asks one question of such a table: is a character
  in it?
-/

namespace Stencil.Text

/-- Whether the code point of `c` lies in one of the closed ranges of a table. -/
def inRanges (table : List (Nat × Nat)) (c : Char) : Bool :=
  table.any fun (low, high) => low ≤ c.toNat && c.toNat ≤ high

theorem inRanges_iff {table : List (Nat × Nat)} {c : Char} :
    inRanges table c = true ↔ ∃ r ∈ table, r.1 ≤ c.toNat ∧ c.toNat ≤ r.2 := by
  simp [inRanges, List.any_eq_true]

end Stencil.Text
