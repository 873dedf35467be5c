import Stencil.Value.Number
import Stencil.Value.Display
/-
  Equality and order of values.

  There are two equalities.  The loose one compares by meaning: truth values by truth, null with what is
  empty, numbers and texts written as numbers by number, lists and maps part by part, and all else by the
  text it is shown as.  The strict one asks for the same kind and the same value, except that at the
  top text and markup may stand for each other.  The order is that of numbers where both sides have a
  numeric reading, and that of the texts elsewhere.
-/

namespace Stencil.Value

/-- The order of two values. -/
def order (a b : Value) : Ordering :=
  match a.number?, b.number? with
  | some (.int x), some (.int y) => compare x.toInt y.toInt
  | some x, some y => (Binary64.order x.toFloat y.toFloat).getD .eq
  | _, _ => compare a.display b.display

/-- Loose equality of two values neither of which decides by truth, by being null, or part by part. -/
def scalarEquals (a b : Value) : Bool :=
  if a.isNumeric && b.isNumeric then order a b == .eq else a.display == b.display

mutual

/-- Loose equality. -/
def looselyEqual : Value → Value → Bool
  | .null, .null => true
  | .bool x, b => x == b.truthy
  | a, .bool y => y == a.truthy
  | .null, .text s => s.isEmpty
  | .text s, .null => s.isEmpty
  | .null, .html s => s.isEmpty
  | .html s, .null => s.isEmpty
  | .null, b => !b.truthy
  | a, .null => !a.truthy
  | .list xs, .list ys => looseItems xs ys
  | .map xs, .map ys => xs.length == ys.length && looseEntries xs ys
  | .list _, _ => false
  | .map _, _ => false
  | _, .list _ => false
  | _, .map _ => false
  | a, b => scalarEquals a b

/-- Loose equality of lists: as many items, equal in order. -/
def looseItems : List Value → List Value → Bool
  | [], [] => true
  | x :: xs, y :: ys => looselyEqual x y && looseItems xs ys
  | _, _ => false

/-- Whether every entry of the first map has a loosely equal entry in the second. -/
def looseEntries : List (String × Value) → List (String × Value) → Bool
  | [], _ => true
  | (key, x) :: xs, ys =>
    (match Ordered.get? ys key with
      | some y => looselyEqual x y
      | none => false) && looseEntries xs ys

end

mutual

/-- Equality of kind and value at every depth; maps are equal whatever the order of their keys. -/
def same : Value → Value → Bool
  | .null, .null => true
  | .bool x, .bool y => x == y
  | .int x, .int y => x == y
  | .float x, .float y => Binary64.equal x y
  | .text s, .text t => s == t
  | .html s, .html t => s == t
  | .list xs, .list ys => sameItems xs ys
  | .map xs, .map ys => xs.length == ys.length && sameEntries xs ys
  | _, _ => false

/-- Equality of lists. -/
def sameItems : List Value → List Value → Bool
  | [], [] => true
  | x :: xs, y :: ys => same x y && sameItems xs ys
  | _, _ => false

/-- Whether every entry of the first map is in the second. -/
def sameEntries : List (String × Value) → List (String × Value) → Bool
  | [], _ => true
  | (key, x) :: xs, ys =>
    (match Ordered.get? ys key with
      | some y => same x y
      | none => false) && sameEntries xs ys

end

/-- Strict equality: text and markup are compared by what they say. -/
def strictlyEqual : Value → Value → Bool
  | .text s, .html t => s == t
  | .html s, .text t => s == t
  | a, b => same a b

end Stencil.Value
