import Stencil.Value.Number
import Stencil.Expression.Error
/-
  Arithmetic on values.

  Operands are taken by their numeric reading.  Whole numbers give whole numbers as long as the exact
  result fits 64 bits, and the floating-point result where it does not.  The remainder is always taken
  of whole numbers, to which its operands are cut down; it has the sign of the dividend.
-/

namespace Stencil

namespace ArithmeticOp

/-- The remainder of two numbers after both are cut down to whole ones.  They are cut down from their
    floating-point form. -/
def remainder (l r : Number) : Except EvalError Value :=
  let divisor := Binary64.truncate r.toFloat
  if divisor = 0 then .error .divisionByZero
  else .ok (.int (Int64.ofInt ((Binary64.truncate l.toFloat).toInt.tmod divisor.toInt)))

/-- The quotient of two numbers: whole when it is exact and fits. -/
def quotient (l r : Number) : Except EvalError Value :=
  if Binary64.isZero r.toFloat then .error .divisionByZero
  else
    let inexact := l.toFloat / r.toFloat
    match l, r with
    | .int a, .int b =>
      if a.toInt.tmod b.toInt = 0 then .ok (Number.intOr (a.toInt.tdiv b.toInt) inexact).toValue
      else .ok (.float inexact)
    | _, _ => .ok (.float inexact)

/-- A sum, difference or product: exact for whole numbers as long as it fits. -/
def exactOr (exact : Int → Int → Int) (inexact : Float → Float → Float) (l r : Number) : Value :=
  match l, r with
  | .int a, .int b => (Number.intOr (exact a.toInt b.toInt) (inexact l.toFloat r.toFloat)).toValue
  | _, _ => .float (inexact l.toFloat r.toFloat)

/-- Apply an operator to two numbers. -/
def onNumbers (op : ArithmeticOp) (l r : Number) : Except EvalError Value :=
  match op with
  | .add => .ok (exactOr (· + ·) (· + ·) l r)
  | .subtract => .ok (exactOr (· - ·) (· - ·) l r)
  | .multiply => .ok (exactOr (· * ·) (· * ·) l r)
  | .divide => quotient l r
  | .modulo => remainder l r

/-- Apply an operator to two values. -/
def apply (op : ArithmeticOp) (left right : Value) : Except EvalError Value :=
  match left.number?, right.number? with
  | some l, some r => op.onNumbers l r
  | _, _ => .error (.type (.operands left.kind op right.kind))

end ArithmeticOp

/-- The negative of a value. -/
def Value.negate (v : Value) : Except EvalError Value :=
  match v.number? with
  | some (.int n) => .ok (Number.intOr (-n.toInt) (-(Binary64.ofInt n.toInt))).toValue
  | some (.float x) => .ok (.float (-x))
  | none => .error (.type (.negation v.kind))

end Stencil
