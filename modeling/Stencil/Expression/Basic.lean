import Stencil.Expression.Operator
import Stencil.Value.Basic
/-
  Expressions, as they are evaluated.
-/

namespace Stencil

mutual

/-- An expression. -/
inductive Expr where
  | literal (value : Value)
  | variable (name : String)
  /-- A named property of a value. -/
  | property (target : Expr) (name : String)
  /-- A part of a value by its key. -/
  | index (target key : Expr)
  | call (function : String) (arguments : List Expr)
  | array (items : List ArrayMember)
  | unary (op : UnaryOp) (operand : Expr)
  | binary (op : BinaryOp) (left right : Expr)
  | ternary (condition yes no : Expr)
  /-- The choice that gives its condition itself when that counts as true. -/
  | orElse (condition no : Expr)

/-- An item of an array in brackets. -/
inductive ArrayMember where
  | plain (value : Expr)
  | keyed (key value : Expr)

end

instance : Inhabited Expr := ⟨.literal .null⟩

/-- Whether an item is written without a key. -/
def ArrayMember.isPlain : ArrayMember → Bool
  | .plain _ => true
  | .keyed .. => false

end Stencil
