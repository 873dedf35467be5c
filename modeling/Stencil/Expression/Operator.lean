/-
  The operators of expressions and how they are written.
-/

namespace Stencil

/-- The operators of arithmetic. -/
inductive ArithmeticOp where
  | add
  | subtract
  | multiply
  | divide
  | modulo
deriving DecidableEq, Repr

/-- How an arithmetic operator is written. -/
def ArithmeticOp.symbol : ArithmeticOp → String
  | .add => "+"
  | .subtract => "-"
  | .multiply => "*"
  | .divide => "/"
  | .modulo => "%"

/-- The operators between two expressions. -/
inductive BinaryOp where
  | coalesce
  | or
  | and
  | equal
  | notEqual
  | identical
  | notIdentical
  | less
  | lessEqual
  | greater
  | greaterEqual
  | concat
  | arithmetic (op : ArithmeticOp)
deriving DecidableEq, Repr

/-- How an operator between two expressions is written. -/
def BinaryOp.symbol : BinaryOp → String
  | .coalesce => "??"
  | .or => "||"
  | .and => "&&"
  | .equal => "=="
  | .notEqual => "!="
  | .identical => "==="
  | .notIdentical => "!=="
  | .less => "<"
  | .lessEqual => "<="
  | .greater => ">"
  | .greaterEqual => ">="
  | .concat => "."
  | .arithmetic op => op.symbol

/-- The operators in front of an expression. -/
inductive UnaryOp where
  | not
  | negate
deriving DecidableEq, Repr

/-- How an operator in front of an expression is written. -/
def UnaryOp.symbol : UnaryOp → String
  | .not => "!"
  | .negate => "-"

end Stencil
