import Stencil.Expression.Operator
import Stencil.Value.Basic
/-
  What can go wrong with an expression, and the words for it.

  An error is its cause.  The words are chosen in one place, so that every part of the library reports a
  cause in the same way.
-/

namespace Stencil

/-- Why a text is not an expression. -/
inductive SyntaxProblem where
  /-- A quoted text is never closed. -/
  | unterminatedString
  /-- A piece of the text that cannot be read, or not here. -/
  | unexpected (piece : String)
  /-- The text ends too early. -/
  | unexpectedEnd
  /-- The text holds no token at all. -/
  | empty
  /-- Something else had to come here. -/
  | expected (what : String)
  /-- A member was called. -/
  | methodCall (name : String)
  /-- A bare name that is neither a call nor a known constant. -/
  | undefinedConstant (name : String)
deriving DecidableEq, Repr

/-- The words for a problem. -/
def SyntaxProblem.message : SyntaxProblem → String
  | .unterminatedString => "unterminated string"
  | .unexpected piece => s!"unexpected `{piece}`"
  | .unexpectedEnd => "unexpected end of expression"
  | .empty => "empty expression"
  | .expected what => s!"expected {what}"
  | .methodCall name => s!"method calls are not supported (`{name}()`)"
  | .undefinedConstant name => s!"undefined constant `{name}`"

/-- A value of a kind that an operation cannot work with. -/
inductive TypeProblem where
  | operands (left : Value.Kind) (op : ArithmeticOp) (right : Value.Kind)
  | negation (operand : Value.Kind)
  | count (argument : Value.Kind)
  | implode (argument : Value.Kind)
  | loop (argument : Value.Kind) (iterable : String)
deriving DecidableEq, Repr

/-- The words for a problem with kinds. -/
def TypeProblem.message : TypeProblem → String
  | .operands left op right =>
    s!"Unsupported operand types: {left.name} {op.symbol} {right.name}"
  | .negation operand => s!"Unsupported operand types: -{operand.name}"
  | .count argument =>
    s!"count(): Argument #1 must be of type array, {argument.name} given"
  | .implode argument =>
    s!"implode(): Argument must be of type array, {argument.name} given"
  | .loop argument iterable =>
    s!"foreach() argument must be of type array, {argument.name} given ({iterable})"

/-- How many arguments a function takes: from the least to the most, if there is a most. -/
structure Arity where
  least : Nat
  most : Option Nat
deriving DecidableEq, Repr

/-- Whether a number of arguments is accepted. -/
def Arity.accepts (a : Arity) (n : Nat) : Bool :=
  a.least ≤ n && (match a.most with
    | some most => n ≤ most
    | none => true)

/-- The words for an arity. -/
def Arity.words (a : Arity) : String :=
  match a.most with
  | none => s!"at least {a.least}"
  | some most => if a.least = most then s!"{most}" else s!"{a.least} to {most}"

/-- Why an expression has no value. -/
inductive EvalError where
  /-- The text is not an expression; the offset is in bytes. -/
  | malformed (expression : String) (offset : Nat) (problem : SyntaxProblem)
  | unknownFunction (name : String)
  | argumentCount (function : String) (expected : Arity) (found : Nat)
  | type (problem : TypeProblem)
  | divisionByZero
deriving DecidableEq, Repr

/-- The words for an error. -/
def EvalError.message : EvalError → String
  | .malformed expression offset problem =>
    s!"Syntax error in `{expression}` at offset {offset}: {problem.message}"
  | .unknownFunction name => s!"Call to undefined function {name}()"
  | .argumentCount function expected found =>
    s!"{function}() expects {expected.words} argument(s), {found} given"
  | .type problem => problem.message
  | .divisionByZero => "Division by zero"

end Stencil
