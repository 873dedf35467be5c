import Stencil.Expression.Functions
import Stencil.Expression.Parser
import Stencil.Value.Arithmetic
import Stencil.Scope
/-
  The value of an expression in a scope.

  Operands are evaluated from left to right and the first error ends the evaluation.  Choices, `??`, `||`
  and `&&` evaluate only what they need.  A function must exist before its arguments are looked at.
  An array whose items all come without a key is a list; with any key it is a map, in which the items
  without one are numbered from 0 among themselves.
-/

namespace Stencil

/-- Anything that gives expressions, by their text, a value in a scope. -/
abbrev Evaluator := String → Scope → Except EvalError Value

namespace BinaryOp

/-- Apply an operator whose operands have both been evaluated. -/
def apply (op : BinaryOp) (l r : Value) : Except EvalError Value :=
  match op with
  | .coalesce => .ok (if l.isNull then r else l)
  | .or => .ok (.bool (l.truthy || r.truthy))
  | .and => .ok (.bool (l.truthy && r.truthy))
  | .equal => .ok (.bool (l.looselyEqual r))
  | .notEqual => .ok (.bool !(l.looselyEqual r))
  | .identical => .ok (.bool (l.strictlyEqual r))
  | .notIdentical => .ok (.bool !(l.strictlyEqual r))
  | .less => .ok (.bool (l.order r).isLT)
  | .lessEqual => .ok (.bool (l.order r).isLE)
  | .greater => .ok (.bool (l.order r).isGT)
  | .greaterEqual => .ok (.bool (l.order r).isGE)
  | .concat => .ok (.text (l.display ++ r.display))
  | .arithmetic op => op.apply l r

/-- Whether the left operand decides alone, so that the right one is not evaluated. -/
def decidedBy (op : BinaryOp) (l : Value) : Bool :=
  match op with
  | .coalesce => !l.isNull
  | .or => l.truthy
  | .and => !l.truthy
  | _ => false

end BinaryOp

namespace Expr

mutual

/-- The value of an expression. -/
def eval (fs : Functions) (scope : Scope) : Expr → Except EvalError Value
  | .literal v => .ok v
  | .variable name => .ok (scope.get name)
  | .property target name => do
    let v ← eval fs scope target
    .ok (v.property name)
  | .index target key => do
    let v ← eval fs scope target
    let k ← eval fs scope key
    .ok (v.index k)
  | .call function arguments =>
    match fs.get? function with
    | none => .error (.unknownFunction function)
    | some f => do
      let vs ← evalAll fs scope arguments
      f vs
  | .array items =>
    if items.all ArrayMember.isPlain then do
      let vs ← evalPlain fs scope items
      .ok (.list vs)
    else do
      let entries ← evalKeyed fs scope 0 [] items
      .ok (.map entries)
  | .unary op operand => do
    let v ← eval fs scope operand
    match op with
    | .not => .ok (.bool !v.truthy)
    | .negate => v.negate
  | .binary op left right => do
    let l ← eval fs scope left
    if op.decidedBy l then op.apply l .null
    else do
      let r ← eval fs scope right
      op.apply l r
  | .ternary condition yes no => do
    let c ← eval fs scope condition
    if c.truthy then eval fs scope yes else eval fs scope no
  | .orElse condition no => do
    let c ← eval fs scope condition
    if c.truthy then .ok c else eval fs scope no
termination_by structural e => e

/-- The values of expressions, from left to right. -/
def evalAll (fs : Functions) (scope : Scope) : List Expr → Except EvalError (List Value)
  | [] => .ok []
  | e :: es => do
    let v ← eval fs scope e
    let vs ← evalAll fs scope es
    .ok (v :: vs)
termination_by structural es => es

/-- The values of the items of an array, keys aside. -/
def evalPlain (fs : Functions) (scope : Scope) : List ArrayMember → Except EvalError (List Value)
  | [] => .ok []
  | .plain e :: items => do
    let v ← eval fs scope e
    let vs ← evalPlain fs scope items
    .ok (v :: vs)
  | .keyed _ e :: items => do
    let v ← eval fs scope e
    let vs ← evalPlain fs scope items
    .ok (v :: vs)
termination_by structural items => items

/-- Put the items of an array into a map, numbering those without a key from `next` on. -/
def evalKeyed (fs : Functions) (scope : Scope) (next : Nat) (entries : Ordered Value) :
    List ArrayMember → Except EvalError (Ordered Value)
  | [] => .ok entries
  | .plain e :: items => do
    let v ← eval fs scope e
    evalKeyed fs scope (next + 1) (Ordered.put entries (Decimal.natText next) v) items
  | .keyed k e :: items => do
    let key ← eval fs scope k
    let v ← eval fs scope e
    evalKeyed fs scope next (Ordered.put entries key.display v) items
termination_by structural items => items

end

end Expr

/-- The evaluator with a table of functions: parse, then evaluate. -/
def Functions.evaluator (fs : Functions) : Evaluator := fun expression scope =>
  match Expr.parse expression with
  | .error e => .error e
  | .ok e => e.eval fs scope

end Stencil
