import Stencil.Expression.Eval
import Stencil.Template.Directive
import Stencil.View.Error
/-
  What the directives of a tag make of it: the scopes its body is rendered in, one after the other.

  A condition written before a loop gates it: it is asked once, in the scope around the loop.  A condition
  written after a loop is asked in each round, where the names of the loop are bound, and picks the rounds.
  The scopes come before the outcome, since an error may end the expansion after some of them.
-/

namespace Stencil

/-- What became of the loop of a tag, for the fallback that may follow. -/
inductive LoopFate where
  | noLoop
  /-- A condition before the loop did not hold. -/
  | gated
  | empty
  | iterated
deriving DecidableEq, Repr

/-- What the directives of a tag came to. -/
structure Outcome where
  /-- Whether the tag was chosen: its condition held, or some round passed it. -/
  chosen : Bool
  loop : LoopFate
deriving DecidableEq, Repr

/-- The scopes of the bodies of a tag, in order, and the outcome or the error they end with. -/
structure Expansion where
  bodies : List Scope
  outcome : Except EvalError Outcome

namespace Expansion

/-- Whether a condition holds in a scope. -/
def holds (evaluate : Evaluator) (condition : Condition) (scope : Scope) : Except EvalError Bool :=
  match condition.test.expression? with
  | none => .ok true
  | some expression => (evaluate expression scope).map Value.truthy

/-- The scope of a round: a new frame with the names of the loop. -/
def roundScope (loop : Foreach) (scope : Scope) (key item : Value) : Scope :=
  let frame := scope.child
  let frame :=
    match loop.key with
    | some name => frame.set name key
    | none => frame
  frame.set loop.item item

/-- The rounds of a loop over entries, of which a filter may drop some. -/
def rounds (evaluate : Evaluator) (loop : Foreach) (filter : Option Condition) (scope : Scope)
    (chosen : Bool) : List (Value × Value) → Expansion
  | [] => ⟨[], .ok ⟨chosen, .iterated⟩⟩
  | (key, item) :: entries =>
    let inner := roundScope loop scope key item
    match filter with
    | none =>
      let more := rounds evaluate loop filter scope chosen entries
      ⟨inner :: more.bodies, more.outcome⟩
    | some condition =>
      match holds evaluate condition inner with
      | .error e => ⟨[], .error e⟩
      | .ok false => rounds evaluate loop filter scope chosen entries
      | .ok true =>
        let more := rounds evaluate loop filter scope true entries
        ⟨inner :: more.bodies, more.outcome⟩

/-- A loop, perhaps with a filter. -/
def loopOver (evaluate : Evaluator) (loop : Foreach) (filter : Option Condition) (scope : Scope) :
    Expansion :=
  match evaluate loop.iterable scope with
  | .error e => ⟨[], .error e⟩
  | .ok iterable =>
    match iterable.entries? with
    | none => ⟨[], .error (.type (.loop iterable.kind loop.iterable))⟩
    | some [] => ⟨[], .ok ⟨false, .empty⟩⟩
    | some entries => rounds evaluate loop filter scope filter.isNone entries

/-- The expansion of a tag by its directives. -/
def expand (evaluate : Evaluator) (d : Directives) (scope : Scope) : Expansion :=
  match d.condition, d.foreach? with
  | none, none => ⟨[scope], .ok ⟨true, .noLoop⟩⟩
  | none, some loop => loopOver evaluate loop none scope
  | some condition, none =>
    match holds evaluate condition scope with
    | .error e => ⟨[], .error e⟩
    | .ok true => ⟨[scope], .ok ⟨true, .noLoop⟩⟩
    | .ok false => ⟨[], .ok ⟨false, .noLoop⟩⟩
  | some condition, some loop =>
    if d.interplay = .conditionBeforeLoop then
      match holds evaluate condition scope with
      | .error e => ⟨[], .error e⟩
      | .ok false => ⟨[], .ok ⟨false, .gated⟩⟩
      | .ok true =>
        let all := loopOver evaluate loop none scope
        ⟨all.bodies, all.outcome.map fun outcome => { outcome with chosen := true }⟩
    else loopOver evaluate loop (some condition) scope

end Expansion

end Stencil
