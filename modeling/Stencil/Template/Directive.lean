import Stencil.Source.Span
/-
  Directives: the attributes that decide whether and how often a tag is rendered.

  A tag carries at most one condition and at most one of the two loop directives, so these are the two
  fields of a set of directives.  Which of a condition and a loop was written first decides how they
  work together.
-/

namespace Stencil

/-- The conditional directives. -/
inductive ConditionKind where
  | ifTrue
  | elseIf
  | otherwise
deriving DecidableEq, Repr

/-- How a conditional directive is written. -/
def ConditionKind.written : ConditionKind → String
  | .ifTrue => ":if"
  | .elseIf => ":elseif"
  | .otherwise => ":else"

/-- When a condition holds: by an expression, or always. -/
inductive Test where
  | ifTrue (expression : String)
  | elseIf (expression : String)
  | otherwise
deriving DecidableEq, Repr

namespace Test

/-- The directive a test was written with. -/
def kind : Test → ConditionKind
  | .ifTrue _ => .ifTrue
  | .elseIf _ => .elseIf
  | .otherwise => .otherwise

/-- The expression of a test, if it has one. -/
def expression? : Test → Option String
  | .ifTrue e => some e
  | .elseIf e => some e
  | .otherwise => none

end Test

/-- A condition on a tag, with its place among all attributes of the tag. -/
structure Condition where
  test : Test
  position : Nat
  span : Span
deriving DecidableEq, Repr

/-- A loop: `<iterable> as $key => $item`, with the key optional. -/
structure Foreach where
  source : String
  iterable : String
  key : Option String
  item : String
  position : Nat
  span : Span
deriving DecidableEq, Repr

/-- What is rendered in place of a loop over nothing. -/
structure Forelse where
  position : Nat
  span : Span
deriving DecidableEq, Repr

/-- The loop directives. -/
inductive LoopDirective where
  | foreach (loop : Foreach)
  | forelse (fallback : Forelse)
deriving DecidableEq, Repr

/-- The directives of a tag. -/
structure Directives where
  condition : Option Condition := none
  loop : Option LoopDirective := none
deriving DecidableEq, Repr, Inhabited

/-- How the condition and the loop of a tag work together. -/
inductive Interplay where
  | plain
  | conditionOnly
  | loopOnly
  /-- The condition is asked once and gates the whole loop. -/
  | conditionBeforeLoop
  /-- The condition is asked for each round of the loop. -/
  | loopBeforeCondition
deriving DecidableEq, Repr

namespace Directives

/-- The loop of a tag, if it has one. -/
def foreach? (d : Directives) : Option Foreach :=
  match d.loop with
  | some (.foreach loop) => some loop
  | _ => none

/-- The fallback of a tag, if it is one. -/
def forelse? (d : Directives) : Option Forelse :=
  match d.loop with
  | some (.forelse fallback) => some fallback
  | _ => none

/-- The kind of the condition of a tag, if it has one. -/
def conditionKind? (d : Directives) : Option ConditionKind :=
  d.condition.map fun condition => condition.test.kind

/-- How the condition and the loop work together, by which was written first. -/
def interplay (d : Directives) : Interplay :=
  match d.condition, d.foreach? with
  | some condition, some loop =>
    if condition.position < loop.position then .conditionBeforeLoop else .loopBeforeCondition
  | some _, none => .conditionOnly
  | none, some _ => .loopOnly
  | none, none => .plain

end Directives

end Stencil
