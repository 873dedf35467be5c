import Stencil.Expression.Eval
/-
  Expressions see scopes through the values of names.

  Two scopes are alike when every name has the same value in both, null where it is not bound: how many
  frames they have, in which order the bindings were made and what they hide does not matter.  Frames that
  are put on top of both leave them alike.

  The main statement is that an expression has the same value, or the same error, in scopes that are alike.
-/

namespace Stencil

/-! ## Scopes that are alike -/

namespace Scope

/-- Every name has the same value in both scopes. -/
def Alike (σ τ : Scope) : Prop := ∀ name, σ.get name = τ.get name

variable {σ τ : Scope}

theorem Alike.refl (σ : Scope) : σ.Alike σ := fun _ => rfl

theorem Alike.child (h : σ.Alike τ) : σ.child.Alike τ.child := by
  intro name
  rw [get_child, get_child]
  exact h name

theorem Alike.set (h : σ.Alike τ) (name : String) (v : Value) : (σ.set name v).Alike (τ.set name v) := by
  intro other
  rw [get_set, get_set, h other]

/-- A name that is not bound may as well be bound to null. -/
theorem alike_set_null {name : String} (h : σ.lookup name = none) : (σ.set name .null).Alike σ := by
  intro other
  rw [get_set]
  split
  · next hname =>
    subst hname
    rw [get, h, Option.getD_none]
  · rfl

end Scope

/-! ## Expressions -/

namespace Expr

variable {σ τ : Scope}

mutual

theorem eval_congr (h : σ.Alike τ) (fs : Functions) (e : Expr) : eval fs σ e = eval fs τ e :=
  match e with
  | .literal _ => rfl
  | .variable name => congrArg Except.ok (h name)
  | .property target name => by rw [eval, eval, eval_congr h fs target]
  | .index target key => by rw [eval, eval, eval_congr h fs target, eval_congr h fs key]
  | .call function arguments => by rw [eval, eval, evalAll_congr h fs arguments]
  | .array items => by
    rw [eval, eval, evalPlain_congr h fs items, evalKeyed_congr h fs 0 [] items]
  | .unary op operand => by rw [eval, eval, eval_congr h fs operand]
  | .binary op left right => by rw [eval, eval, eval_congr h fs left, eval_congr h fs right]
  | .ternary condition yes no => by
    rw [eval, eval, eval_congr h fs condition, eval_congr h fs yes, eval_congr h fs no]
  | .orElse condition no => by rw [eval, eval, eval_congr h fs condition, eval_congr h fs no]
termination_by structural e

theorem evalAll_congr (h : σ.Alike τ) (fs : Functions) (es : List Expr) :
    evalAll fs σ es = evalAll fs τ es := by
  cases es with
  | nil => rfl
  | cons e es => rw [evalAll, evalAll, eval_congr h fs e, evalAll_congr h fs es]
termination_by structural es

theorem evalPlain_congr (h : σ.Alike τ) (fs : Functions) (items : List ArrayMember) :
    evalPlain fs σ items = evalPlain fs τ items := by
  cases items with
  | nil => rfl
  | cons item items =>
    cases item with
    | plain e => rw [evalPlain, evalPlain, eval_congr h fs e, evalPlain_congr h fs items]
    | keyed _ e => rw [evalPlain, evalPlain, eval_congr h fs e, evalPlain_congr h fs items]
termination_by structural items

theorem evalKeyed_congr (h : σ.Alike τ) (fs : Functions) (next : Nat) (entries : Ordered Value)
    (items : List ArrayMember) : evalKeyed fs σ next entries items = evalKeyed fs τ next entries items := by
  cases items with
  | nil => rfl
  | cons item items =>
    -- the entries so far differ from item to item
    have hrest := fun next entries => evalKeyed_congr h fs next entries items
    cases item with
    | plain e => simp only [evalKeyed, eval_congr h fs e, hrest]
    | keyed k e => simp only [evalKeyed, eval_congr h fs k, eval_congr h fs e, hrest]
termination_by structural items

end

end Expr

/-- An evaluator that sees a scope through the values of names. -/
def Evaluator.ByNames (evaluate : Evaluator) : Prop :=
  ∀ source σ τ, Scope.Alike σ τ → evaluate source σ = evaluate source τ

/-- Expressions that are parsed and evaluated see a scope through the values of names, whatever functions
    they may call. -/
theorem Functions.evaluator_byNames (fs : Functions) : fs.evaluator.ByNames := by
  intro source σ τ h
  unfold evaluator
  cases Expr.parse source with
  | error err => rfl
  | ok e => exact e.eval_congr h fs

end Stencil
