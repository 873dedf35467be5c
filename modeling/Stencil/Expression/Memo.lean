import Stencil.Expression.Eval
/-
  Expressions that are parsed once.

  An evaluator keeps each expression that it has parsed under its text, and parses no text twice that it keeps.
  A text that is no expression is not kept.
-/

namespace Stencil

/-- Parsed expressions by their texts, the latest first. -/
structure Memo where
  entries : List (String × Expr)
  parsed : ∀ entry ∈ entries, Expr.parse entry.1 = .ok entry.2

namespace Memo

/-- Nothing parsed yet. -/
def empty : Memo where
  entries := []
  parsed := by
    intro entry hentry
    cases hentry

instance : EmptyCollection Memo := ⟨empty⟩

/-- The expression kept under a text. -/
def get? (μ : Memo) (text : String) : Option Expr :=
  (μ.entries.find? fun entry => entry.1 = text).map Prod.snd

/-- The memo with an expression under its text. -/
def keep (μ : Memo) (text : String) (expr : Expr) (h : Expr.parse text = .ok expr) : Memo where
  entries := (text, expr) :: μ.entries
  parsed := by
    intro entry hentry
    rcases List.mem_cons.1 hentry with rfl | hentry
    · exact h
    · exact μ.parsed entry hentry

/-- The expression of a text, and the memo after it was asked for. -/
def parse (μ : Memo) (text : String) : Except EvalError Expr × Memo :=
  match μ.get? text with
  | some expr => (.ok expr, μ)
  | none =>
    match h : Expr.parse text with
    | .ok expr => (.ok expr, μ.keep text expr h)
    | .error err => (.error err, μ)

/-- The value of the expression of a text in a scope, and the memo after it was asked for. -/
def evaluate (fs : Functions) (μ : Memo) (text : String) (scope : Scope) :
    Except EvalError Value × Memo :=
  match μ.parse text with
  | (.ok expr, μ) => (expr.eval fs scope, μ)
  | (.error err, μ) => (.error err, μ)

theorem parse_of_get?_eq_some {μ : Memo} {text : String} {expr : Expr} (h : μ.get? text = some expr) :
    Expr.parse text = .ok expr := by
  obtain ⟨entry, hfind, rfl⟩ := Option.map_eq_some_iff.1 h
  have htext : entry.1 = text := by simpa using List.find?_some hfind
  rw [← htext]
  exact μ.parsed entry (List.mem_of_find?_eq_some hfind)

/-- A memo answers as if every text were parsed anew. -/
theorem answer_parse (μ : Memo) (text : String) : (μ.parse text).1 = Expr.parse text := by
  unfold parse
  split
  · next hget => exact (parse_of_get?_eq_some hget).symm
  · split <;> next h => exact h.symm

theorem answer_evaluate (fs : Functions) (μ : Memo) (text : String) (scope : Scope) :
    (μ.evaluate fs text scope).1 = fs.evaluator text scope := by
  have hparse := μ.answer_parse text
  unfold evaluate Functions.evaluator
  rw [← hparse]
  rcases μ.parse text with ⟨_ | _, _⟩ <;> rfl

end Memo

end Stencil
