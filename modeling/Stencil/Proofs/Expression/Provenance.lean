import Stencil.Proofs.Expression.Inherited
/-
  Where the markup in the value of an expression comes from.

  A value carries a piece of markup when the piece is part of it, at any depth.  No source of an expression
  writes markup down and no built-in function or operator answers with it, so the markup that a value
  carries is carried by a value in the scope already.  The main statement says so, and that there is none
  where the scope has none.

  An expression need not come from a source, and then its literals may carry markup too.
-/

namespace Stencil

namespace Value

/-- A piece of markup is part of a value, at any depth. -/
inductive Carries (markup : String) : Value → Prop where
  | html : Carries markup (.html markup)
  | item {items : List Value} {v : Value} (hv : v ∈ items) (h : Carries markup v) :
      Carries markup (.list items)
  | entry {entries : List (String × Value)} {entry : String × Value} (hentry : entry ∈ entries)
      (h : Carries markup entry.2) : Carries markup (.map entries)

/-- A property of all markup in a value is a property of each piece that the value carries. -/
theorem allMarkup_iff {P : String → Prop} {v : Value} :
    v.AllMarkup P ↔ ∀ markup, v.Carries markup → P markup := by
  refine ⟨fun hall markup hmarkup => ?_, ?_⟩
  · induction hmarkup with
    | html =>
      cases hall with
      | html h => exact h
    | item hv _ ih =>
      cases hall with
      | list h => exact ih (h _ hv)
    | entry hentry _ ih =>
      cases hall with
      | map h => exact ih (h _ hentry)
  · induction v using inductionOnParts with
    | null => exact fun _ => .null
    | bool => exact fun _ => .bool
    | int => exact fun _ => .int
    | float => exact fun _ => .float
    | text => exact fun _ => .text
    | html markup => exact fun h => .html (h markup .html)
    | list items ih => exact fun h => .list fun v hv => ih v hv fun markup hm => h markup (.item hv hm)
    | map entries ih =>
      exact fun h => .map fun entry hentry => ih entry hentry fun markup hm => h markup (.entry hentry hm)

end Value

namespace Scope

/-- A piece of markup is part of what some name means in a scope. -/
def Carries (scope : Scope) (markup : String) : Prop := ∃ name, (scope.get name).Carries markup

theorem allMarkup_carries (scope : Scope) : scope.AllMarkup scope.Carries :=
  fun name => Value.allMarkup_iff.2 fun _ hmarkup => ⟨name, hmarkup⟩

end Scope

namespace Expr

/-- The markup in the value of an expression is in the scope or in a literal of the expression. -/
theorem carries_eval {scope : Scope} {e : Expr} {v : Value} (h : e.eval Functions.builtin scope = .ok v)
    {markup : String} (hmarkup : v.Carries markup) :
    scope.Carries markup ∨ ∃ literal ∈ e.literals, literal.Carries markup := by
  let P : String → Prop := fun markup =>
    scope.Carries markup ∨ ∃ literal ∈ e.literals, literal.Carries markup
  have hR := Value.inherited_allMarkup P
  have hscope (name : String) : (scope.get name).AllMarkup P :=
    Value.allMarkup_iff.2 fun _ hcarries => .inl ⟨name, hcarries⟩
  have hliterals (literal : Value) (hliteral : literal ∈ e.literals) : literal.AllMarkup P :=
    Value.allMarkup_iff.2 fun _ hcarries => .inr ⟨literal, hliteral, hcarries⟩
  have hsetting : Setting (Value.AllMarkup P) Functions.builtin scope :=
    ⟨hR, fun _ _ => Functions.keeps_builtin hR, hscope⟩
  exact Value.allMarkup_iff.1 (hsetting.eval e hliterals v h) markup hmarkup

end Expr

namespace Functions

/-- Evaluating makes no markup: what the value of an expression carries, the scope carries.  So the value
    carries none where the scope carries none.  That is so for every source, and for every expression
    whose literals carry no markup. -/
theorem evaluation_makes_no_markup (scope : Scope) :
    (∀ source v, builtin.evaluator source scope = .ok v →
      (∀ markup, v.Carries markup → scope.Carries markup) ∧
      ((∀ markup, ¬ scope.Carries markup) → ∀ markup, ¬ v.Carries markup)) ∧
    (∀ (e : Expr) v, (∀ literal ∈ e.literals, ∀ markup, ¬ literal.Carries markup) →
      e.eval builtin scope = .ok v →
      (∀ markup, v.Carries markup → scope.Carries markup) ∧
      ((∀ markup, ¬ scope.Carries markup) → ∀ markup, ¬ v.Carries markup)) := by
  have hempty {v : Value} (h : ∀ markup, v.Carries markup → scope.Carries markup) :
      (∀ markup, v.Carries markup → scope.Carries markup) ∧
      ((∀ markup, ¬ scope.Carries markup) → ∀ markup, ¬ v.Carries markup) :=
    ⟨h, fun hnone markup hmarkup => hnone markup (h markup hmarkup)⟩
  refine ⟨fun source v h => hempty ?_, fun e v hliterals h => hempty fun markup hmarkup => ?_⟩
  · exact Value.allMarkup_iff.1 (yields_builtin_evaluator scope.allMarkup_carries source v h)
  · rcases Expr.carries_eval h hmarkup with hscope | ⟨literal, hliteral, hcarries⟩
    · exact hscope
    · exact absurd hcarries (hliterals literal hliteral markup)

/-- The markup in a list comes from the scope, and a text made where there is none carries none. -/
theorem evaluation_makes_no_markup_list :
    let scope := Scope.root [("page", .html "<b>")]
    let joined : Expr := .binary .concat (.variable "page") (.literal (.text "!"))
    builtin.evaluator "[$page]" scope = .ok (.list [.html "<b>"]) ∧
      (∀ markup, Value.Carries markup (.list [.html "<b>"]) → scope.Carries markup) ∧
      joined.eval builtin (Scope.root []) = .ok (.text "!") ∧
      ∀ markup, ¬ Value.Carries markup (.text "!") := by
  intro scope joined
  have hparse : Expr.parse "[$page]" = .ok (.array [.plain (.variable "page")]) := by cbv
  have hlist : builtin.evaluator "[$page]" scope = .ok (.list [.html "<b>"]) := by
    rw [evaluator, hparse]
    rfl
  have hjoined : joined.eval builtin (Scope.root []) = .ok (.text "!") := by rfl
  have hliterals : ∀ literal ∈ joined.literals, ∀ markup, ¬ literal.Carries markup := by
    intro literal hliteral markup hmarkup
    obtain rfl := List.mem_singleton.1 hliteral
    cases hmarkup
  have hnone : ∀ markup, ¬ (Scope.root []).Carries markup := by
    rintro markup ⟨name, hmarkup⟩
    cases hmarkup
  refine ⟨hlist, ((evaluation_makes_no_markup scope).1 _ _ hlist).1, hjoined, ?_⟩
  exact ((evaluation_makes_no_markup (Scope.root [])).2 joined _ hliterals hjoined).2 hnone

end Functions

end Stencil
