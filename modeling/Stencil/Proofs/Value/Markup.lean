import Stencil.Proofs.Value.Inherited
/-
  The markup inside values.

  A property of markup goes over to a value when every piece of markup in it, at any depth, has the
  property.  What is taken out of such a value has it too, and what arithmetic computes has no markup at
  all.
-/

namespace Stencil

/-- All markup in a value, at any depth, has a property. -/
inductive Value.AllMarkup (P : String → Prop) : Value → Prop where
  | null : AllMarkup P .null
  | bool {b : Bool} : AllMarkup P (.bool b)
  | int {n : Int64} : AllMarkup P (.int n)
  | float {x : Float} : AllMarkup P (.float x)
  | text {s : String} : AllMarkup P (.text s)
  | html {markup : String} (h : P markup) : AllMarkup P (.html markup)
  | list {items : List Value} (h : ∀ v ∈ items, AllMarkup P v) : AllMarkup P (.list items)
  | map {entries : List (String × Value)} (h : ∀ entry ∈ entries, AllMarkup P entry.2) :
      AllMarkup P (.map entries)

/-- All markup in the bindings has a property. -/
def Bindings.AllMarkup (P : String → Prop) (bindings : Bindings) : Prop :=
  ∀ entry ∈ bindings, entry.2.AllMarkup P

theorem Bindings.AllMarkup.put {P : String → Prop} {bindings : Bindings} (h : bindings.AllMarkup P)
    (key : String) {v : Value} (hv : v.AllMarkup P) :
    Bindings.AllMarkup P (Ordered.put bindings key v) :=
  Ordered.forall_mem_put h key hv

/-- All markup that names mean in a scope has a property. -/
def Scope.AllMarkup (P : String → Prop) (scope : Scope) : Prop :=
  ∀ name, (scope.get name).AllMarkup P

theorem Value.inherited_allMarkup (P : String → Prop) : Value.Inherited (Value.AllMarkup P) where
  null := .null
  bool _ := .bool
  int _ := .int
  float _ := .float
  text _ := .text
  list h := .list h
  map _ h := .map h
  items h := by
    cases h with
    | list h => exact h
  entries h := by
    cases h with
    | map h => exact h

theorem Scope.allMarkup_root {P : String → Prop} {bindings : Bindings} (h : bindings.AllMarkup P) :
    (Scope.root bindings).AllMarkup P :=
  (Value.inherited_allMarkup P).root h

end Stencil
