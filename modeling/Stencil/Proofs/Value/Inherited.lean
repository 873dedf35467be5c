import Stencil.Scope
import Stencil.Value.Arithmetic
import Stencil.Value.Display
/-
  Properties that go over from parts of values to the whole and back.

  A property is inherited when a list or a map has it just if its parts have it, as long as no key occurs
  twice in the map, and all other values but markup have it anyway.  What is taken out of a value with such a
  property has it too, and so has all that arithmetic computes, since that is numbers.
-/

namespace Stencil

/-- A property that values other than markup have by themselves, or from their parts, and hand on to
    these. -/
structure Value.Inherited (R : Value → Prop) : Prop where
  null : R .null
  bool (b : Bool) : R (.bool b)
  int (n : Int64) : R (.int n)
  float (x : Float) : R (.float x)
  text (s : String) : R (.text s)
  list {items : List Value} (h : ∀ v ∈ items, R v) : R (.list items)
  map {entries : List (String × Value)} (hkeys : Ordered.Distinct entries)
    (h : ∀ entry ∈ entries, R entry.2) : R (.map entries)
  items {items : List Value} (h : R (.list items)) : ∀ v ∈ items, R v
  entries {entries : List (String × Value)} (h : R (.map entries)) : ∀ entry ∈ entries, R entry.2

namespace Ordered

variable {α : Type} {R : α → Prop}

/-- What is put into a map becomes one of its values, next to those that were there. -/
theorem forall_mem_put {m : Ordered α} (h : ∀ entry ∈ m, R entry.2) (key : String) {v : α} (hv : R v) :
    ∀ entry ∈ put m key v, R entry.2 := by
  intro entry hentry
  rcases mem_put hentry with hentry | rfl
  · exact h entry hentry
  · exact hv

theorem get?_getD {m : Ordered α} (h : ∀ entry ∈ m, R entry.2) {default : α} (hdefault : R default)
    (key : String) : R ((get? m key).getD default) := by
  cases hget : get? m key with
  | none => exact hdefault
  | some v => exact h _ (mem_of_get?_eq_some hget)

end Ordered

namespace Value.Inherited

variable {R : Value → Prop} (hR : Inherited R) {v w : Value}

include hR

/-! ## Parts of values -/

theorem property (h : R v) (name : String) : R (v.property name) := by
  cases v with
  | map entries => exact Ordered.get?_getD (hR.entries h) hR.null name
  | _ => exact hR.null

theorem itemAt {items : List Value} (h : ∀ v ∈ items, R v) (n : Int) : R (itemAt items n) := by
  unfold Value.itemAt
  split
  · exact hR.null
  · cases hitem : items[n.toNat]? with
    | none => exact hR.null
    | some v => exact h v (List.mem_of_getElem? hitem)

theorem index (h : R v) (key : Value) : R (v.index key) := by
  unfold Value.index
  split
  · exact hR.itemAt (hR.items h) _
  · split
    · exact hR.itemAt (hR.items h) _
    · exact hR.null
  · exact Ordered.get?_getD (hR.entries h) hR.null _
  · exact hR.null

/-! ## Arithmetic -/

theorem number (n : Number) : R n.toValue := by
  cases n with
  | int n => exact hR.int n
  | float x => exact hR.float x

theorem negate (h : v.negate = .ok w) : R w := by
  unfold Value.negate at h
  split at h
  · cases h
    exact hR.number _
  · cases h
    exact hR.float _
  · cases h

theorem exactOr (exact : Int → Int → Int) (inexact : Float → Float → Float) (l r : Number) :
    R (ArithmeticOp.exactOr exact inexact l r) := by
  unfold ArithmeticOp.exactOr
  split
  · exact hR.number _
  · exact hR.float _

theorem onNumbers {op : ArithmeticOp} {l r : Number} (h : op.onNumbers l r = .ok v) : R v := by
  cases op with
  | add => exact Except.ok.inj h ▸ hR.exactOr _ _ l r
  | subtract => exact Except.ok.inj h ▸ hR.exactOr _ _ l r
  | multiply => exact Except.ok.inj h ▸ hR.exactOr _ _ l r
  | divide =>
    simp only [ArithmeticOp.onNumbers, ArithmeticOp.quotient] at h
    split at h
    · cases h
    · split at h
      · split at h <;> cases h
        · exact hR.number _
        · exact hR.float _
      · cases h
        exact hR.float _
  | modulo =>
    simp only [ArithmeticOp.onNumbers, ArithmeticOp.remainder] at h
    split at h <;> cases h
    exact hR.int _

theorem arithmetic {op : ArithmeticOp} {l r : Value} (h : op.apply l r = .ok v) : R v := by
  unfold ArithmeticOp.apply at h
  split at h
  · exact hR.onNumbers h
  · cases h

/-! ## Scopes -/

/-- What holds of the values in a frame holds of what names mean in a scope of that frame alone. -/
theorem root {bindings : Bindings} (h : ∀ entry ∈ bindings, R entry.2) (name : String) :
    R ((Scope.root bindings).get name) := by
  have hlookup : (Scope.root bindings).get name = (Ordered.get? bindings name).getD .null := by
    simp only [Scope.get, Scope.lookup, Scope.root, Scope.lookupIn]
    cases Ordered.get? bindings name <;> rfl
  rw [hlookup]
  exact Ordered.get?_getD h hR.null name

end Value.Inherited

end Stencil
