import Stencil.Value.Basic
/-
  Scopes: frames of bindings, one inside the other.

  A name means its innermost binding, and null where it has none.  Entering a loop or a component adds a
  frame or starts anew; it never touches the frames outside.
-/

namespace Stencil

/-- A frame of bindings and the frames around it, from the inside out. -/
structure Scope where
  own : Bindings
  outer : List Bindings := []
deriving Inhabited

namespace Scope

/-- A scope of one frame. -/
def root (bindings : Bindings) : Scope := ⟨bindings, []⟩

/-- A new, empty frame inside a scope. -/
def child (s : Scope) : Scope := ⟨[], s.own :: s.outer⟩

/-- The scope around the innermost frame, if there is one. -/
def parent? (s : Scope) : Option Scope :=
  match s.outer with
  | [] => none
  | own :: outer => some ⟨own, outer⟩

/-- Bind a name in the innermost frame. -/
def set (s : Scope) (name : String) (value : Value) : Scope :=
  { s with own := Ordered.put s.own name value }

/-- The innermost binding of a name in a list of frames. -/
def lookupIn : List Bindings → String → Option Value
  | [], _ => none
  | frame :: frames, name =>
    match Ordered.get? frame name with
    | some v => some v
    | none => lookupIn frames name

/-- The innermost binding of a name. -/
def lookup (s : Scope) (name : String) : Option Value := lookupIn (s.own :: s.outer) name

/-- What a name means: null where it is not bound. -/
def get (s : Scope) (name : String) : Value := (s.lookup name).getD .null

/-- Whether a name is bound in any frame. -/
def contains (s : Scope) (name : String) : Bool := (s.lookup name).isSome

/-- The number of frames. -/
def depth (s : Scope) : Nat := s.outer.length + 1

theorem get_child (s : Scope) (name : String) : s.child.get name = s.get name := rfl

theorem get_set (s : Scope) (name other : String) (value : Value) :
    (s.set name value).get other = if name = other then value else s.get other := by
  by_cases h : name = other <;> simp [get, lookup, lookupIn, set, Ordered.get?_put, h]

end Scope

end Stencil
