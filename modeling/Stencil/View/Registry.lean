import Stencil.Ordered
import Stencil.View.Error
import Stencil.View.Source
/-
  The registry of components.

  A component belongs to the application or to a vendor.  A component of the application takes the place of
  a vendor's of the same name, whichever comes first; of several vendors' the last one counts; two of the
  application are an error.  A name keeps the place of its first registration.
-/

namespace Stencil

/-- A registered component. -/
structure RegisteredComponent where
  name : String
  source : ViewSource
  /-- The file the component was found in, if it was found in one. -/
  origin : Option Path
  vendor : Bool
deriving DecidableEq, Repr

/-- How the origin of a component is shown. -/
def RegisteredComponent.originText (d : RegisteredComponent) : String :=
  match d.origin with
  | some p => p.text
  | none => "<inline>"

/-- What a registration has done. -/
inductive Registration where
  | added
  | replaced
  /-- A vendor's component gives way to one of the application. -/
  | ignored
deriving DecidableEq, Repr

/-- Components, each under its own name. -/
structure Registry where
  entries : Ordered RegisteredComponent
  named : ∀ entry ∈ entries, entry.2.name = entry.1

namespace Registry

/-- No components. -/
def empty : Registry where
  entries := []
  named := by
    intro entry hentry
    cases hentry

instance : Inhabited Registry := ⟨empty⟩

instance : EmptyCollection Registry := ⟨empty⟩

/-- The component of a name. -/
def get? (r : Registry) (name : String) : Option RegisteredComponent := Ordered.get? r.entries name

/-- Whether a name is registered. -/
def contains (r : Registry) (name : String) : Bool := (r.get? name).isSome

/-- The names in the order of their first registration. -/
def names (r : Registry) : List String := Ordered.keys r.entries

/-- The components in the order of the first registration of their names. -/
def definitions (r : Registry) : List RegisteredComponent := r.entries.map Prod.snd

/-- The number of components. -/
def size (r : Registry) : Nat := r.entries.length

/-- The registry with a component under its name. -/
def put (r : Registry) (d : RegisteredComponent) : Registry where
  entries := Ordered.put r.entries d.name d
  named := by
    intro entry hentry
    rcases Ordered.mem_put hentry with hentry | rfl
    · exact r.named entry hentry
    · rfl

/-- Register a component. -/
def register (r : Registry) (d : RegisteredComponent) :
    Except ViewError (Registration × Registry) :=
  match r.get? d.name with
  | none => .ok (.added, r.put d)
  | some existing =>
    if existing.vendor then .ok (.replaced, r.put d)
    else if d.vendor then .ok (.ignored, r)
    else .error (.duplicateComponent d.name existing.originText d.originText)

theorem get?_put (r : Registry) (d : RegisteredComponent) (name : String) :
    (r.put d).get? name = if d.name = name then some d else r.get? name :=
  Ordered.get?_put r.entries d.name name d

/-- The component of a name has that name. -/
theorem name_of_get?_eq_some {r : Registry} {name : String} {d : RegisteredComponent}
    (h : r.get? name = some d) : d.name = name :=
  r.named _ (Ordered.mem_of_get?_eq_some h)

end Registry

end Stencil
