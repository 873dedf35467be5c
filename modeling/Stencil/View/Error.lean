import Stencil.Expression.Error
import Stencil.Template.Error
import Stencil.Files.Path
/-
  What can go wrong while views are loaded, compiled and rendered.

  An error is its cause; its words and its short name are functions of the cause.
-/

namespace Stencil

/-- Why a view could not be loaded, compiled, registered or rendered. -/
inductive ViewError where
  | notFound (path : Path)
  /-- The source was refused. -/
  | template (e : TemplateError)
  | unknownComponent (name : String)
  | expression (e : EvalError)
  /-- Components are nested too deep. -/
  | recursiveComponent (name : String) (limit : Nat)
  /-- Elements and components, counted together, are nested too deep. -/
  | nestedTooDeeply (tag : String) (limit : Nat)
  | duplicateComponent (name first second : String)
  | unreadable (path : Path)
deriving DecidableEq, Repr

namespace ViewError

/-- The words for an error. -/
def message : ViewError → String
  | .notFound path => s!"View {path.text} not found"
  | .template e =>
    if e.problem.isDirective then s!"Invalid element: {e.problem.message}"
    else s!"Malformed template: {e.problem.message}"
  | .unknownComponent name => s!"Unknown view component <{name}>"
  | .expression e => e.message
  | .recursiveComponent name limit =>
    s!"View component <{name}> nested more than {limit} levels deep"
  | .nestedTooDeeply tag limit => s!"<{tag}> is nested more than {limit} levels deep"
  | .duplicateComponent name first second =>
    s!"View component <{name}> is defined twice: in {first} and in {second}"
  | .unreadable path => s!"Failed to read {path.text}"

/-- The short name of the kind of an error. -/
def code : ViewError → String
  | .notFound _ => "template-not-found"
  | .template e => e.code
  | .unknownComponent _ => "component-not-found"
  | .expression _ => "expression"
  | .recursiveComponent .. => "recursive-component"
  | .nestedTooDeeply .. => "nested-too-deeply"
  | .duplicateComponent .. => "duplicate-component"
  | .unreadable _ => "io"

/-- The stretch of a source that an error points to, if it points to one. -/
def span? : ViewError → Option Span
  | .template e => some e.span
  | _ => none

end ViewError

end Stencil
