import Stencil.Template.Node
import Stencil.View.Interpolation
/-
  What a reference to a component hands to it: props from its attributes, and content for its slots.
-/

namespace Stencil

namespace Props

/-- The value of a prop: an expression in the scope of the caller, the text with its expressions
    replaced there, or true for a name alone. -/
def value (evaluate : Evaluator) (scope : Scope) : AttributeValue → Except EvalError Value
  | .bare => .ok (.bool true)
  | .literal text => (Interpolation.interpolate evaluate scope text).map .text
  | .expression source => evaluate source scope

/-- Bind a prop under its name without hyphens, and as it is written where that is a different name
    of a variable. -/
def bind (props : Bindings) (name : String) (v : Value) : Bindings :=
  let camel := Html.camelCase name
  let props := if Html.isVariableName name && camel != name then Ordered.put props name v else props
  if Html.isVariableName camel then Ordered.put props camel v else props

/-- Bind attributes one after the other. -/
def bindFrom (evaluate : Evaluator) (scope : Scope) (props : Bindings) :
    List Attribute → Except EvalError Bindings
  | [] => .ok props
  | a :: more => do
    let v ← value evaluate scope a.value
    bindFrom evaluate scope (bind props a.name v) more

/-- The props that attributes make. -/
def ofAttributes (evaluate : Evaluator) (scope : Scope) (attributes : List Attribute) :
    Except EvalError Bindings :=
  bindFrom evaluate scope [] attributes

end Props

/-- The content that a reference has for the slots of its component. -/
structure SlotSupply where
  default : List Node
  named : List (String × List Node)

namespace SlotSupply

/-- The content for a slot; there is none where nothing would show. -/
def select (content : SlotSupply) (name : Option String) : Option (List Node) :=
  let nodes? :=
    match name with
    | none => some content.default
    | some name =>
      if name == "default" then some content.default else Ordered.get? content.named name
  nodes?.filter fun nodes => !nodes.all Node.saysNothing

end SlotSupply

end Stencil
