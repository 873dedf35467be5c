import Stencil.View.Component
import Stencil.View.Engine
import Stencil.View.Expansion
/-
  Rendering a compiled template.

  Rendering walks a list of siblings and keeps what a chain of conditions and a loop before a fallback
  need to know.  A component is rendered in a scope of its own; the content of its caller, and the scope it
  belongs to, are put on a stack of fillings.  A slot marker takes the top filling off for as long as it
  renders the caller's content, so that slot markers inside that content mean the caller's own slots.

  It ends because each element and component is one level deeper, up to a limit, because content for a slot
  is rendered with fewer fillings, and because all else is part of what contains it.
-/

namespace Stencil

/-- Rendering may fail, and leaves a store behind either way. -/
abbrev Rendering := ExceptT ViewError (StateM Store)

/-- What the caller of a component has put in: the content for its slots, and the scope it belongs to. -/
structure Filling where
  content : SlotSupply
  scope : Scope

/-- What is known of the siblings before: whether the chain has chosen, and what became of the loop. -/
structure Progress where
  chosen : Bool := false
  loop : LoopFate := .noLoop
deriving DecidableEq, Repr

namespace Progress

/-- Whether a tag begins or continues a chain that has already chosen. -/
def chosenBefore (p : Progress) (tag : Tag) : Bool :=
  if tag.links.chain = some .head then false else p.chosen

/-- Whether a tag is passed over: the chain has chosen, or there is no empty loop to fall back from. -/
def skips (p : Progress) (tag : Tag) : Bool :=
  ((tag.links.chain = some .link || tag.links.chain = some .tail) && p.chosenBefore tag) ||
    (tag.directives.forelse?.isSome && p.loop != .empty)

/-- What is known after a tag that was passed over. -/
def afterSkipped (p : Progress) (tag : Tag) : Progress := ⟨p.chosenBefore tag, .noLoop⟩

/-- What is known after a tag with an outcome. -/
def after (p : Progress) (tag : Tag) (outcome : Outcome) : Progress :=
  ⟨p.chosenBefore tag || (tag.links.chain.isSome && outcome.chosen), outcome.loop⟩

end Progress

namespace Render

/-- The text of an attribute, with a blank in front; there is none for null and false. -/
def attributeText (evaluate : Evaluator) (scope : Scope) (a : Attribute) :
    Except EvalError String :=
  let withValue (text : String) : String := " " ++ a.name ++ "=\"" ++ text ++ "\""
  match a.value with
  | .bare => .ok (" " ++ a.name)
  | .literal text =>
    (Interpolation.interpolate evaluate scope text).map fun s => withValue (Html.attributeText s)
  | .expression source =>
    (evaluate source scope).map fun v =>
      match v with
      | .null | .bool false => ""
      | .bool true => " " ++ a.name
      | v => withValue (Html.escapeValue v)

/-- The texts of attributes. -/
def attributesText (evaluate : Evaluator) (scope : Scope) :
    List Attribute → Except EvalError String
  | [] => .ok ""
  | a :: more => do
    let text ← attributeText evaluate scope a
    let rest ← attributesText evaluate scope more
    .ok (text ++ rest)

/-- An opening tag as it is written. -/
def openingText (evaluate : Evaluator) (scope : Scope) (tag : Tag) : Except EvalError String :=
  (attributesText evaluate scope tag.attributes).map fun text => "<" ++ tag.name ++ text ++ ">"

/-- What an evaluation gives, in a rendering. -/
def evaluated {α : Type} (result : Except EvalError α) : Rendering α :=
  match result with
  | .ok a => pure a
  | .error e => throw (.expression e)

/-- The template of a component, in a rendering. -/
def component (e : Engine) (name : String) : Rendering Template := e.componentIn name

mutual

/-- Render siblings. -/
def nodes (e : Engine) (fillings : List Filling) (nesting : Nat) (scope : Scope)
    (progress : Progress) (ns : List Node) : Rendering String :=
  match ns with
  | [] => pure ""
  | .text content _ :: rest => do
    let more ← nodes e fillings nesting scope progress rest
    pure (content ++ more)
  | .comment _ _ :: rest => nodes e fillings nesting scope progress rest
  | .expression source escaped _ :: rest => do
    let v ← evaluated (e.evaluator source scope)
    let more ← nodes e fillings nesting scope progress rest
    pure (Interpolation.shown escaped v ++ more)
  | .slot name fallback _ :: rest => do
    let text ←
      match fillings with
      | [] => nodes e [] nesting scope {} fallback
      | filling :: outer =>
        match filling.content.select name with
        | some content => nodes e outer nesting filling.scope {} content
        | none => nodes e (filling :: outer) nesting scope {} fallback
    let more ← nodes e fillings nesting scope progress rest
    pure (text ++ more)
  | .element tag selfClosing children span :: rest =>
    if progress.skips tag then
      nodes e fillings nesting scope (progress.afterSkipped tag) rest
    else do
      let expansion := Expansion.expand e.evaluator tag.directives scope
      let texts ← expansion.bodies.mapM fun inner =>
        once e fillings nesting inner (.element tag selfClosing children span)
      let outcome ← evaluated expansion.outcome
      let more ← nodes e fillings nesting scope (progress.after tag outcome) rest
      pure (String.join texts ++ more)
  | .component tag children slots span :: rest =>
    if progress.skips tag then
      nodes e fillings nesting scope (progress.afterSkipped tag) rest
    else do
      let expansion := Expansion.expand e.evaluator tag.directives scope
      let texts ← expansion.bodies.mapM fun inner =>
        once e fillings nesting inner (.component tag children slots span)
      let outcome ← evaluated expansion.outcome
      let more ← nodes e fillings nesting scope (progress.after tag outcome) rest
      pure (String.join texts ++ more)
termination_by (e.options.maxDepth - nesting, fillings.length, sizeOf ns)

/-- Render an element or a component once, its directives aside. -/
def once (e : Engine) (fillings : List Filling) (nesting : Nat) (scope : Scope) (n : Node) :
    Rendering String :=
  match n with
  | .element tag _ children _ =>
    if nesting < e.options.maxDepth then do
      let opening ← evaluated (openingText e.evaluator scope tag)
      if Element.isVoid tag.name then pure opening
      else do
        let inside ← nodes e fillings (nesting + 1) scope {} children
        pure (opening ++ inside ++ "</" ++ tag.name ++ ">")
    else throw (.nestedTooDeeply tag.name e.options.maxDepth)
  | .component tag children slots _ =>
    if nesting < e.options.maxDepth then
      if fillings.length < e.options.maxComponentDepth then do
        let template ← component e tag.name
        let props ← evaluated (Props.ofAttributes e.evaluator scope tag.attributes)
        nodes e (⟨⟨children, slots⟩, scope⟩ :: fillings) (nesting + 1) (Scope.root props) {}
          template.children
      else throw (.recursiveComponent tag.name e.options.maxComponentDepth)
    else throw (.nestedTooDeeply tag.name e.options.maxDepth)
  | _ => pure ""
termination_by (e.options.maxDepth - nesting, fillings.length, sizeOf n)

end

/-- Render a whole template with bindings. -/
def template (e : Engine) (t : Template) (bindings : Bindings) : Rendering String :=
  nodes e [] 0 (Scope.root bindings) {} t.children

end Render

/-- Render a view: compile it, let the processors change the bindings, and render what was compiled. -/
def Engine.render (e : Engine) (source : ViewSource) (bindings : Bindings) :
    Except ViewError String × Engine :=
  match e.compileIn source e.store with
  | (.error err, store) => (.error err, { e with store := store })
  | (.ok t, store) =>
    let (result, store) := (Render.template e t (e.finalBindings source bindings)).run store
    (result, { e with store := store })

end Stencil
