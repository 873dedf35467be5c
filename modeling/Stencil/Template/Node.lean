import Stencil.Template.Directive
import Stencil.Template.Element
import Stencil.Text.Blank
/-
  Templates as trees.

  A template is a list of nodes.  Elements and references to components carry a tag: a name, the
  attributes that are kept, and the directives, which were taken out of the attributes.  A slot
  marker stands in the template of a component where content of its caller goes.
-/

namespace Stencil

/-- The value an attribute was written with. -/
inductive AttributeValue where
  /-- The name alone. -/
  | bare
  | literal (text : String)
  /-- An expression, from an attribute written with a colon in front. -/
  | expression (source : String)
deriving DecidableEq, Repr

/-- An attribute that is kept, by its name without the mark of an expression. -/
structure Attribute where
  name : String
  value : AttributeValue
  span : Span
deriving DecidableEq, Repr

/-- The place of a tag in a chain of conditions. -/
inductive ChainPlace where
  | head
  | link
  | tail
deriving DecidableEq, Repr

/-- What a tag is to its neighbours: its place in a chain, and whether the next tag is its fallback. -/
structure Links where
  chain : Option ChainPlace := none
  hasFallback : Bool := false
deriving DecidableEq, Repr, Inhabited

/-- The opening tag of an element or a component. -/
structure Tag where
  name : String
  attributes : List Attribute
  directives : Directives
  nameSpan : Span
  links : Links := {}
deriving DecidableEq, Repr

/-- A node of a template. -/
inductive Node where
  /-- Text that is copied as it stands. -/
  | text (content : String) (span : Span)
  /-- An interpolated expression, whose value is escaped or not. -/
  | expression (source : String) (escaped : Bool) (span : Span)
  /-- A remark that leaves no trace. -/
  | comment (content : String) (span : Span)
  | element (tag : Tag) (selfClosing : Bool) (children : List Node) (span : Span)
  /-- A reference to a component, with the content for its default slot and for its named slots. -/
  | component (tag : Tag) (children : List Node) (slots : List (String × List Node)) (span : Span)
  /-- A slot marker, with what is rendered where the caller gives nothing. -/
  | slot (name : Option String) (fallback : List Node) (span : Span)
deriving Inhabited

/-- A template: its nodes and the span of its source. -/
structure Template where
  children : List Node
  span : Span
deriving Inhabited

namespace Node

/-- The span of a node. -/
def span : Node → Span
  | .text _ s | .expression _ _ s | .comment _ s => s
  | .element _ _ _ s | .component _ _ _ s | .slot _ _ s => s

/-- The tag of a node, if it has one. -/
def tag? : Node → Option Tag
  | .element tag .. => some tag
  | .component tag .. => some tag
  | _ => none

/-- The directives of a node, if it can carry any. -/
def directives? (n : Node) : Option Directives := n.tag?.map Tag.directives

/-- The node with other links; nodes without a tag have none. -/
def withLinks (links : Links) : Node → Node
  | .element tag selfClosing children span =>
    .element { tag with links := links } selfClosing children span
  | .component tag children slots span =>
    .component { tag with links := links } children slots span
  | n => n

/-- Whether a node says nothing between two tags: blank text, or a comment. -/
def saysNothing : Node → Bool
  | .text content _ => Text.isBlankText content
  | .comment .. => true
  | _ => false

mutual

/-- The names of the components referred to in a node, in the order of their references. -/
def references : Node → List String
  | .text .. | .expression .. | .comment .. => []
  | .element _ _ children _ => referencesAll children
  | .component tag children slots _ =>
    tag.name :: (referencesAll children ++ referencesSlots slots)
  | .slot _ fallback _ => referencesAll fallback
termination_by structural n => n

/-- The names of the components referred to in a list of nodes. -/
def referencesAll : List Node → List String
  | [] => []
  | n :: ns => references n ++ referencesAll ns
termination_by structural ns => ns

/-- The names of the components referred to in the content of named slots. -/
def referencesSlots : List (String × List Node) → List String
  | [] => []
  | (_, ns) :: slots => referencesAll ns ++ referencesSlots slots
termination_by structural slots => slots

end

end Node

/-- The names of the components referred to anywhere in a template, each once, by first reference. -/
def Template.componentNames (t : Template) : List String :=
  (Node.referencesAll t.children).eraseDups

end Stencil
