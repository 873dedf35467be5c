import Stencil.Source.Span
/-
  Why a template is refused, and the words for it.

  There are two classes of causes: templates that cannot be read, and directives that stand where they
  cannot apply.
-/

namespace Stencil

/-- Why a directive cannot apply. -/
inductive DirectiveProblem where
  /-- A second condition on a tag. -/
  | severalConditions
  /-- A second loop directive on a tag. -/
  | severalLoops
  /-- A directive on a slot marker. -/
  | onSlot (tag : String)
  /-- A link of a chain that an `:else` has closed. -/
  | chainClosed
  /-- A link of a chain where there is none. -/
  | chainMissing
  /-- A second fallback of one loop. -/
  | secondForelse
  /-- A fallback where there is no loop. -/
  | loopMissing
deriving DecidableEq, Repr

/-- The words for a problem with a directive. -/
def DirectiveProblem.reason : DirectiveProblem → String
  | .severalConditions => "an element may carry only one of `:if`, `:elseif` and `:else`"
  | .severalLoops => "an element may carry only one of `:foreach` and `:forelse`"
  | .onSlot tag => s!"directives are not allowed on <{tag}>"
  | .chainClosed => "the preceding conditional chain is already closed by `:else`"
  | .chainMissing => "must directly follow an element with `:if` or `:elseif`"
  | .secondForelse => "a `:foreach` may be followed by only one `:forelse`"
  | .loopMissing => "must directly follow an element with `:foreach`"

/-- Why a template is refused. -/
inductive TemplateProblem where
  | unclosedTag (tag : String)
  | unterminated (opening closing : String)
  /-- A closing tag that does not fit the open element, if one is open. -/
  | unexpectedClosing (tag : String) (opened : Option String)
  | nestedTooDeeply (limit : Nat)
  | unexpectedCharacter (found : Char) (tag : String)
  | unterminatedValue (name : String)
  | missingValue (name : String)
  /-- An attribute that makes no sense without a value. -/
  | valueRequired (name : String)
  | loopExpression (value : String)
  | computedSlotName
  | directive (name : String) (problem : DirectiveProblem)
deriving DecidableEq, Repr

namespace TemplateProblem

/-- The words for a problem with a template. -/
def message : TemplateProblem → String
  | .unclosedTag tag => s!"Unclosed tag: <{tag}>"
  | .unterminated opening closing =>
    s!"Unterminated `{opening}`: expected a closing `{closing}`"
  | .unexpectedClosing tag (some opened) =>
    s!"Unexpected closing tag </{tag}>, expected </{opened}>"
  | .unexpectedClosing tag none => s!"Unexpected closing tag </{tag}> with no open element"
  | .nestedTooDeeply limit => s!"Elements nested more than {limit} levels deep"
  | .unexpectedCharacter found tag => s!"Unexpected `{found}` in <{tag}> tag"
  | .unterminatedValue name => s!"Unterminated value for attribute `{name}`"
  | .missingValue name => s!"Missing value for attribute `{name}`"
  | .valueRequired name => s!"`{name}` requires a value"
  | .loopExpression value =>
    s!"Invalid `:foreach` expression `{value}`: expected `<iterable> as $name`"
  | .computedSlotName => "Slot names must be literal"
  | .directive name problem => s!"Invalid `{name}` attribute: {problem.reason}"

/-- Whether a directive stands where it cannot apply. -/
def isDirective : TemplateProblem → Bool
  | .directive .. => true
  | _ => false

end TemplateProblem

/-- A problem and the stretch of the source it is about. -/
structure TemplateError where
  problem : TemplateProblem
  span : Span
deriving DecidableEq, Repr

/-- The short name of the class of an error. -/
def TemplateError.code (e : TemplateError) : String :=
  if e.problem.isDirective then "element-was-invalid" else "malformed-template"

end Stencil
