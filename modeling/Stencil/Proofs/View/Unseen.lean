import Stencil.Proofs.Expression.VariableNames
import Stencil.Proofs.View.Deeper
import Stencil.Proofs.View.OneStore
/-
  A component sees only its props.

  The scope of a component has its props and nothing else, and what its caller binds, or was itself given
  for its slots, can only be reached through the content that the reference has for the slots of the
  component.  A reference that has nothing for them closes that way, whatever is rendered further in.
-/

namespace Stencil

/-- Content that only consists of blanks and comments is no content for any slot. -/
theorem SlotSupply.select_eq_none {content : SlotSupply}
    (hdefault : ∀ n ∈ content.default, n.saysNothing = true)
    (hnamed : ∀ slot ∈ content.named, ∀ n ∈ slot.2, n.saysNothing = true) (name : Option String) :
    content.select name = none := by
  have hempty : ∀ nodes? : Option (List Node), (∀ ns ∈ nodes?, ∀ n ∈ ns, n.saysNothing = true) →
      nodes?.filter (fun nodes => !nodes.all Node.saysNothing) = none := by
    intro nodes? h
    cases nodes? with
    | none => rfl
    | some ns =>
      rw [Option.filter_some, List.all_eq_true.2 (h ns rfl)]
      rfl
  refine hempty _ fun ns hns => ?_
  cases name with
  | none =>
    obtain rfl := Option.some.inj hns
    exact hdefault
  | some name =>
    dsimp only at hns
    split at hns
    · obtain rfl := Option.some.inj hns
      exact hdefault
    · exact hnamed (name, ns) (Ordered.mem_of_get?_eq_some hns)

namespace Render

variable {e : Engine} {tag : Tag} {children : List Node} {slots : List (String × List Node)}
  {σ τ : Scope} {fs gs : List Filling}

/-- A reference that has nothing for the slots of its component is rendered alike for the same props. -/
theorem once_eq_of_props (hchildren : ∀ n ∈ children, n.saysNothing = true)
    (hslots : ∀ slot ∈ slots, ∀ n ∈ slot.2, n.saysNothing = true) (hlength : fs.length = gs.length)
    (hprops : Props.ofAttributes e.evaluator σ tag.attributes =
      Props.ofAttributes e.evaluator τ tag.attributes) (nesting : Nat) (span : Span) :
    once e fs nesting σ (.component tag children slots span) =
      once e gs nesting τ (.component tag children slots span) := by
  have hclosed : Filling.Same (⟨⟨children, slots⟩, σ⟩ :: fs) (⟨⟨children, slots⟩, τ⟩ :: gs) :=
    .closed (SlotSupply.select_eq_none hchildren hslots) (SlotSupply.select_eq_none hchildren hslots)
      hlength
  rw [once, once, hlength, hprops]
  split
  · split
    · refine congrArg _ (funext fun template => congrArg _ (funext fun props => ?_))
      exact (nodes_follows (d := 0) hclosed (nesting + 1) (Scope.root props) {} rfl).eq
    · rfl
  · rfl

/-- A reference without directives, whose content for slots is only blanks and comments, does the same
    in two scopes that give it the same props, among siblings of which the same is known, as deep in
    elements and components, whatever else is bound there and whatever was given for the slots around it. -/
theorem nodes_eq_of_props (hdirectives : tag.directives = {})
    (hchildren : ∀ n ∈ children, n.saysNothing = true)
    (hslots : ∀ slot ∈ slots, ∀ n ∈ slot.2, n.saysNothing = true) (hlength : fs.length = gs.length)
    (hprops : Props.ofAttributes e.evaluator σ tag.attributes =
      Props.ofAttributes e.evaluator τ tag.attributes) (nesting : Nat) (p : Progress) (span : Span) :
    nodes e fs nesting σ p [.component tag children slots span] =
      nodes e gs nesting τ p [.component tag children slots span] := by
  have honce := once_eq_of_props hchildren hslots hlength hprops nesting span
  have hsibling : sibling e fs nesting σ p (.component tag children slots span) =
      sibling e gs nesting τ p (.component tag children slots span) := by
    unfold sibling taggedText
    simp only [Node.tag?, hdirectives, expand_nothing, List.mapM_cons, List.mapM_nil, honce]
  rw [nodes_cons, nodes_cons, hsibling]
  simp only [nodes]

/-! ### A component that asks for more than it is given -/

namespace Note

/-- Markup that shows a prop, asks for a name that is no prop, and has a slot. -/
def markup : String := "\x7b\x7b $title \x7d\x7d\x7b\x7b $secret \x7d\x7d<x-slot>-</x-slot>"

/-- Two expressions, and the fallback of the slot behind them, if a template is these. -/
def parts? (t : Template) : Option (String × String × String) :=
  match t.children with
  | [.expression first true _, .expression second true _, .slot none [.text fallback _] _] =>
    some (first, second, fallback)
  | _ => none

/-- An engine with a component of this markup. -/
def engine : Engine :=
  { registry := Registry.empty.put ⟨"x-note", .inline markup, none, false⟩, loader := .memory [] }

/-- A reference to it, whose prop is what a name is bound to. -/
def reference : Tag := ⟨"x-note", [⟨"title", .expression "$name", ⟨0, 0⟩⟩], {}, ⟨0, 0⟩, {}⟩

theorem props_eq (scope : Scope) :
    Props.ofAttributes engine.evaluator scope reference.attributes =
      .ok [("title", scope.get "name")] := by
  have hparse : Expr.parse "$name" = .ok (.variable "name") := by cbv
  have hvalue : engine.evaluator "$name" scope = .ok (scope.get "name") :=
    Functions.evaluator_of_parse hparse scope
  simp only [Props.ofAttributes, reference, Props.bindFrom, Props.value, hvalue]
  rfl

/-- The markup, compiled. -/
theorem exists_shown : ∃ t first second text slot,
    Template.compile engine.options.dialect markup = .ok t ∧
      t.children = [.expression "$title" true first, .expression "$secret" true second,
        .slot none [.text "-" text] slot] := by
  have hshape : (Template.compile engine.options.dialect markup).toOption.bind parts? =
      some ("$title", "$secret", "-") := by decide +kernel
  obtain ⟨t, hcompile, hparts⟩ := Option.bind_eq_some_iff.1 hshape
  rw [parts?] at hparts
  split at hparts
  · next hchildren =>
    cases hparts
    exact ⟨t, _, _, _, _, toOption_eq_some_iff.1 hcompile, hchildren⟩
  · cases hparts

/-- The component shows its prop, nothing for the name it asks for, and its fallback. -/
theorem answer_once {children : List Node} {slots : List (String × List Node)}
    (hcontent : SlotSupply.select ⟨children, slots⟩ none = none) (filling : Filling) (scope : Scope)
    (span : Span) :
    (once engine [filling] 0 scope (.component reference children slots span)).answer {} =
      .ok (Html.escapeValue (scope.get "name") ++ "-") := by
  obtain ⟨t, first, second, text, slot, hcompile, hchildren⟩ := exists_shown
  have hcomponent : (engine.componentIn reference.name {}).1 = .ok t :=
    Engine.answer_componentIn_inline rfl rfl hcompile
  have htitle : Expr.parse "$title" = .ok (.variable "title") := by cbv
  have hsecret : Expr.parse "$secret" = .ok (.variable "secret") := by cbv
  have hevaluate {source name : String} (hparse : Expr.parse source = .ok (.variable name)) (σ : Scope) :
      engine.evaluator source σ = .ok (σ.get name) := Functions.evaluator_of_parse hparse σ
  have hcalls : [filling].length < engine.options.maxComponentDepth :=
    (by decide : 1 < engine.options.maxComponentDepth)
  rw [answer_once_component, if_pos (by decide), if_pos hcalls, hcomponent, props_eq]
  show (nodes engine (⟨⟨children, slots⟩, scope⟩ :: [filling]) 1
    (Scope.root [("title", scope.get "name")]) {} t.children).answer {} = _
  rw [hchildren, answer_nodes_expression, hevaluate htitle, answer_nodes_expression, hevaluate hsecret,
    answer_nodes_fallback hcontent, answer_nodes_text, answer_nodes_nil]
  rfl

end Note

/-- One name goes into the prop, and another one, which the component asks for, is bound in one of the two
    scopes only. -/
theorem nodes_eq_of_props_title :
    let σ : Scope := Scope.root [("name", .text "Ann"), ("secret", .bool true)]
    let τ : Scope := Scope.root [("name", .text "Ann")]
    let children : List Node := [.comment "later" ⟨0, 0⟩]
    let slots : List (String × List Node) := [("foot", [.text " " ⟨0, 0⟩])]
    (∀ n ∈ children, n.saysNothing = true) ∧ (∀ slot ∈ slots, ∀ n ∈ slot.2, n.saysNothing = true) ∧
      Props.ofAttributes Note.engine.evaluator σ Note.reference.attributes =
        .ok [("title", .text "Ann")] ∧
      Props.ofAttributes Note.engine.evaluator τ Note.reference.attributes =
        .ok [("title", .text "Ann")] ∧
      (∀ content nesting p span,
        nodes Note.engine [⟨content, σ⟩] nesting σ p [.component Note.reference children slots span] =
          nodes Note.engine [⟨⟨[], []⟩, τ⟩] nesting τ p
            [.component Note.reference children slots span]) ∧
      ∀ content span,
        (nodes Note.engine [⟨content, σ⟩] 0 σ {}
          [.component Note.reference children slots span]).answer {} = .ok "Ann-" ∧
        (nodes Note.engine [⟨⟨[], []⟩, τ⟩] 0 τ {}
          [.component Note.reference children slots span]).answer {} = .ok "Ann-" := by
  intro σ τ children slots
  have hchildren : ∀ n ∈ children, n.saysNothing = true := by decide
  have hslots : ∀ slot ∈ slots, ∀ n ∈ slot.2, n.saysNothing = true := by decide
  have hσ : Props.ofAttributes Note.engine.evaluator σ Note.reference.attributes =
      .ok [("title", .text "Ann")] := Note.props_eq σ
  have hτ : Props.ofAttributes Note.engine.evaluator τ Note.reference.attributes =
      .ok [("title", .text "Ann")] := Note.props_eq τ
  have hsame : ∀ content nesting p span,
      nodes Note.engine [⟨content, σ⟩] nesting σ p [.component Note.reference children slots span] =
        nodes Note.engine [⟨⟨[], []⟩, τ⟩] nesting τ p
          [.component Note.reference children slots span] :=
    fun content => nodes_eq_of_props rfl hchildren hslots rfl (hσ.trans hτ.symm)
  refine ⟨hchildren, hslots, hσ, hτ, hsame, fun content span => ?_⟩
  have hpage : (nodes Note.engine [⟨content, σ⟩] 0 σ {}
      [.component Note.reference children slots span]).answer {} = .ok "Ann-" := by
    have hshown : Html.escapeValue (σ.get "name") ++ "-" = "Ann-" := by decide
    rw [answer_nodes_alone rfl rfl rfl,
      Note.answer_once (SlotSupply.select_eq_none hchildren hslots none), hshown]
  -- what the other scope gives is not computed again
  exact ⟨hpage, hsame content 0 {} span ▸ hpage⟩

end Render

end Stencil
