import Stencil.Proofs.Expression.Inherited
import Stencil.Proofs.Expression.VariableNames
import Stencil.Proofs.Template.References
import Stencil.Proofs.View.Correspondence
import Stencil.Proofs.View.Sessions
/-
  Values that are escaped bring no marks onto a page.

  The marks of a text are the characters by which a page is taken apart: the angle brackets and the two
  quotes.  An escaped value without markup has none of them, and escaping an attribute again only takes
  some away.  So the marks of a page are those that its templates are written with, whatever is bound, as
  long as no template has a directive, a raw expression, or an attribute of an element that is an
  expression.

  This is a statement about two renderings.  Their scopes hold no markup, their values may differ, and
  their texts have the same marks; expressions, attributes and props keep this, since evaluating makes no
  markup.
-/

namespace Stencil

/-! ## The marks of texts -/

/-- A character that a page is taken apart by. -/
def isMark (c : Char) : Bool := c == '<' || c == '>' || c == '"' || c == '\''

/-- The marks of a text, in order. -/
def marks (s : String) : List Char := s.toList.filter isMark

@[simp] theorem marks_append (a b : String) : marks (a ++ b) = marks a ++ marks b := by
  simp [marks, String.toList_append]

namespace Html

theorem filter_isMark_escapeChar (c : Char) : (escapeChar c).filter isMark = [] := by
  unfold escapeChar
  split
  · rfl
  · rfl
  · rfl
  · rfl
  · rfl
  · next h h' h'' h''' h'''' => simp_all [isMark]

/-- An escaped text has no marks. -/
theorem marks_escape (s : String) : marks (escape s) = [] := by
  simp [marks, escape, List.filter_flatMap, filter_isMark_escapeChar]

/-- A value without markup is escaped as a whole. -/
theorem marks_escapeValue {v : Value} (h : v.AllMarkup fun _ => False) : marks (escapeValue v) = [] := by
  cases h with
  | html h => exact h.elim
  | _ => exact marks_escape _

/-- The text of an attribute has the marks of what it is made from, but for the double quotes. -/
theorem marks_attributeText (s : String) :
    marks (attributeText s) = (marks s).filter (· != '"') := by
  unfold marks attributeText
  rw [String.toList_ofList]
  induction s.toList with
  | nil => rfl
  | cons c cs ih =>
    rw [List.flatMap_cons, List.filter_append, ih, List.filter_cons]
    by_cases hquote : c = '"'
    · subst hquote
      rfl
    · cases hmark : isMark c <;> simp [hquote, hmark]

end Html

/-! ## Nodes that escape all values -/

/-- Whether a piece of a text is a raw expression. -/
def Interpolation.Piece.isRaw : Piece → Bool
  | .literal _ => false
  | .expression _ escaped => !escaped

/-- No expression in the text of an attribute is raw. -/
def AttributeValue.Escapes : AttributeValue → Prop
  | .literal text => ∀ piece ∈ Interpolation.split text.toList, piece.isRaw = false
  | _ => True

/-- Whether an attribute was written as an expression. -/
def AttributeValue.isExpression : AttributeValue → Bool
  | .expression _ => true
  | _ => false

/-- A node has no directive and no raw expression, and no expression for an attribute of an element. -/
def Node.Escapes : Node → Prop
  | .expression _ escaped _ => escaped = true
  | .element tag _ _ _ =>
    tag.directives = {} ∧ ∀ a ∈ tag.attributes, a.value.Escapes ∧ a.value.isExpression = false
  | .component tag _ _ _ => tag.directives = {} ∧ ∀ a ∈ tag.attributes, a.value.Escapes
  | _ => True

/-- All nodes of a template are such, at every depth. -/
def Template.Escapes (t : Template) : Prop := ∀ ns ∈ t.siblingLists, ∀ n ∈ ns, n.Escapes

/-- No value in it is or contains markup. -/
abbrev Scope.Plain (scope : Scope) : Prop := scope.AllMarkup fun _ => False

/-! ## One rendering -/

section

variable {scope : Scope} (hscope : scope.Plain)

include hscope

namespace Interpolation

omit hscope in
/-- The marks that a piece of a text is written with. -/
def Piece.marks : Piece → List Char
  | .literal text => Stencil.marks text
  | .expression _ _ => []

theorem yields_shown (source : String) :
    Yields (fun v => marks (shown true v) = []) (Functions.builtin.evaluator source scope) :=
  fun v hv => Html.marks_escapeValue (Functions.yields_builtin_evaluator hscope source v hv)

theorem yields_renderAll {pieces : List Piece} (h : ∀ piece ∈ pieces, piece.isRaw = false) :
    Yields (fun text => marks text = pieces.flatMap Piece.marks)
      (renderAll Functions.builtin.evaluator scope pieces) := by
  induction pieces with
  | nil => exact .ok rfl
  | cons piece pieces ih =>
    obtain ⟨hraw, hmore⟩ := List.forall_mem_cons.1 h
    have hpiece : Yields (fun text => marks text = piece.marks)
        (piece.render Functions.builtin.evaluator scope) := by
      cases piece with
      | literal text => exact .ok rfl
      | expression source escaped =>
        cases escaped with
        | true => exact (yields_shown hscope source).map fun _ hv => hv
        | false => cases hraw
    rw [renderAll]
    refine hpiece.bind fun text htext => (ih hmore).bind fun more hmarks => .ok ?_
    rw [marks_append, htext, hmarks, List.flatMap_cons]

end Interpolation

namespace Render

omit hscope in
/-- The marks that an attribute of an element is written with. -/
def attributeMarks (a : Attribute) : List Char :=
  match a.value with
  | .bare => marks (" " ++ a.name)
  | .literal text =>
    marks (" " ++ a.name ++ "=\"") ++
      ((Interpolation.split text.toList).flatMap Interpolation.Piece.marks).filter (· != '"') ++
      marks "\""
  | .expression _ => []

theorem yields_attributeText {a : Attribute} (hescapes : a.value.Escapes)
    (hexpression : a.value.isExpression = false) :
    Yields (fun text => marks text = attributeMarks a)
      (attributeText Functions.builtin.evaluator scope a) := by
  unfold attributeText attributeMarks
  cases hvalue : a.value with
  | bare => exact .ok rfl
  | literal text =>
    rw [hvalue] at hescapes
    refine (Interpolation.yields_renderAll hscope hescapes).map fun result hresult => ?_
    dsimp only
    rw [marks_append, marks_append, Html.marks_attributeText, hresult]
  | expression source =>
    rw [hvalue] at hexpression
    cases hexpression

theorem yields_attributesText {attributes : List Attribute}
    (h : ∀ a ∈ attributes, a.value.Escapes ∧ a.value.isExpression = false) :
    Yields (fun text => marks text = attributes.flatMap attributeMarks)
      (attributesText Functions.builtin.evaluator scope attributes) := by
  induction attributes with
  | nil => exact .ok rfl
  | cons a more ih =>
    obtain ⟨ha, hmore⟩ := List.forall_mem_cons.1 h
    rw [attributesText]
    refine (yields_attributeText hscope ha.1 ha.2).bind fun text htext =>
      (ih hmore).bind fun rest hrest => .ok ?_
    rw [marks_append, htext, hrest, List.flatMap_cons]

/-- An opening tag has the marks it is written with. -/
theorem yields_openingText {tag : Tag}
    (h : ∀ a ∈ tag.attributes, a.value.Escapes ∧ a.value.isExpression = false) :
    Yields (fun text => marks text =
        marks ("<" ++ tag.name) ++ tag.attributes.flatMap attributeMarks ++ marks ">")
      (openingText Functions.builtin.evaluator scope tag) := by
  unfold openingText
  refine (yields_attributesText hscope h).map fun text htext => ?_
  rw [marks_append, marks_append, htext]

end Render

namespace Props

/-- Props are made of texts, truth values and what expressions give, so they hold no markup. -/
theorem yields_value (value : AttributeValue) :
    Yields (Value.AllMarkup fun _ => False) (Props.value Functions.builtin.evaluator scope value) := by
  cases value with
  | bare => exact .ok .bool
  | literal text => exact Yields.map (R := fun _ => True) (fun _ _ => trivial) fun _ _ => .text
  | expression source => exact Functions.yields_builtin_evaluator hscope source

omit hscope in
theorem allMarkup_bind {P : String → Prop} {props : Bindings} (h : props.AllMarkup P) (name : String)
    {v : Value} (hv : v.AllMarkup P) : (bind props name v).AllMarkup P := by
  unfold bind
  dsimp only
  split
  · split
    · exact (h.put _ hv).put _ hv
    · exact h.put _ hv
  · split
    · exact h.put _ hv
    · exact h

theorem yields_ofAttributes (attributes : List Attribute) :
    Yields (Bindings.AllMarkup fun _ => False)
      (ofAttributes Functions.builtin.evaluator scope attributes) := by
  have hfrom : ∀ props : Bindings, props.AllMarkup (fun _ => False) →
      Yields (Bindings.AllMarkup fun _ => False)
        (bindFrom Functions.builtin.evaluator scope props attributes) := by
    induction attributes with
    | nil => exact fun props hprops => .ok hprops
    | cons a more ih =>
      intro props hprops
      rw [bindFrom]
      exact (yields_value hscope a.value).bind fun v hv => ih _ (allMarkup_bind hprops a.name hv)
  exact hfrom [] fun entry hentry => absurd hentry List.not_mem_nil

end Props

end

/-! ## Two renderings -/

/-- If both results are values, they are related. -/
def BothYield {ε α β : Type} (R : α → β → Prop) (x : Except ε α) (y : Except ε β) : Prop :=
  ∀ a b, x = .ok a → y = .ok b → R a b

namespace BothYield

variable {ε α β γ δ : Type} {R : α → β → Prop} {x : Except ε α} {y : Except ε β}

theorem ok {a : α} {b : β} (h : R a b) : BothYield R (.ok a : Except ε α) (.ok b) := by
  intro a' b' ha hb
  obtain rfl := Except.ok.inj ha
  obtain rfl := Except.ok.inj hb
  exact h

theorem bind {S : γ → δ → Prop} {f : α → Except ε γ} {g : β → Except ε δ} (h : BothYield R x y)
    (hfg : ∀ a b, R a b → BothYield S (f a) (g b)) : BothYield S (x >>= f) (y >>= g) := by
  intro c d hc hd
  cases x with
  | error e => cases hc
  | ok a =>
    cases y with
    | error e => cases hd
    | ok b => exact hfg a b (h a b rfl rfl) c d hc hd

/-- What each of two results has by itself they have together. -/
theorem of_yields {P : α → Prop} {Q : β → Prop} (hx : Yields P x) (hy : Yields Q y)
    (h : ∀ a b, P a → Q b → R a b) : BothYield R x y :=
  fun a b ha hb => h a b (hx a ha) (hy b hb)

end BothYield

namespace Render

open Siblings (Throughout)

theorem throughout_of_select {children content : List Node} {slots : List (String × List Node)}
    {tag : Tag} {s : Span} {P : Node → Prop} (h : Throughout P (.component tag children slots s))
    {name : Option String} (hselect : SlotSupply.select ⟨children, slots⟩ name = some content) :
    ∀ n ∈ content, Throughout P n := by
  obtain ⟨-, hchildren, hslots⟩ := Siblings.throughout_component.1 h
  obtain ⟨hsome, -⟩ := Option.filter_eq_some_iff.1 hselect
  dsimp only at hsome
  split at hsome
  · obtain rfl := Option.some.inj hsome
    exact hchildren
  · split at hsome
    · obtain rfl := Option.some.inj hsome
      exact hchildren
    · exact hslots _ (Ordered.mem_of_get?_eq_some hsome)

theorem directives_of_escapes {n : Node} {tag : Tag} (h : n.Escapes) (htag : n.tag? = some tag) :
    tag.directives = {} := by
  cases n with
  | element => exact Option.some.inj htag ▸ h.1
  | component => exact Option.some.inj htag ▸ h.1
  | text => cases htag
  | expression => cases htag
  | comment => cases htag
  | slot => cases htag

/-- Rendering nodes that escape all values, in scopes without markup, gives texts with the same marks. -/
def marksAlike {e : Engine} {s : Store} (hevaluator : e.evaluator = Functions.builtin.evaluator)
    (hcomponents : ∀ name t, (e.componentIn name s).1 = .ok t → t.Escapes) : Correspondence e s e s where
  lift := BothYield
  known := fun _ n => Throughout Node.Escapes n
  alike := fun σ τ => σ.Plain ∧ τ.Plain
  agree := fun a b => marks a = marks b
  ok := .ok
  bind := .bind
  agree_refl := fun _ => rfl
  agree_append := by
    intro a b c d hab hcd
    rw [marks_append, marks_append, hab, hcd]
  maxDepth := e.maxDepth_withStore s
  maxComponentDepth := e.maxComponentDepth_withStore s
  expression := by
    intro _ source escaped _ σ τ hn hscope
    obtain rfl : escaped = true := hn.1
    rw [hevaluator]
    exact .of_yields ((Interpolation.yields_shown hscope.1 source).mapError _)
      ((Interpolation.yields_shown hscope.2 source).mapError _) fun _ _ ha hb => ha.trans hb.symm
  bodies := by
    intro _ _ tag σ τ hn htag hscope
    rw [directives_of_escapes hn.1 htag, expand_nothing, expand_nothing]
    exact .cons hscope .nil
  outcome := by
    intro _ _ tag σ τ hn htag _
    rw [directives_of_escapes hn.1 htag, expand_nothing, expand_nothing]
    exact .ok rfl
  opening := by
    intro _ tag _ _ _ σ τ hn hscope
    rw [hevaluator]
    exact .of_yields ((yields_openingText hscope.1 hn.1.2).mapError _)
      ((yields_openingText hscope.2 hn.1.2).mapError _) fun _ _ ha hb => ha.trans hb.symm
  props := by
    intro _ tag _ _ _ σ τ _ hscope
    rw [hevaluator]
    exact .of_yields ((Props.yields_ofAttributes hscope.1 tag.attributes).mapError _)
      ((Props.yields_ofAttributes hscope.2 tag.attributes).mapError _)
      fun _ _ hp hq => ⟨Scope.allMarkup_root hp, Scope.allMarkup_root hq⟩
  template := by
    intro _ tag _ _ _ _ t u ht hu
    rw [ht] at hu
    obtain rfl := Except.ok.inj hu
    exact ⟨rfl, Siblings.forall_mem_lists.1 (hcomponents tag.name t ht)⟩
  tooDeep := by
    intro _ _ _ _ _ _ _ _ h
    cases h
  recursive := by
    intro _ _ _ _ _ _ _ _ h
    cases h
  known_children := fun hn _ _ => (Siblings.throughout_element.1 hn).2
  known_fallback := fun hn => (Siblings.throughout_slot.1 hn).2
  known_content := fun hn _ _ _ _ hselect => throughout_of_select hn hselect

end Render

/-- Where no template has a directive, a raw expression, or an expression for an attribute of an element,
    pages with bindings that hold no markup have the same marks, whatever else the bindings hold. -/
theorem Engine.marks_render_eq {e : Engine} (hevaluator : e.evaluator = Functions.builtin.evaluator)
    (hprocessors : e.processors = []) {source : ViewSource}
    (hsource : ∀ t, (e.compile source).1 = .ok t → t.Escapes)
    (hcomponents : ∀ name t, (e.templateOf name).1 = .ok t → t.Escapes) {b b' : Bindings}
    (hb : b.AllMarkup fun _ => False) (hb' : b'.AllMarkup fun _ => False) {page page' : String}
    (h : (e.render source b).1 = .ok page) (h' : (e.render source b').1 = .ok page') :
    marks page = marks page' := by
  have hfinal : ∀ bindings, e.finalBindings source bindings = bindings := by
    intro bindings
    rw [finalBindings, hprocessors, List.foldl_nil]
  rw [answer_render, hfinal] at h h'
  cases ht : (e.compileIn source e.store).1 with
  | error err => rw [ht] at h; cases h
  | ok t =>
    rw [ht] at h h'
    have hcomponentsThen : ∀ name u, (e.componentIn name (e.compileIn source e.store).2).1 = .ok u →
        u.Escapes := by
      intro name u hu
      rw [← e.agree_compileIn source e.store name] at hu
      exact hcomponents name u hu
    have hknown : ∀ n ∈ t.children, Siblings.Throughout Node.Escapes n :=
      Siblings.forall_mem_lists.1 (hsource t ht)
    have hscopes : (Scope.root b).Plain ∧ (Scope.root b').Plain :=
      ⟨Scope.allMarkup_root hb, Scope.allMarkup_root hb'⟩
    exact (Render.marksAlike hevaluator hcomponentsThen).template_children t hscopes hknown page page' h h'

/-! ### A component that shows its prop -/

namespace Labels

open Render

/-- A component that shows its prop, compiled. -/
def shown : Template := ⟨[.expression "$t" true ⟨0, 8⟩], ⟨0, 8⟩⟩

/-- An engine with this component. -/
def engine : Engine :=
  { registry := Registry.empty.put ⟨"x-c", .inline "\x7b\x7b $t \x7d\x7d", none, false⟩
    loader := .memory [] }

/-- A reference to it, with a value in its prop. -/
def reference : Tag :=
  ⟨"x-c", [⟨"t", .literal "\x7b\x7b $v \x7d\x7d", ⟨5, 17⟩⟩], {}, ⟨1, 4⟩, {}⟩

/-- The markup of the reference. -/
def markup : String := "<x-c t='\x7b\x7b $v \x7d\x7d'></x-c>"

theorem split_prop : Interpolation.split "\x7b\x7b $v \x7d\x7d".toList =
    [.literal "", .expression "$v" true, .literal ""] := by
  decide +kernel

theorem componentIn_eq : (engine.componentIn "x-c" {}).1 = .ok shown := by
  have hcompile : Template.compile engine.options.dialect "\x7b\x7b $t \x7d\x7d" = .ok shown := by cbv
  exact Engine.answer_componentIn_inline rfl rfl hcompile

theorem props_eq (text : String) :
    Props.ofAttributes engine.evaluator (Scope.root [("v", .text text)]) reference.attributes =
      .ok [("t", .text (Html.escape text))] := by
  have hparse : Expr.parse "$v" = .ok (.variable "v") := by cbv
  have hvalue : engine.evaluator "$v" (Scope.root [("v", .text text)]) = .ok (.text text) :=
    Functions.evaluator_of_parse hparse _
  have hprop : Props.value engine.evaluator (Scope.root [("v", .text text)])
      (.literal "\x7b\x7b $v \x7d\x7d") = .ok (.text (Html.escape text)) := by
    rw [Props.value, Interpolation.interpolate, split_prop]
    simp [Interpolation.renderAll, Interpolation.Piece.render, hvalue, Interpolation.shown,
      Html.escapeValue, Value.display, Except.map, bind, Except.bind]
  rw [Props.ofAttributes, reference, Props.bindFrom, hprop]
  rfl

/-- The value is escaped once in the prop, and once more where the prop is shown. -/
theorem answer_template (text : String) {span span' : Span} {s : Store} (hs : engine.Agree {} s) :
    (Render.template engine ⟨[.component reference [] [] span], span'⟩ [("v", .text text)]).answer s =
      .ok (Html.escape (Html.escape text)) := by
  have hcomponent : (engine.componentIn reference.name s).1 = .ok shown :=
    (hs "x-c").symm.trans componentIn_eq
  have hparse : Expr.parse "$t" = .ok (.variable "t") := by cbv
  have hvalue : engine.evaluator "$t" (Scope.root [("t", .text (Html.escape text))]) =
      .ok (.text (Html.escape text)) :=
    Functions.evaluator_of_parse hparse _
  have hinside : ∀ fillings, (nodes engine fillings 1 (Scope.root [("t", .text (Html.escape text))]) {}
      shown.children).answer s = .ok (Html.escape (Html.escape text)) := by
    intro fillings
    rw [shown, answer_nodes_expression, hvalue, answer_nodes_nil]
    exact congrArg Except.ok (String.append_empty)
  have hprops : (Props.ofAttributes engine.evaluator (Scope.root [("v", .text text)])
      reference.attributes).mapError ViewError.expression = .ok [("t", .text (Html.escape text))] := by
    rw [props_eq]
    rfl
  rw [Render.template, answer_nodes_cons, answer_sibling_of_plain rfl rfl rfl, answer_once_component,
    if_pos (by decide), if_pos (by decide), hcomponent, hprops]
  simp [bind, Except.bind, answer_nodes_nil, hinside]

theorem shown_escapes {name : String} {t : Template} (h : (engine.templateOf name).1 = .ok t) :
    t.Escapes := by
  have hanswer : (engine.componentIn name {}).1 = .ok t := h
  by_cases hname : "x-c" = name
  · subst hname
    rw [componentIn_eq] at hanswer
    obtain rfl := Except.ok.inj hanswer
    refine Siblings.forall_mem_lists.2 (List.forall_mem_singleton.2 ⟨rfl, fun l hl => ?_⟩)
    cases hl
  · have hd : engine.registry.get? name = none := by
      show (Registry.empty.put _).get? name = none
      rw [Registry.get?_put, if_neg hname]
      rfl
    unfold Engine.componentIn at hanswer
    rw [hd] at hanswer
    cases hanswer

theorem reference_escapes (span span' : Span) :
    Template.Escapes ⟨[.component reference [] [] span], span'⟩ := by
  have hreference : Node.Escapes (.component reference [] [] span) := by
    refine ⟨rfl, List.forall_mem_singleton.2 ?_⟩
    show ∀ piece ∈ Interpolation.split _, _
    rw [split_prop]
    decide
  refine Siblings.forall_mem_lists.2 (List.forall_mem_singleton.2 ?_)
  exact Siblings.throughout_component.2 ⟨hreference, fun _ h => absurd h List.not_mem_nil,
    fun _ h => absurd h List.not_mem_nil⟩

end Labels

/-- An angle bracket and a quote, shown by a component that is given them as its prop. -/
theorem Engine.marks_render_eq_prop :
    ∃ page page', (Labels.engine.render (.inline Labels.markup) [("v", .text "<")]).1 = .ok page ∧
      (Labels.engine.render (.inline Labels.markup) [("v", .text "\"")]).1 = .ok page' ∧
      marks page = marks page' := by
  obtain ⟨⟨children, span'⟩, span, hcompiled, rfl⟩ :=
    Template.exists_bareReference Labels.engine.options.dialect Labels.markup Labels.reference (by decide +kernel)
  have hserved : (Labels.engine.compile (.inline Labels.markup)).1 = .ok _ :=
    answer_compile_inline rfl hcompiled
  have hpage : ∀ text, (Labels.engine.render (.inline Labels.markup) [("v", .text text)]).1 =
      .ok (Html.escape (Html.escape text)) := by
    intro text
    rw [answer_render, show (Labels.engine.compileIn _ Labels.engine.store).1 = .ok _ from hserved]
    exact Labels.answer_template text (Labels.engine.agree_compileIn _ {})
  have hplain : ∀ text, Bindings.AllMarkup (fun _ => False) [("v", .text text)] :=
    fun _ => List.forall_mem_singleton.2 .text
  refine ⟨_, _, hpage "<", hpage "\"", ?_⟩
  refine marks_render_eq rfl rfl (fun t ht => ?_) (fun name t ht => Labels.shown_escapes ht)
    (hplain "<") (hplain "\"") (hpage "<") (hpage "\"")
  rw [hserved] at ht
  obtain rfl := Except.ok.inj ht
  exact Labels.reference_escapes span span'

end Stencil
