import Stencil.Proofs.View.Answers
/-
  Rendering with all answers taken at one store.

  Since rendering is steady, the stores between its parts may be forgotten: what a rendering answers at a
  store is put together from what its parts answer at the same store.  The equations below say how, for
  siblings, for texts, expressions and slots, for tags, and for elements and components without their
  directives.
-/

namespace Stencil

open Rendering

theorem Steady.answer_mapM {e : Engine} {α β : Type} {f : α → Rendering β} (hf : ∀ a, Steady e (f a))
    (as : List α) (s : Store) : answer (as.mapM f) s = as.mapM fun a => answer (f a) s := by
  have hrest : ∀ as : List α, Steady e (as.mapM f) := (Steady.closed e).mapM hf
  induction as with
  | nil => rfl
  | cons a as ih =>
    rw [List.mapM_cons, List.mapM_cons]
    rw [(hf a).answer_bind fun b => (hrest as).bind fun bs => .pure (b :: bs)]
    refine congrArg _ (funext fun b => ?_)
    rw [(hrest as).answer_bind fun bs => .pure (b :: bs), ih]
    rfl

namespace Render

variable {e : Engine} {fillings : List Filling} {nesting : Nat} {scope : Scope}

theorem answer_evaluated {α : Type} (result : Except EvalError α) (s : Store) :
    (evaluated result).answer s = result.mapError .expression := by
  cases result <;> rfl

/-! ## Siblings -/

theorem answer_nodes_nil (p : Progress) (s : Store) :
    (nodes e fillings nesting scope p []).answer s = .ok "" := by
  rw [nodes]
  rfl

theorem answer_nodes_cons (p : Progress) (n : Node) (rest : List Node) (s : Store) :
    (nodes e fillings nesting scope p (n :: rest)).answer s = (do
      let (text, q) ← (sibling e fillings nesting scope p n).answer s
      let more ← (nodes e fillings nesting scope q rest).answer s
      .ok (text ++ more)) := by
  have hrest : ∀ q : Progress, Steady e (nodes e fillings nesting scope q rest) :=
    fun q => steady_nodes e fillings nesting scope q rest
  rw [nodes_cons, (steady_sibling e fillings nesting scope p n).answer_bind fun found =>
    (hrest found.2).bind fun _ => .pure _]
  refine congrArg _ (funext fun found => ?_)
  rw [(hrest found.2).answer_bind fun _ => .pure _]
  rfl

theorem answer_sibling_of_tag?_eq_none {n : Node} (h : n.tag? = none) (p : Progress) (s : Store) :
    (sibling e fillings nesting scope p n).answer s = (do
      let text ← (untaggedText e fillings nesting scope n).answer s
      .ok (text, p)) := by
  rw [sibling, h]
  dsimp only
  rw [answer_bind_eq]
  rfl

/-- Siblings whose first has no tag: its text is written, and the others know what it was told. -/
theorem answer_nodes_untagged {n : Node} (h : n.tag? = none) (p : Progress) (rest : List Node) (s : Store) :
    (nodes e fillings nesting scope p (n :: rest)).answer s = (do
      let text ← (untaggedText e fillings nesting scope n).answer s
      let more ← (nodes e fillings nesting scope p rest).answer s
      .ok (text ++ more)) := by
  rw [answer_nodes_cons, answer_sibling_of_tag?_eq_none h]
  cases (untaggedText e fillings nesting scope n).answer s <;> rfl

theorem answer_nodes_text (content : String) (span : Span) (rest : List Node) (p : Progress) (s : Store) :
    (nodes e fillings nesting scope p (.text content span :: rest)).answer s = (do
      let more ← (nodes e fillings nesting scope p rest).answer s
      .ok (content ++ more)) := by
  rw [answer_nodes_untagged rfl]
  rfl

theorem answer_nodes_expression (source : String) (escaped : Bool) (span : Span) (rest : List Node)
    (p : Progress) (s : Store) :
    (nodes e fillings nesting scope p (.expression source escaped span :: rest)).answer s = (do
      let v ← (e.evaluator source scope).mapError .expression
      let more ← (nodes e fillings nesting scope p rest).answer s
      .ok (Interpolation.shown escaped v ++ more)) := by
  rw [answer_nodes_untagged rfl, untaggedText, answer_bind_eq, answer_evaluated]
  cases e.evaluator source scope <;> rfl

/-- A slot marker stands for the content that the reference has for it. -/
theorem answer_nodes_slot {filling : Filling} {outer : List Filling} {name : Option String}
    {content : List Node} (hselect : filling.content.select name = some content) (fallback : List Node)
    (span : Span) (rest : List Node) (p : Progress) (s : Store) :
    (nodes e (filling :: outer) nesting scope p (.slot name fallback span :: rest)).answer s = (do
      let text ← (nodes e outer nesting filling.scope {} content).answer s
      let more ← (nodes e (filling :: outer) nesting scope p rest).answer s
      .ok (text ++ more)) := by
  rw [answer_nodes_untagged rfl, untaggedText]
  simp only [hselect]

/-- A slot marker for which the reference has nothing stands for its fallback. -/
theorem answer_nodes_fallback {filling : Filling} {outer : List Filling} {name : Option String}
    (hselect : filling.content.select name = none) (fallback : List Node) (span : Span)
    (rest : List Node) (p : Progress) (s : Store) :
    (nodes e (filling :: outer) nesting scope p (.slot name fallback span :: rest)).answer s = (do
      let text ← (nodes e (filling :: outer) nesting scope {} fallback).answer s
      let more ← (nodes e (filling :: outer) nesting scope p rest).answer s
      .ok (text ++ more)) := by
  rw [answer_nodes_untagged rfl, untaggedText]
  simp only [hselect]

theorem answer_sibling_of_tag?_eq_some {n : Node} {tag : Tag} (h : n.tag? = some tag) (p : Progress)
    (s : Store) :
    (sibling e fillings nesting scope p n).answer s =
      if p.skips tag then .ok ("", p.afterSkipped tag)
      else (do
        let expansion := Expansion.expand e.evaluator tag.directives scope
        let texts ← expansion.bodies.mapM fun inner => (once e fillings nesting inner n).answer s
        let outcome ← expansion.outcome.mapError .expression
        .ok (String.join texts, p.after tag outcome)) := by
  rw [sibling, h]
  dsimp only
  split
  · rfl
  · have honce : ∀ inner, Steady e (once e fillings nesting inner n) :=
      fun inner => steady_once e fillings nesting inner n
    rw [taggedText, bind_assoc, ((Steady.closed e).mapM honce _).answer_bind fun texts =>
      ((Steady.evaluated _).bind fun _ => .pure _).bind fun _ => .pure _]
    rw [Steady.answer_mapM honce]
    refine congrArg _ (funext fun texts => ?_)
    rw [bind_assoc, answer_bind_eq, answer_evaluated]
    rfl

theorem expand_nothing (evaluate : Evaluator) (scope : Scope) :
    Expansion.expand evaluate {} scope = ⟨[scope], .ok ⟨true, .noLoop⟩⟩ := rfl

/-- A tag that has no directives is rendered once, where it stands. -/
theorem answer_sibling_of_plain {n : Node} {tag : Tag} (htag : n.tag? = some tag)
    (hdirectives : tag.directives = {}) (hlinks : tag.links = {}) (p : Progress) (s : Store) :
    (sibling e fillings nesting scope p n).answer s = (do
      let text ← (once e fillings nesting scope n).answer s
      .ok (text, p.after tag ⟨true, .noLoop⟩)) := by
  have hskips : p.skips tag = false := by
    simp [Progress.skips, hlinks, hdirectives, Directives.forelse?]
  rw [answer_sibling_of_tag?_eq_some htag, hskips, hdirectives, expand_nothing]
  dsimp only
  rw [List.mapM_cons, List.mapM_nil]
  cases honce : (once e fillings nesting scope n).answer s with
  | ok text =>
    have hjoin : String.join [text] = text := by simp [String.join]
    show Except.ok (String.join [text], _) = Except.ok (text, _)
    rw [hjoin]
  | error err => rfl

/-- A tag without directives that stands alone is rendered where it stands. -/
theorem answer_nodes_alone {n : Node} {tag : Tag} (htag : n.tag? = some tag)
    (hdirectives : tag.directives = {}) (hlinks : tag.links = {}) (p : Progress) (s : Store) :
    (nodes e fillings nesting scope p [n]).answer s = (once e fillings nesting scope n).answer s := by
  rw [answer_nodes_cons, answer_sibling_of_plain htag hdirectives hlinks]
  cases (once e fillings nesting scope n).answer s with
  | ok text =>
    show ((nodes e fillings nesting scope _ []).answer s >>= fun more => Except.ok (text ++ more)) = _
    rw [answer_nodes_nil]
    show Except.ok (text ++ "") = Except.ok text
    rw [String.append_empty]
  | error err => rfl

/-! ## Elements and components -/

theorem answer_once_element (tag : Tag) (selfClosing : Bool) (children : List Node) (span : Span)
    (s : Store) :
    (once e fillings nesting scope (.element tag selfClosing children span)).answer s =
      if nesting < e.options.maxDepth then do
        let opening ← (openingText e.evaluator scope tag).mapError .expression
        if Element.isVoid tag.name then .ok opening
        else do
          let inside ← (nodes e fillings (nesting + 1) scope {} children).answer s
          .ok (opening ++ inside ++ "</" ++ tag.name ++ ">")
      else .error (.nestedTooDeeply tag.name e.options.maxDepth) := by
  rw [once]
  split
  · have hrest : ∀ opening : String, Steady e
        (if Element.isVoid tag.name then pure opening
          else do
            let inside ← nodes e fillings (nesting + 1) scope {} children
            pure (opening ++ inside ++ "</" ++ tag.name ++ ">") : Rendering String) := by
      intro opening
      split
      · exact .pure _
      · exact (steady_nodes e fillings (nesting + 1) scope {} children).bind fun _ => .pure _
    rw [(Steady.evaluated _).answer_bind hrest, answer_evaluated]
    refine congrArg _ (funext fun opening => ?_)
    split
    · rfl
    · rw [answer_bind_eq]
      rfl
  · rfl

theorem answer_once_component (tag : Tag) (children : List Node) (slots : List (String × List Node))
    (span : Span) (s : Store) :
    (once e fillings nesting scope (.component tag children slots span)).answer s =
      if nesting < e.options.maxDepth then
        if fillings.length < e.options.maxComponentDepth then do
          let template ← (e.componentIn tag.name s).1
          let props ← (Props.ofAttributes e.evaluator scope tag.attributes).mapError .expression
          (nodes e (⟨⟨children, slots⟩, scope⟩ :: fillings) (nesting + 1) (Scope.root props) {}
            template.children).answer s
        else .error (.recursiveComponent tag.name e.options.maxComponentDepth)
      else .error (.nestedTooDeeply tag.name e.options.maxDepth) := by
  rw [once]
  split
  · split
    · have hbody : ∀ (template : Template) (props : Bindings), Steady e
          (nodes e (⟨⟨children, slots⟩, scope⟩ :: fillings) (nesting + 1) (Scope.root props) {}
            template.children) :=
        fun template props => steady_nodes e _ (nesting + 1) (Scope.root props) {} template.children
      rw [(Steady.component tag.name).answer_bind fun template =>
        (Steady.evaluated _).bind fun props => hbody template props]
      refine congrArg _ (funext fun template => ?_)
      rw [(Steady.evaluated _).answer_bind fun props => hbody template props, answer_evaluated]
      rfl
    · rfl
  · rfl

end Render

/-- A page is what compiling gives, rendered at the store that compiling leaves. -/
theorem Engine.answer_render (e : Engine) (source : ViewSource) (bindings : Bindings) :
    (e.render source bindings).1 = (do
      let t ← (e.compileIn source e.store).1
      (Render.template e t (e.finalBindings source bindings)).answer
        (e.compileIn source e.store).2) := by
  unfold Engine.render
  rcases e.compileIn source e.store with ⟨_ | t, left⟩ <;> rfl

end Stencil
