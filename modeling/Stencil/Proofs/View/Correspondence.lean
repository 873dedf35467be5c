import Mathlib.Data.List.Forall2
import Stencil.Proofs.View.OneStore
/-
  Two renderings side by side.

  Two engines that render the same nodes, each at a store of its own and in scopes of its own, go through
  the same steps.  If what they ask of their evaluators and of their components corresponds step by step,
  then so do their answers.

  What "corresponds" means is left open: how scopes have to be alike, when two texts agree, which nodes
  may come up at which nesting, and how a relation of values is carried over to results that may be errors.
  A correspondence is a choice of these four that each single step of rendering respects.  The main
  statement is that rendering respects it as a whole.
-/

namespace Stencil

open Rendering

/-! ## Results that are the same -/

/-- Two results are the same: they are values with a relation, or one error with a property. -/
inductive SameResult (G : ViewError → Prop) {α β : Type} (R : α → β → Prop) :
    Except ViewError α → Except ViewError β → Prop where
  | ok {a : α} {b : β} (h : R a b) : SameResult G R (.ok a) (.ok b)
  | error {err : ViewError} (h : G err) : SameResult G R (.error err) (.error err)

namespace SameResult

variable {G : ViewError → Prop} {α β γ δ : Type}

theorem bind {R : α → β → Prop} {S : γ → δ → Prop} {x : Except ViewError α} {y : Except ViewError β}
    {f : α → Except ViewError γ} {g : β → Except ViewError δ} (h : SameResult G R x y)
    (hfg : ∀ a b, R a b → SameResult G S (f a) (g b)) : SameResult G S (x >>= f) (y >>= g) := by
  cases h with
  | ok hab => exact hfg _ _ hab
  | error herr => exact .error herr

theorem refl {R : α → α → Prop} (x : Except ViewError α) (hok : ∀ a, x = .ok a → R a a)
    (herror : ∀ err, x = .error err → G err) : SameResult G R x x := by
  cases x with
  | ok a => exact .ok (hok a rfl)
  | error err => exact .error (herror err rfl)

theorem eq {x y : Except ViewError α} (h : SameResult G Eq x y) : x = y := by
  cases h with
  | ok hab => rw [hab]
  | error => rfl

theorem of_error {R : α → β → Prop} {y : Except ViewError β} {err : ViewError}
    (h : SameResult G R (.error err) y) : G err := by
  cases h with
  | error herr => exact herr

end SameResult

/-! ## Correspondences -/

/-- A correspondence between rendering with one engine at a store and with another at another. -/
structure Correspondence (e : Engine) (s : Store) (e' : Engine) (s' : Store) where
  /-- When two results correspond, by when two values do. -/
  lift : {α β : Type} → (α → β → Prop) → Except ViewError α → Except ViewError β → Prop
  /-- The nodes that may come up inside so many elements and components. -/
  known : Nat → Node → Prop
  alike : Scope → Scope → Prop
  agree : String → String → Prop
  ok : ∀ {α β : Type} {R : α → β → Prop} {a : α} {b : β}, R a b → lift R (.ok a) (.ok b)
  bind : ∀ {α β γ δ : Type} {R : α → β → Prop} {S : γ → δ → Prop} {x : Except ViewError α}
    {y : Except ViewError β} {f : α → Except ViewError γ} {g : β → Except ViewError δ},
    lift R x y → (∀ a b, R a b → lift S (f a) (g b)) → lift S (x >>= f) (y >>= g)
  agree_refl : ∀ text, agree text text
  agree_append : ∀ {a b c d : String}, agree a b → agree c d → agree (a ++ c) (b ++ d)
  maxDepth : e'.options.maxDepth = e.options.maxDepth
  maxComponentDepth : e'.options.maxComponentDepth = e.options.maxComponentDepth
  expression : ∀ {k source escaped span σ τ}, known k (.expression source escaped span) → alike σ τ →
    lift (fun v w => agree (Interpolation.shown escaped v) (Interpolation.shown escaped w))
      ((e.evaluator source σ).mapError .expression) ((e'.evaluator source τ).mapError .expression)
  bodies : ∀ {k n tag σ τ}, known k n → n.tag? = some tag → alike σ τ →
    List.Forall₂ alike (Expansion.expand e.evaluator tag.directives σ).bodies
      (Expansion.expand e'.evaluator tag.directives τ).bodies
  outcome : ∀ {k n tag σ τ}, known k n → n.tag? = some tag → alike σ τ →
    lift Eq ((Expansion.expand e.evaluator tag.directives σ).outcome.mapError .expression)
      ((Expansion.expand e'.evaluator tag.directives τ).outcome.mapError .expression)
  opening : ∀ {k tag selfClosing children span σ τ}, known k (.element tag selfClosing children span) →
    alike σ τ → lift agree ((Render.openingText e.evaluator σ tag).mapError .expression)
      ((Render.openingText e'.evaluator τ tag).mapError .expression)
  props : ∀ {k tag children slots span σ τ}, known k (.component tag children slots span) → alike σ τ →
    lift (fun p q => alike (Scope.root p) (Scope.root q))
      ((Props.ofAttributes e.evaluator σ tag.attributes).mapError .expression)
      ((Props.ofAttributes e'.evaluator τ tag.attributes).mapError .expression)
  template : ∀ {k tag children slots span}, known k (.component tag children slots span) →
    lift (fun t u => u.children = t.children ∧ ∀ n ∈ t.children, known (k + 1) n)
      (e.componentIn tag.name s).1 (e'.componentIn tag.name s').1
  tooDeep : ∀ {k n tag}, known k n → n.tag? = some tag → e.options.maxDepth ≤ k →
    lift agree (.error (.nestedTooDeeply tag.name e.options.maxDepth))
      (.error (.nestedTooDeeply tag.name e.options.maxDepth))
  recursive : ∀ {k tag children slots span}, known k (.component tag children slots span) →
    lift agree (.error (.recursiveComponent tag.name e.options.maxComponentDepth))
      (.error (.recursiveComponent tag.name e.options.maxComponentDepth))
  known_children : ∀ {k tag selfClosing children span},
    known k (.element tag selfClosing children span) → k < e.options.maxDepth →
    Element.isVoid tag.name = false → ∀ n ∈ children, known (k + 1) n
  known_fallback : ∀ {k name fallback span}, known k (.slot name fallback span) →
    ∀ n ∈ fallback, known k n
  /-- The content for slots comes up again somewhere inside the component. -/
  known_content : ∀ {k tag children slots span}, known k (.component tag children slots span) →
    ∀ j, k < j → ∀ name content, SlotSupply.select ⟨children, slots⟩ name = some content →
    ∀ n ∈ content, known j n

namespace Correspondence

variable {e e' : Engine} {s s' : Store} (c : Correspondence e s e' s')

theorem mapM {α β γ δ : Type} {R : α → β → Prop} {S : γ → δ → Prop} {f : α → Except ViewError γ}
    {g : β → Except ViewError δ} {as : List α} {bs : List β} (h : List.Forall₂ R as bs)
    (hfg : ∀ a b, R a b → c.lift S (f a) (g b)) :
    c.lift (List.Forall₂ S) (as.mapM f) (bs.mapM g) := by
  induction h with
  | nil => exact c.ok .nil
  | cons hab _ ih =>
    rw [List.mapM_cons, List.mapM_cons]
    exact c.bind (hfg _ _ hab) fun _ _ hfirst => c.bind ih fun _ _ hrest => c.ok (.cons hfirst hrest)

theorem agree_join {as bs : List String} (h : List.Forall₂ c.agree as bs) :
    c.agree (String.join as) (String.join bs) := by
  induction h with
  | nil => exact c.agree_refl _
  | cons hab _ ih =>
    rw [String.join_cons, String.join_cons]
    exact c.agree_append hab ih

/-- Fillings with the same content, which is known from here on inwards, for scopes that are alike. -/
structure FillingAlike (k : Nat) (f g : Filling) : Prop where
  content : g.content = f.content
  scope : c.alike f.scope g.scope
  known : ∀ j, k ≤ j → ∀ name content, f.content.select name = some content →
    ∀ n ∈ content, c.known j n

theorem FillingAlike.deeper {c : Correspondence e s e' s'} {k j : Nat} {f g : Filling}
    (h : c.FillingAlike k f g) (hkj : k ≤ j) : c.FillingAlike j f g :=
  ⟨h.content, h.scope, fun i hi => h.known i (Nat.le_trans hkj hi)⟩

theorem fillings_deeper {c : Correspondence e s e' s'} {k j : Nat} {fs gs : List Filling}
    (h : List.Forall₂ (c.FillingAlike k) fs gs) (hkj : k ≤ j) :
    List.Forall₂ (c.FillingAlike j) fs gs := by
  induction h with
  | nil => exact .nil
  | cons hfg _ ih => exact .cons (hfg.deeper hkj) ih

/-! ## The whole rendering -/

mutual

/-- Siblings that are known correspond, after the same things are known of the siblings before. -/
theorem nodes {k : Nat} {fs gs : List Filling} (hfs : List.Forall₂ (c.FillingAlike k) fs gs)
    {σ τ : Scope} (hscope : c.alike σ τ) (p : Progress) (ns : List Node) (hns : ∀ n ∈ ns, c.known k n) :
    c.lift c.agree ((Render.nodes e fs k σ p ns).answer s) ((Render.nodes e' gs k τ p ns).answer s') :=
  match ns with
  | [] => by
    rw [Render.answer_nodes_nil, Render.answer_nodes_nil]
    exact c.ok (c.agree_refl _)
  | n :: rest => by
    rw [Render.answer_nodes_cons, Render.answer_nodes_cons]
    have hn : c.known k n := hns n List.mem_cons_self
    refine c.bind (sibling hfs hscope p n hn) ?_
    rintro ⟨text, q⟩ ⟨text', q'⟩ ⟨htext, hq⟩
    obtain rfl : q = q' := hq
    have hrest := nodes hfs hscope q rest fun m hm => hns m (List.mem_cons_of_mem _ hm)
    exact c.bind hrest fun _ _ hmore => c.ok (c.agree_append htext hmore)
termination_by (e.options.maxDepth - k, fs.length, sizeOf ns, 0)

/-- A sibling gives texts that agree, and the same is known after it. -/
theorem sibling {k : Nat} {fs gs : List Filling} (hfs : List.Forall₂ (c.FillingAlike k) fs gs)
    {σ τ : Scope} (hscope : c.alike σ τ) (p : Progress) (n : Node) (hn : c.known k n) :
    c.lift (fun a b => c.agree a.1 b.1 ∧ a.2 = b.2) ((Render.sibling e fs k σ p n).answer s)
      ((Render.sibling e' gs k τ p n).answer s') := by
  cases htag : n.tag? with
  | none =>
    rw [Render.answer_sibling_of_tag?_eq_none htag, Render.answer_sibling_of_tag?_eq_none htag]
    refine c.bind (R := c.agree) ?_ fun _ _ htext => c.ok ⟨htext, rfl⟩
    cases n with
    | text content => exact c.ok (c.agree_refl _)
    | comment => exact c.ok (c.agree_refl _)
    | expression source escaped =>
      simp only [Render.untaggedText, answer_bind_eq, Render.answer_evaluated]
      exact c.bind (c.expression hn hscope) fun _ _ h => c.ok h
    | slot name fallback =>
      have hfallback := c.known_fallback hn
      unfold Render.untaggedText
      cases hfs with
      | nil => exact nodes .nil hscope {} fallback hfallback
      | @cons f g outer outer' hfg houter =>
        -- the content is rendered in the scopes, and with the fillings, it was written with
        dsimp only
        rw [hfg.content]
        cases hselect : f.content.select name with
        | none => exact nodes (.cons hfg houter) hscope {} fallback hfallback
        | some content =>
          exact nodes houter hfg.scope {} content (hfg.known k (Nat.le_refl k) name content hselect)
    | element => cases htag
    | component => cases htag
  | some tag =>
    rw [Render.answer_sibling_of_tag?_eq_some htag, Render.answer_sibling_of_tag?_eq_some htag]
    split
    · exact c.ok ⟨c.agree_refl _, rfl⟩
    · refine c.bind (c.mapM (c.bodies hn htag hscope) fun _ _ hinner =>
        once hfs hinner n hn) fun _ _ htexts => ?_
      refine c.bind (c.outcome hn htag hscope) fun outcome outcome' houtcome => ?_
      exact c.ok ⟨c.agree_join htexts, congrArg (p.after tag) houtcome⟩
termination_by (e.options.maxDepth - k, fs.length, sizeOf n, 1)

/-- An element or a component without its directives. -/
theorem once {k : Nat} {fs gs : List Filling} (hfs : List.Forall₂ (c.FillingAlike k) fs gs)
    {σ τ : Scope} (hscope : c.alike σ τ) (n : Node) (hn : c.known k n) :
    c.lift c.agree ((Render.once e fs k σ n).answer s) ((Render.once e' gs k τ n).answer s') := by
  cases n with
  | text => simp only [Render.once]; exact c.ok (c.agree_refl _)
  | comment => simp only [Render.once]; exact c.ok (c.agree_refl _)
  | expression => simp only [Render.once]; exact c.ok (c.agree_refl _)
  | slot => simp only [Render.once]; exact c.ok (c.agree_refl _)
  | element tag selfClosing children span =>
    rw [Render.answer_once_element, Render.answer_once_element, c.maxDepth]
    split
    · next hk =>
      refine c.bind (c.opening hn hscope) fun opening opening' hopening => ?_
      cases hvoid : Element.isVoid tag.name with
      | true => exact c.ok hopening
      | false =>
        have hinside := nodes (fillings_deeper hfs (Nat.le_succ k)) hscope {} children
          (c.known_children hn hk hvoid)
        refine c.bind hinside fun inside inside' hagree => c.ok ?_
        have hclosing := c.agree_refl ("</" ++ tag.name ++ ">")
        simpa [String.append_assoc] using
          c.agree_append (c.agree_append hopening hagree) hclosing
    · next hk => exact c.tooDeep hn rfl (Nat.le_of_not_lt hk)
  | component tag children slots span =>
    rw [Render.answer_once_component, Render.answer_once_component, c.maxDepth, c.maxComponentDepth,
      ← hfs.length_eq]
    split
    · split
      · refine c.bind (c.template hn) fun template template' htemplate => ?_
        refine c.bind (c.props hn hscope) fun props props' hprops => ?_
        rw [htemplate.1]
        have hfilling : c.FillingAlike (k + 1) ⟨⟨children, slots⟩, σ⟩ ⟨⟨children, slots⟩, τ⟩ :=
          ⟨rfl, hscope, fun j hj => c.known_content hn j hj⟩
        exact nodes (.cons hfilling (fillings_deeper hfs (Nat.le_succ k))) hprops {}
          template.children htemplate.2
      · exact c.recursive hn
    · next hk => exact c.tooDeep hn rfl (Nat.le_of_not_lt hk)
termination_by (e.options.maxDepth - k, fs.length, sizeOf n, 0)

end

/-- Whole templates, rendered with bindings that are alike. -/
theorem template_children (t : Template) {b b' : Bindings} (hb : c.alike (Scope.root b) (Scope.root b'))
    (hknown : ∀ n ∈ t.children, c.known 0 n) :
    c.lift c.agree ((Render.template e t b).answer s) ((Render.template e' t b').answer s') :=
  c.nodes .nil hb {} t.children hknown

end Correspondence

/-! ## Keeping track of one rendering -/

section Tracking

variable {e e' : Engine} {s s' : Store} (hevaluator : e'.evaluator = e.evaluator)
  (hmaxDepth : e'.options.maxDepth = e.options.maxDepth)
  (hmaxComponentDepth : e'.options.maxComponentDepth = e.options.maxComponentDepth)

theorem append_congr {a b c d : String} (hab : a = b) (hcd : c = d) : a ++ c = b ++ d := by
  rw [hab, hcd]

/-- Whatever an engine keeps, it allows as many elements inside each other. -/
theorem Engine.maxDepth_withStore (e : Engine) (s : Store) :
    { e with store := s }.options.maxDepth = e.options.maxDepth := rfl

/-- Whatever an engine keeps, it allows as many components inside each other. -/
theorem Engine.maxComponentDepth_withStore (e : Engine) (s : Store) :
    { e with store := s }.options.maxComponentDepth = e.options.maxComponentDepth := rfl

/-- The correspondence of what is the same with two engines.  It keeps track of the nodes that come up
    and of the errors that rendering them gives. -/
def Correspondence.tracking (G : ViewError → Prop) (known : Nat → Node → Prop)
    (hexpression : ∀ err, G (.expression err))
    (template : ∀ {k tag children slots span}, known k (.component tag children slots span) →
      SameResult G (fun t u => u.children = t.children ∧ ∀ n ∈ t.children, known (k + 1) n)
        (e.componentIn tag.name s).1 (e'.componentIn tag.name s').1)
    (tooDeep : ∀ {k n tag}, known k n → n.tag? = some tag → e.options.maxDepth ≤ k →
      G (.nestedTooDeeply tag.name e.options.maxDepth))
    (recursive : ∀ {k tag children slots span}, known k (.component tag children slots span) →
      G (.recursiveComponent tag.name e.options.maxComponentDepth))
    (known_children : ∀ {k tag selfClosing children span},
      known k (.element tag selfClosing children span) → k < e.options.maxDepth →
      Element.isVoid tag.name = false → ∀ n ∈ children, known (k + 1) n)
    (known_fallback : ∀ {k name fallback span}, known k (.slot name fallback span) →
      ∀ n ∈ fallback, known k n)
    (known_content : ∀ {k tag children slots span}, known k (.component tag children slots span) →
      ∀ j, k < j → ∀ name content, SlotSupply.select ⟨children, slots⟩ name = some content →
      ∀ n ∈ content, known j n) : Correspondence e s e' s' :=
  have hrefl {α : Type} {R : α → α → Prop} (hR : ∀ a, R a a) (x : Except EvalError α) :
      SameResult G R (x.mapError .expression) (x.mapError .expression) := by
    cases x with
    | ok a => exact .ok (hR a)
    | error err => exact .error (hexpression err)
  { lift := SameResult G
    known := known
    alike := Eq
    agree := Eq
    ok := .ok
    bind := SameResult.bind
    agree_refl := fun _ => rfl
    agree_append := append_congr
    maxDepth := hmaxDepth
    maxComponentDepth := hmaxComponentDepth
    expression := by
      rintro _ source escaped _ σ _ _ rfl
      rw [hevaluator]
      exact hrefl (by intro _; rfl) _
    bodies := by
      rintro _ _ tag σ _ _ _ rfl
      rw [hevaluator]
      exact List.forall₂_refl _
    outcome := by
      rintro _ _ tag σ _ _ _ rfl
      rw [hevaluator]
      exact hrefl (by intro _; rfl) _
    opening := by
      rintro _ tag _ _ _ σ _ _ rfl
      rw [hevaluator]
      exact hrefl (by intro _; rfl) _
    props := by
      rintro _ tag _ _ _ σ _ _ rfl
      rw [hevaluator]
      exact hrefl (by intro _; rfl) _
    template := template
    tooDeep := fun hn htag hk => .error (tooDeep hn htag hk)
    recursive := fun hn => .error (recursive hn)
    known_children := known_children
    known_fallback := known_fallback
    known_content := known_content }

variable (e e') in
include hevaluator hmaxDepth hmaxComponentDepth in
/-- Rendering sees no more of an engine and its store than how expressions are evaluated, the two limits,
    and the templates of the components. -/
theorem Render.answer_template_congr
    (hcomponents : ∀ name, (e'.componentIn name s').1 = (e.componentIn name s).1) (t : Template)
    (bindings : Bindings) :
    (Render.template e t bindings).answer s = (Render.template e' t bindings).answer s' := by
  let c : Correspondence e s e' s' :=
    .tracking hevaluator hmaxDepth hmaxComponentDepth (fun _ => True) (fun _ _ => True)
      (fun _ => trivial)
      (fun {_ tag _ _ _} _ => by
        rw [hcomponents]
        exact .refl _ (fun _ _ => ⟨rfl, fun _ _ => trivial⟩) fun _ _ => trivial)
      (fun _ _ _ => trivial) (fun _ => trivial) (fun _ _ _ _ _ => trivial) (fun _ _ _ => trivial)
      (fun _ _ _ _ _ _ _ _ => trivial)
  exact (c.template_children t rfl fun _ _ => trivial).eq

end Tracking

end Stencil
