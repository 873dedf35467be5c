import Stencil.Proofs.Expression.Alike
import Stencil.Proofs.View.Correspondence
/-
  Rendering sees scopes through the values of names.

  All that rendering does with a scope is to evaluate expressions in it and to put frames on top of it.  So
  with an evaluator that sees scopes through the values of names, scopes that are alike give the same texts
  of attributes and the same props, and directives expand to bodies that are alike again, with the same
  outcome.

  These are the steps of a correspondence, so the main statement follows for whole renderings: two scopes
  that are alike cannot be told apart, in what is rendered here and in what the fillings bring along.
-/

namespace Stencil

variable {evaluate : Evaluator} {σ τ : Scope}

/-! ## Texts and props -/

section Evaluations

variable (h : ∀ source, evaluate source σ = evaluate source τ)
include h

namespace Interpolation

theorem renderAll_congr (pieces : List Piece) :
    renderAll evaluate σ pieces = renderAll evaluate τ pieces := by
  induction pieces with
  | nil => rfl
  | cons piece pieces ih =>
    have hpiece : piece.render evaluate σ = piece.render evaluate τ := by
      cases piece with
      | literal => rfl
      | expression source escaped => rw [Piece.render, Piece.render, h source]
    rw [renderAll, renderAll, hpiece, ih]

theorem interpolate_congr (text : String) : interpolate evaluate σ text = interpolate evaluate τ text :=
  renderAll_congr h _

end Interpolation

namespace Render

theorem attributeText_congr (a : Attribute) : attributeText evaluate σ a = attributeText evaluate τ a := by
  unfold attributeText
  cases a.value with
  | bare => rfl
  | literal text => simp only [Interpolation.interpolate_congr h text]
  | expression source => simp only [h source]

theorem attributesText_congr (attributes : List Attribute) :
    attributesText evaluate σ attributes = attributesText evaluate τ attributes := by
  induction attributes with
  | nil => rfl
  | cons a more ih => rw [attributesText, attributesText, attributeText_congr h a, ih]

theorem openingText_congr (tag : Tag) : openingText evaluate σ tag = openingText evaluate τ tag := by
  rw [openingText, openingText, attributesText_congr h]

end Render

namespace Props

theorem value_congr (v : AttributeValue) : value evaluate σ v = value evaluate τ v := by
  cases v with
  | bare => rfl
  | literal text => rw [value, value, Interpolation.interpolate_congr h]
  | expression source => exact h source

theorem ofAttributes_congr (attributes : List Attribute) :
    ofAttributes evaluate σ attributes = ofAttributes evaluate τ attributes := by
  have hfrom : ∀ props, bindFrom evaluate σ props attributes = bindFrom evaluate τ props attributes := by
    induction attributes with
    | nil => intro _; rfl
    | cons a more ih =>
      intro props
      simp only [bindFrom, value_congr h a.value, ih]
  exact hfrom []

end Props

end Evaluations

/-! ## Directives -/

namespace Expansion

/-- The bodies are alike, one by one, and the outcomes are the same. -/
structure Alike (x y : Expansion) : Prop where
  bodies : List.Forall₂ Scope.Alike x.bodies y.bodies
  outcome : x.outcome = y.outcome

variable (hnames : evaluate.ByNames)

theorem alike_error (err : EvalError) : Alike ⟨[], .error err⟩ ⟨[], .error err⟩ := ⟨.nil, rfl⟩

theorem alike_done (outcome : Outcome) : Alike ⟨[], .ok outcome⟩ ⟨[], .ok outcome⟩ := ⟨.nil, rfl⟩

theorem alike_roundScope (h : σ.Alike τ) (loop : Foreach) (key item : Value) :
    (roundScope loop σ key item).Alike (roundScope loop τ key item) := by
  unfold roundScope
  cases loop.key with
  | none => exact h.child.set loop.item item
  | some name => exact (h.child.set name key).set loop.item item

include hnames

theorem holds_congr (h : σ.Alike τ) (condition : Condition) :
    holds evaluate condition σ = holds evaluate condition τ := by
  unfold holds
  cases condition.test.expression? with
  | none => rfl
  | some source => exact congrArg (Except.map Value.truthy) (hnames source σ τ h)

theorem alike_rounds (h : σ.Alike τ) (loop : Foreach) (filter : Option Condition) (chosen : Bool)
    (entries : List (Value × Value)) :
    Alike (rounds evaluate loop filter σ chosen entries) (rounds evaluate loop filter τ chosen entries) := by
  induction entries generalizing chosen with
  | nil => exact alike_done _
  | cons entry entries ih =>
    obtain ⟨key, item⟩ := entry
    have hround := alike_roundScope h loop key item
    cases filter with
    | none => exact ⟨.cons hround (ih chosen).bodies, (ih chosen).outcome⟩
    | some condition =>
      rw [rounds, rounds]
      dsimp only
      rw [holds_congr hnames hround condition]
      cases holds evaluate condition (roundScope loop τ key item) with
      | error err => exact alike_error err
      | ok held =>
        cases held with
        | false => exact ih chosen
        | true => exact ⟨.cons hround (ih true).bodies, (ih true).outcome⟩

theorem alike_loopOver (h : σ.Alike τ) (loop : Foreach) (filter : Option Condition) :
    Alike (loopOver evaluate loop filter σ) (loopOver evaluate loop filter τ) := by
  unfold loopOver
  rw [hnames loop.iterable σ τ h]
  cases evaluate loop.iterable τ with
  | error err => exact alike_error err
  | ok iterable =>
    dsimp only
    split
    · exact alike_error _
    · exact alike_done _
    · exact alike_rounds hnames h loop filter _ _

theorem alike_expand (h : σ.Alike τ) (d : Directives) :
    Alike (expand evaluate d σ) (expand evaluate d τ) := by
  unfold expand
  cases d.condition with
  | none =>
    cases d.foreach? with
    | none => exact ⟨.cons h .nil, rfl⟩
    | some loop => exact alike_loopOver hnames h loop none
  | some condition =>
    have hholds := holds_congr hnames h condition
    cases d.foreach? with
    | none =>
      simp only [hholds]
      cases holds evaluate condition τ with
      | error err => exact alike_error err
      | ok held =>
        cases held with
        | false => exact alike_done _
        | true => exact ⟨.cons h .nil, rfl⟩
    | some loop =>
      simp only [hholds]
      split
      · cases holds evaluate condition τ with
        | error err => exact alike_error err
        | ok held =>
          cases held with
          | false => exact alike_done _
          | true =>
            have hall := alike_loopOver hnames h loop none
            exact ⟨hall.bodies, congrArg (Except.map _) hall.outcome⟩
      · exact alike_loopOver hnames h loop (some condition)

end Expansion

/-! ## Whole renderings -/

/-- Fillings with the same content, for scopes that are alike. -/
structure Filling.Alike (f g : Filling) : Prop where
  content : g.content = f.content
  scope : f.scope.Alike g.scope

theorem Filling.Alike.refl (f : Filling) : f.Alike f := ⟨rfl, .refl _⟩

/-- The correspondence of an engine with itself, at one store, in scopes that are alike. -/
def Correspondence.byNames {e : Engine} (hnames : e.evaluator.ByNames) (s : Store) :
    Correspondence e s e s where
  lift := SameResult fun _ => True
  known _ _ := True
  alike := Scope.Alike
  agree := Eq
  ok := .ok
  bind := SameResult.bind
  agree_refl _ := rfl
  agree_append := append_congr
  maxDepth := e.maxDepth_withStore s
  maxComponentDepth := e.maxComponentDepth_withStore s
  expression := by
    intro _ source escaped _ σ τ _ h
    rw [hnames source σ τ h]
    exact .refl _ (fun _ _ => rfl) fun _ _ => trivial
  bodies _ _ h := (Expansion.alike_expand hnames h _).bodies
  outcome := by
    intro _ _ tag σ τ _ _ h
    rw [(Expansion.alike_expand hnames h tag.directives).outcome]
    exact .refl _ (fun _ _ => rfl) fun _ _ => trivial
  opening := by
    intro _ tag _ _ _ σ τ _ h
    rw [Render.openingText_congr (fun source => hnames source σ τ h) tag]
    exact .refl _ (fun _ _ => rfl) fun _ _ => trivial
  props := by
    intro _ tag _ _ _ σ τ _ h
    rw [Props.ofAttributes_congr (fun source => hnames source σ τ h)]
    exact .refl _ (fun _ _ => .refl _) fun _ _ => trivial
  template _ := .refl _ (fun _ _ => ⟨rfl, fun _ _ => trivial⟩) fun _ _ => trivial
  tooDeep _ _ _ := .error trivial
  recursive _ := .error trivial
  known_children _ _ _ _ _ := trivial
  known_fallback _ _ _ := trivial
  known_content _ _ _ _ _ _ _ _ := trivial

namespace Render

variable {e : Engine}

/-- Siblings give the same answer in scopes that are alike, with fillings for scopes that are alike. -/
theorem answer_nodes_of_alike (hnames : e.evaluator.ByNames) {fs gs : List Filling}
    (hfs : List.Forall₂ Filling.Alike fs gs) (h : σ.Alike τ) (nesting : Nat) (p : Progress)
    (ns : List Node) (s : Store) :
    (nodes e fs nesting σ p ns).answer s = (nodes e gs nesting τ p ns).answer s := by
  have hfillings : List.Forall₂ ((Correspondence.byNames hnames s).FillingAlike nesting) fs gs :=
    hfs.imp fun _ _ hfg => ⟨hfg.content, hfg.scope, fun _ _ _ _ _ _ _ => trivial⟩
  exact ((Correspondence.byNames hnames s).nodes hfillings h p ns fun _ _ => trivial).eq

/-- With expressions that are parsed and evaluated, whatever functions they may call, scopes are only seen
    through the values of names.  Siblings give the same text or error in scopes that are alike; binding a
    name that has no binding to null changes nothing; and a page is the same for final bindings that are
    alike. -/
theorem answer_eq_of_alike {e : Engine} {functions : Functions}
    (hevaluator : e.evaluator = functions.evaluator) :
    (∀ σ τ : Scope, (∀ name, σ.get name = τ.get name) →
      ∀ fs gs, List.Forall₂ Filling.Alike fs gs → ∀ nesting p ns s,
        (nodes e fs nesting σ p ns).answer s = (nodes e gs nesting τ p ns).answer s) ∧
    (∀ (σ : Scope) name, σ.lookup name = none → ∀ fs nesting p ns s,
      (nodes e fs nesting (σ.set name .null) p ns).answer s = (nodes e fs nesting σ p ns).answer s) ∧
    ∀ source b b',
      (∀ name, (Scope.root (e.finalBindings source b)).get name =
        (Scope.root (e.finalBindings source b')).get name) →
      (e.render source b).1 = (e.render source b').1 := by
  have hnames : e.evaluator.ByNames := by
    rw [hevaluator]
    exact functions.evaluator_byNames
  refine ⟨?_, ?_, ?_⟩
  · intro σ τ h fs gs hfs nesting p ns s
    exact answer_nodes_of_alike hnames hfs h nesting p ns s
  · intro σ name h fs nesting p ns s
    have hfs : List.Forall₂ Filling.Alike fs fs := List.forall₂_same.2 fun f _ => .refl f
    exact answer_nodes_of_alike hnames hfs (Scope.alike_set_null h) nesting p ns s
  · intro source b b' h
    rw [Engine.answer_render, Engine.answer_render]
    refine congrArg _ (funext fun t => ?_)
    exact answer_nodes_of_alike hnames .nil h 0 {} t.children _

/-- A binding that hides another one, and one to null: neither can be told from a single binding. -/
theorem answer_eq_of_alike_hidden :
    let e : Engine := { loader := .memory [] }
    let σ : Scope := (Scope.root [("a", .bool true)]).child.set "a" (.text "x")
    let τ : Scope := Scope.root [("a", .text "x")]
    e.evaluator = Functions.builtin.evaluator ∧ (∀ name, σ.get name = τ.get name) ∧
      (∀ ns s, (nodes e [⟨⟨ns, []⟩, σ⟩] 0 σ {} ns).answer s =
        (nodes e [⟨⟨ns, []⟩, τ⟩] 0 τ {} ns).answer s) ∧
      τ.lookup "b" = none ∧
      (∀ ns s, (nodes e [] 0 (τ.set "b" .null) {} ns).answer s = (nodes e [] 0 τ {} ns).answer s) ∧
      ∀ source, (e.render source [("a", .text "x"), ("b", .null)]).1 =
        (e.render source [("a", .text "x")]).1 := by
  intro e σ τ
  have halike : σ.Alike τ := by
    intro name
    show σ.get name = ((Scope.root []).set "a" (.text "x")).get name
    rw [Scope.get_set, Scope.get_set, Scope.get_child]
    split
    · rfl
    · next ha => simp [Scope.get, Scope.lookup, Scope.lookupIn, Scope.root, Ordered.get?, ha]
  have hlookup : τ.lookup "b" = none := by decide
  have hevaluator : e.evaluator = Functions.builtin.evaluator := rfl
  obtain ⟨hnodes, hnull, hpage⟩ := answer_eq_of_alike hevaluator
  refine ⟨hevaluator, halike, fun ns s => ?_, hlookup, fun ns s => ?_, fun source => ?_⟩
  · have hfilling : Filling.Alike ⟨⟨ns, []⟩, σ⟩ ⟨⟨ns, []⟩, τ⟩ := ⟨rfl, halike⟩
    exact hnodes σ τ halike _ _ (.cons hfilling .nil) 0 {} ns s
  · exact hnull τ "b" hlookup [] 0 {} ns s
  · exact hpage source _ _ (Scope.alike_set_null hlookup)

end Render

end Stencil
