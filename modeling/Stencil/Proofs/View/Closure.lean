import Stencil.Proofs.View.SiblingTexts
/-
  What holds of all renderings.

  A rendering is put together from answers, refusals and the templates of components.  A property that
  these have, and that two renderings have one behind the other if each has it, is a property of
  rendering nodes, whatever the nodes are.
-/

namespace Stencil

/-- A property of renderings that goes over from the parts of a rendering to the whole. -/
structure Rendering.Closed (e : Engine) (C : {α : Type} → Rendering α → Prop) : Prop where
  pure : ∀ {α : Type} (a : α), C (pure a : Rendering α)
  throw : ∀ {α : Type} (err : ViewError), C (throw err : Rendering α)
  component : ∀ name, C (Render.component e name)
  bind : ∀ {α β : Type} {m : Rendering α} {f : α → Rendering β}, C m → (∀ a, C (f a)) → C (m >>= f)

namespace Rendering.Closed

variable {e : Engine} {C : {α : Type} → Rendering α → Prop} {α β : Type}

theorem evaluated (h : Closed e C) (result : Except EvalError α) : C (Render.evaluated result) := by
  cases result with
  | ok a => exact h.pure a
  | error err => exact h.throw _

theorem map (h : Closed e C) (f : α → β) {m : Rendering α} (hm : C m) : C (f <$> m) := by
  rw [map_eq_pure_bind]
  exact h.bind hm fun a => h.pure (f a)

theorem mapM (h : Closed e C) {f : α → Rendering β} (hf : ∀ a, C (f a)) (as : List α) :
    C (as.mapM f) := by
  induction as with
  | nil =>
    rw [List.mapM_nil]
    exact h.pure []
  | cons a as ih =>
    rw [List.mapM_cons]
    exact h.bind (hf a) fun b => h.bind ih fun bs => h.pure (b :: bs)

mutual

theorem nodes (h : Closed e C) (fillings : List Filling) (nesting : Nat) (scope : Scope) (p : Progress)
    (ns : List Node) : C (Render.nodes e fillings nesting scope p ns) :=
  match ns with
  | [] => by
    rw [Render.nodes]
    exact h.pure _
  | n :: rest => by
    rw [Render.nodes_cons]
    refine h.bind (sibling h fillings nesting scope p n) ?_
    rintro ⟨_, q⟩
    exact h.bind (nodes h fillings nesting scope q rest) fun _ => h.pure _
termination_by (e.options.maxDepth - nesting, fillings.length, sizeOf ns, 0)

theorem sibling (h : Closed e C) (fillings : List Filling) (nesting : Nat) (scope : Scope)
    (p : Progress) (n : Node) : C (Render.sibling e fillings nesting scope p n) := by
  unfold Render.sibling
  split
  · refine h.bind ?_ fun _ => h.pure _
    cases n with
    | text => exact h.pure _
    | comment => exact h.pure _
    | expression => exact h.bind (h.evaluated _) fun _ => h.pure _
    | slot name fallback =>
      unfold Render.untaggedText
      cases fillings with
      | nil => exact nodes h [] nesting scope {} fallback
      | cons filling outer =>
        -- a filling is rendered with the scope and the fillings of the place it was written at
        dsimp only
        split
        · next content _ => exact nodes h outer nesting filling.scope {} content
        · exact nodes h (filling :: outer) nesting scope {} fallback
    | element => exact h.pure _
    | component => exact h.pure _
  · split
    · exact h.pure _
    · refine h.bind ?_ fun _ => h.pure _
      exact h.bind (h.mapM (fun inner => once h fillings nesting inner n) _) fun _ =>
        h.bind (h.evaluated _) fun _ => h.pure _
termination_by (e.options.maxDepth - nesting, fillings.length, sizeOf n, 1)

theorem once (h : Closed e C) (fillings : List Filling) (nesting : Nat) (scope : Scope) (n : Node) :
    C (Render.once e fillings nesting scope n) := by
  cases n with
  | text => simp only [Render.once]; exact h.pure _
  | comment => simp only [Render.once]; exact h.pure _
  | expression => simp only [Render.once]; exact h.pure _
  | slot => simp only [Render.once]; exact h.pure _
  | element tag selfClosing children s =>
    rw [Render.once]
    split
    · refine h.bind (h.evaluated _) fun _ => ?_
      split
      · exact h.pure _
      · exact h.bind (nodes h fillings (nesting + 1) scope {} children) fun _ => h.pure _
    · exact h.throw _
  | component tag children slots s =>
    rw [Render.once]
    split
    · split
      · refine h.bind (h.component _) fun template => h.bind (h.evaluated _) fun props => ?_
        exact nodes h _ (nesting + 1) (Scope.root props) {} template.children
      · exact h.throw _
    · exact h.throw _
termination_by (e.options.maxDepth - nesting, fillings.length, sizeOf n, 0)

end

end Rendering.Closed

end Stencil
