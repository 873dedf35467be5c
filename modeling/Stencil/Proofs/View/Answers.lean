import Stencil.Proofs.View.Closure
import Stencil.Proofs.View.Compiling
/-
  What rendering answers does not depend on what was rendered before.

  Rendering reads the store of compiled templates and adds to it, but only through the templates of
  components.  Two stores agree when they give the same template, or the same refusal, for every name; a
  store agrees with what it has become after a component was asked for, since each component is kept
  under its own name.  A rendering is steady when stores that agree give the same answer and the store it
  leaves agrees with the one it found.

  The main statement is that rendering is steady, so the answers of renderings put one behind the other
  can all be taken at the first store.
-/

namespace Stencil

/-! ## Stores that agree -/

namespace Engine

variable {e : Engine}

/-- Two stores give the same template, or the same refusal, for every component. -/
def Agree (e : Engine) (s s' : Store) : Prop :=
  ∀ name, (e.componentIn name s).1 = (e.componentIn name s').1

theorem Agree.refl (s : Store) : e.Agree s s := fun _ => rfl

theorem Agree.trans {s s' s'' : Store} (h : e.Agree s s') (h' : e.Agree s' s'') : e.Agree s s'' :=
  fun name => (h name).trans (h' name)

/-- A component that was compiled and kept is what compiling it again would give. -/
theorem agree_insert {s : Store} {name : String} {d : RegisteredComponent} {t : Template}
    (hd : e.registry.get? name = some d) (hcache : e.options.cache = true)
    (hnone : s.get? (.component d.name) = none) (ht : e.compileFresh d.source = .ok t) :
    e.Agree s (s.insert (.component d.name) t) := by
  intro other
  unfold componentIn
  cases hother : e.registry.get? other with
  | none => rfl
  | some d' =>
    dsimp only
    by_cases hname : d.name = d'.name
    · -- it is the same component, since each has its own name
      have hsame : other = name := by
        rw [← Registry.name_of_get?_eq_some hother, ← hname, Registry.name_of_get?_eq_some hd]
      rw [hsame, hd] at hother
      obtain rfl := Option.some.inj hother
      have hkept : (s.insert (.component d.name) t).get? (.component d.name) = some t := by
        rw [Store.get?_insert, if_pos (StoreKey.same_refl _)]
      rw [answer_compileUnder_of_get?_eq_none hnone, ht, compileUnder_of_get?_eq_some hcache hkept]
    · refine answer_compileUnder_congr ?_
      rw [Store.get?_insert, if_neg (by simpa [StoreKey.same] using hname)]

/-- Asking for a component leaves a store that agrees. -/
theorem agree_componentIn (e : Engine) (name : String) (s : Store) :
    e.Agree s (e.componentIn name s).2 := by
  unfold componentIn
  cases hd : e.registry.get? name with
  | none => exact Agree.refl s
  | some d =>
    dsimp only
    rcases e.compileUnder_cases (.component d.name) d.source s with
      ⟨_, -, -, heq⟩ | ⟨t, hcache, hnone, ht, heq⟩ | ⟨-, heq⟩
    · rw [heq]
      exact Agree.refl s
    · rw [heq]
      exact agree_insert hd hcache hnone ht
    · rw [heq]
      exact Agree.refl s

end Engine

/-! ## Steady renderings -/

/-- The answer of a rendering that starts with a store. -/
def Rendering.answer {α : Type} (m : Rendering α) (s : Store) : Except ViewError α := (m.run s).1

/-- The store that a rendering leaves. -/
def Rendering.storeAfter {α : Type} (m : Rendering α) (s : Store) : Store := (m.run s).2

/-- A rendering gives the same answer for stores that agree, and leaves a store that agrees. -/
structure Steady (e : Engine) {α : Type} (m : Rendering α) : Prop where
  answer_eq : ∀ s s', e.Agree s s' → m.answer s = m.answer s'
  agree : ∀ s, e.Agree s (m.storeAfter s)

namespace Rendering

variable {e : Engine} {α β : Type}

/-- The second of two renderings starts with the store that the first one leaves, and an error of the
    first is the error of both. -/
theorem run_bind (m : Rendering α) (f : α → Rendering β) (s : Store) :
    (m >>= f).run s =
      match m.run s with
      | (.ok a, left) => (f a).run left
      | (.error err, left) => (.error err, left) := by
  rw [ExceptT.run_bind]
  show StateT.bind m.run _ s = _
  cases hm : m.run s with
  | mk result left =>
    cases result with
    | ok a => simp [StateT.bind, hm, bind]
    | error err =>
      simp only [StateT.bind, hm, bind]
      rfl

theorem answer_bind_eq (m : Rendering α) (f : α → Rendering β) (s : Store) :
    answer (m >>= f) s = (answer m s).bind fun a => answer (f a) (storeAfter m s) := by
  unfold answer storeAfter
  rw [run_bind]
  rcases m.run s with ⟨_ | _, left⟩ <;> rfl

theorem answer_map (f : α → β) (m : Rendering α) (s : Store) : answer (f <$> m) s = (answer m s).map f := by
  rw [← bind_pure_comp, answer_bind_eq]
  cases answer m s <;> rfl

theorem storeAfter_bind (m : Rendering α) (f : α → Rendering β) (s : Store) :
    storeAfter (m >>= f) s =
      match answer m s with
      | .ok a => storeAfter (f a) (storeAfter m s)
      | .error _ => storeAfter m s := by
  unfold answer storeAfter
  rw [run_bind]
  rcases m.run s with ⟨_ | _, left⟩ <;> rfl

end Rendering

namespace Steady

open Rendering

variable {e : Engine} {α β : Type}

theorem pure (a : α) : Steady e (pure a : Rendering α) := ⟨fun _ _ _ => rfl, fun s => .refl s⟩

theorem throw (err : ViewError) : Steady e (throw err : Rendering α) :=
  ⟨fun _ _ _ => rfl, fun s => .refl s⟩

theorem component (name : String) : Steady e (Render.component e name) :=
  ⟨fun _ _ h => h name, fun s => e.agree_componentIn name s⟩

/-- The answer of a steady rendering and then another one may be taken at one store. -/
theorem answer_bind {m : Rendering α} {f : α → Rendering β} (hm : Steady e m)
    (hf : ∀ a, Steady e (f a)) (s : Store) :
    answer (m >>= f) s = (answer m s).bind fun a => answer (f a) s := by
  rw [answer_bind_eq]
  cases answer m s with
  | error err => rfl
  | ok a =>
    -- the store that is left agrees with the first one, so it gives the same answer
    exact ((hf a).answer_eq _ _ (hm.agree s)).symm

theorem bind {m : Rendering α} {f : α → Rendering β} (hm : Steady e m)
    (hf : ∀ a, Steady e (f a)) : Steady e (m >>= f) := by
  constructor
  · intro s s' h
    rw [hm.answer_bind hf, hm.answer_bind hf, hm.answer_eq s s' h]
    refine congrArg _ (funext fun a => ?_)
    exact (hf a).answer_eq s s' h
  · intro s
    rw [storeAfter_bind]
    split
    · next a _ => exact (hm.agree s).trans ((hf a).agree _)
    · exact hm.agree s

/-- Everything that rendering does is steady. -/
theorem closed (e : Engine) : Closed e fun m => Steady e m := ⟨pure, throw, component, bind⟩

theorem evaluated (result : Except EvalError α) : Steady e (Render.evaluated result) :=
  (closed e).evaluated result

theorem map {m : Rendering α} (f : α → β) (hm : Steady e m) : Steady e (f <$> m) :=
  (closed e).map f hm

end Steady

/-! ## Rendering is steady -/

namespace Render

theorem steady_nodes (e : Engine) (fillings : List Filling) (nesting : Nat) (scope : Scope)
    (p : Progress) (ns : List Node) : Steady e (nodes e fillings nesting scope p ns) :=
  (Steady.closed e).nodes fillings nesting scope p ns

theorem steady_sibling (e : Engine) (fillings : List Filling) (nesting : Nat) (scope : Scope)
    (p : Progress) (n : Node) : Steady e (sibling e fillings nesting scope p n) :=
  (Steady.closed e).sibling fillings nesting scope p n

theorem steady_once (e : Engine) (fillings : List Filling) (nesting : Nat) (scope : Scope)
    (n : Node) : Steady e (once e fillings nesting scope n) :=
  (Steady.closed e).once fillings nesting scope n

end Render

end Stencil
