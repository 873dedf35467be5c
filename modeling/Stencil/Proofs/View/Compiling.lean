import Stencil.Proofs.View.Stores
import Stencil.View.Engine
/-
  What compiling does with a store.

  All that is compiled, whether a page or a component, is compiled under a key.  It comes out of the store,
  or it is compiled anew and put there, or the store is left as it was; these are the three cases that all
  else about stores follows from.
-/

namespace Stencil

namespace Engine

variable {e : Engine} {key : StoreKey} {source : ViewSource} {s : Store} {t : Template}

/-! ## Compiling anew -/

theorem compileFresh_eq_ok_iff :
    e.compileFresh source = .ok t ↔
      ∃ markup, e.markupOf source = .ok markup ∧ Template.compile e.options.dialect markup = .ok t := by
  unfold compileFresh
  constructor
  · intro h
    split at h
    · cases h
    · next markup hmarkup =>
      split at h
      · next ht =>
        cases h
        exact ⟨markup, hmarkup, ht⟩
      · cases h
  · rintro ⟨markup, hmarkup, ht⟩
    simp only [hmarkup, ht]

theorem compileFresh_inline {markup : String} (h : Template.compile e.options.dialect markup = .ok t) :
    e.compileFresh (.inline markup) = .ok t :=
  compileFresh_eq_ok_iff.2 ⟨markup, rfl, h⟩

/-! ## Compiling under a key -/

/-- What the store has is served; what it has not is compiled anew, and kept if it compiles.  A store that
    may not be used is left as it was. -/
theorem compileUnder_cases (e : Engine) (key : StoreKey) (source : ViewSource) (s : Store) :
    (∃ t, e.options.cache = true ∧ s.get? key = some t ∧ e.compileUnder key source s = (.ok t, s)) ∨
    (∃ t, e.options.cache = true ∧ s.get? key = none ∧ e.compileFresh source = .ok t ∧
      e.compileUnder key source s = (.ok t, s.insert key t)) ∨
    ((e.options.cache = true → s.get? key = none) ∧
      e.compileUnder key source s = (e.compileFresh source, s)) := by
  unfold compileUnder Store.fetch
  split
  · next hcache =>
    cases hget : s.get? key with
    | some t => exact .inl ⟨t, hcache, rfl, rfl⟩
    | none =>
      cases ht : e.compileFresh source with
      | ok t => exact .inr (.inl ⟨t, hcache, rfl, rfl, rfl⟩)
      | error err => exact .inr (.inr ⟨fun _ => rfl, rfl⟩)
  · next hcache => exact .inr (.inr ⟨fun h => absurd h hcache, rfl⟩)

theorem compileUnder_of_get?_eq_some (hcache : e.options.cache = true) (hget : s.get? key = some t)
    (source : ViewSource) : e.compileUnder key source s = (.ok t, s) := by
  rcases e.compileUnder_cases key source s with ⟨t', -, hget', heq⟩ | ⟨_, -, hnone, -⟩ | ⟨hnone, -⟩
  · obtain rfl := Option.some.inj (hget.symm.trans hget')
    exact heq
  · cases hget.symm.trans hnone
  · cases hget.symm.trans (hnone hcache)

theorem compileUnder_of_get?_eq_none (hcache : e.options.cache = true) (hnone : s.get? key = none)
    (ht : e.compileFresh source = .ok t) : e.compileUnder key source s = (.ok t, s.insert key t) := by
  rw [compileUnder, if_pos hcache, Store.fetch, hnone]
  simp only [ht]

/-- What the store does not have is answered as if it were compiled anew. -/
theorem answer_compileUnder_of_get?_eq_none (hnone : s.get? key = none) (source : ViewSource) :
    (e.compileUnder key source s).1 = e.compileFresh source := by
  rcases e.compileUnder_cases key source s with ⟨t, -, hget, -⟩ | ⟨t, -, -, ht, heq⟩ | ⟨-, heq⟩
  · cases hget.symm.trans hnone
  · rw [heq, ht]
  · rw [heq]

/-- Stores that have the same under a key are answered from alike. -/
theorem answer_compileUnder_congr {s' : Store} (h : s.get? key = s'.get? key) :
    (e.compileUnder key source s).1 = (e.compileUnder key source s').1 := by
  rcases e.compileUnder_cases key source s with ⟨t, hcache, hget, heq⟩ | ⟨t, -, hnone, ht, heq⟩ | ⟨hnone, heq⟩
  · rw [heq, compileUnder_of_get?_eq_some hcache (h.symm.trans hget)]
  · rw [heq, answer_compileUnder_of_get?_eq_none (h.symm.trans hnone), ht]
  · rcases e.compileUnder_cases key source s' with ⟨t, hcache, hget, -⟩ | ⟨t, -, -, ht, heq'⟩ | ⟨-, heq'⟩
    · cases ((h.symm.trans (hnone hcache)).symm.trans hget)
    · rw [heq, heq', ht]
    · rw [heq, heq']

/-- A component with markup of its own is what the markup compiles to, where nothing was compiled before. -/
theorem answer_componentIn_inline {d : RegisteredComponent} {name markup : String}
    (hd : e.registry.get? name = some d) (hsource : d.source = .inline markup)
    (ht : Template.compile e.options.dialect markup = .ok t) : (e.componentIn name {}).1 = .ok t := by
  rw [componentIn, hd]
  dsimp only
  rw [answer_compileUnder_of_get?_eq_none (Store.get?_empty _), hsource, compileFresh_inline ht]

end Engine

end Stencil
