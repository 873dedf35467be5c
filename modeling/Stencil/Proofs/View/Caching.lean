import Stencil.Proofs.View.Correspondence
import Stencil.Proofs.View.Sessions
/-
  The store of compiled templates is not seen from outside.

  The invariant is that a store is sound: what it has under a key is what compiling the source of the key
  would give now.  Each request keeps it, registering a component included, since what was compiled under
  the name of a component goes when the registry gets another one for the name.

  At a sound store an engine answers as if it compiled everything anew.  The main statement puts the two
  together, request by request.
-/

namespace Stencil

namespace Engine

variable {e : Engine} {s : Store}

/-! ## Sound stores -/

/-- All that a store has is what its key means to the engine now. -/
def Sound (e : Engine) (s : Store) : Prop := s.All (e.Means e.options.dialect)

/-- What a sound store has is what compiling anew would give. -/
theorem Sound.compileFresh_of_get? (h : e.Sound s) {key : StoreKey} {source : ViewSource}
    (hkey : e.sourceOf? key = some source) {t : Template} (hget : s.get? key = some t) :
    e.compileFresh source = .ok t := by
  obtain ⟨found, hfound, ht⟩ := means_iff.1 (h key t hget)
  rw [hkey] at hfound
  obtain rfl := Option.some.inj hfound
  exact ht

theorem Sound.answer_compileUnder (h : e.Sound s) {key : StoreKey} {source : ViewSource}
    (hkey : e.sourceOf? key = some source) :
    (e.compileUnder key source s).1 = e.compileFresh source := by
  rcases e.compileUnder_cases key source s with
    ⟨t, -, hget, heq⟩ | ⟨t, -, -, ht, heq⟩ | ⟨-, heq⟩
  · rw [heq, h.compileFresh_of_get? hkey hget]
  · rw [heq, ht]
  · rw [heq]

/-- A source that does not compile is not in a sound store. -/
theorem Sound.get?_eq_none (h : e.Sound s) {key : StoreKey} {source : ViewSource} {err : ViewError}
    (hkey : e.sourceOf? key = some source) (herr : e.compileFresh source = .error err) :
    s.get? key = none := by
  cases hget : s.get? key with
  | none => rfl
  | some t =>
    rw [h.compileFresh_of_get? hkey hget] at herr
    cases herr

/-- Each request leaves a sound store. -/
theorem Sound.serve (hloader : e.loader.ByComponents) (h : e.Sound e.store) (r : Request) :
    (e.serve r).2.Sound (e.serve r).2.store := by
  have hkept := (upholds_means hloader).serve h r
  intro key t hget
  rw [e.options_serve r]
  exact (hkept key t hget).serve r (Option.isSome_of_eq_some hget)

/-! ## An engine that keeps nothing -/

/-- The engine, with options that forbid the store, and nothing in it. -/
def uncached (e : Engine) : Engine :=
  { e with store := {}, options := { e.options with cache := false } }

@[simp] theorem registry_uncached (e : Engine) : e.uncached.registry = e.registry := rfl

@[simp] theorem store_uncached (e : Engine) : e.uncached.store = {} := rfl

@[simp] theorem componentName_uncached (e : Engine) (name : String) :
    e.uncached.componentName name = e.componentName name := rfl

theorem compileUnder_uncached (e : Engine) (key : StoreKey) (source : ViewSource) (s : Store) :
    e.uncached.compileUnder key source s = (e.compileFresh source, s) := rfl

theorem Sound.compileIn_uncached (h : e.Sound s) (source : ViewSource) :
    e.uncached.compileIn source {} = ((e.compileIn source s).1, {}) := by
  rw [compileIn, compileUnder_uncached, compileIn, h.answer_compileUnder (e.sourceOf?_ofSource source)]

theorem Sound.componentIn_uncached (h : e.Sound s) (name : String) :
    e.uncached.componentIn name {} = ((e.componentIn name s).1, {}) := by
  unfold componentIn
  cases hd : e.registry.get? name with
  | none => simp only [registry_uncached, hd]
  | some d =>
    have hanswer := h.answer_compileUnder (sourceOf?_component hd)
    simp only [registry_uncached, hd, compileUnder_uncached, hanswer]

theorem Sound.brokenAmong_uncached (hloader : e.loader.ByComponents) (h : e.Sound s)
    (names : List String) : e.uncached.brokenAmong names {} = ((e.brokenAmong names s).1, {}) := by
  induction names generalizing s with
  | nil => rfl
  | cons name names ih =>
    have hmore := ih ((upholds_means hloader).preserves.componentIn name h)
    simp only [brokenAmong, h.componentIn_uncached, hmore]
    cases (e.componentIn name s).1 <;> rfl

/-- An engine that keeps nothing is the same after each request, but for its registry. -/
theorem store_serve_uncached (e : Engine) (r : Request) : (e.uncached.serve r).2.store = {} := by
  have hnothing : e.uncached.Upholds fun _ _ => False := fun hcache => by cases hcache
  exact Store.eq_empty_of_all (hnothing.serve Store.all_empty r)

/-- Both engines become the same, but for what they keep. -/
theorem serve_uncached (e : Engine) (r : Request) :
    (e.uncached.serve r).2 = (e.serve r).2.uncached := by
  cases hr : r with
  | register name source origin vendor =>
    simp only [serve, register, registry_uncached, componentName_uncached]
    cases e.registry.register ⟨e.componentName name, source, origin, vendor⟩ with
    | error err => rfl
    | ok result =>
      dsimp only
      split <;> rfl
  | _ =>
    rw [serve_eq_of_not_register, store_serve_uncached, serve_eq_of_not_register e]
    · rfl
    all_goals
      intro _ _ _ _ h
      cases h

/-- At a sound store a page is the one that an engine which keeps nothing would give. -/
theorem Sound.render_uncached (hloader : e.loader.ByComponents) (h : e.Sound e.store)
    (source : ViewSource) (bindings : Bindings) :
    (e.uncached.render source bindings).1 = (e.render source bindings).1 := by
  have hleft : e.Sound (e.compileIn source e.store).2 := (upholds_means hloader).preserves.compileIn source h
  rw [answer_render, answer_render, store_uncached, h.compileIn_uncached]
  refine congrArg _ (funext fun t => ?_)
  have hcomponents : ∀ name, (e.uncached.componentIn name {}).1 =
      (e.componentIn name (e.compileIn source e.store).2).1 := by
    intro name
    rw [hleft.componentIn_uncached]
  symm
  exact Render.answer_template_congr e e.uncached rfl rfl rfl hcomponents t _

/-- At a sound store a request is answered as by an engine that keeps nothing. -/
theorem Sound.reply_uncached (hloader : e.loader.ByComponents) (h : e.Sound e.store) (r : Request)
    (hr : r.isForget = false) : (e.uncached.serve r).1 = (e.serve r).1 := by
  cases r with
  | register name source origin vendor =>
    simp only [Engine.serve, register, registry_uncached, componentName_uncached]
    cases e.registry.register ⟨e.componentName name, source, origin, vendor⟩ <;> rfl
  | compile source => exact congrArg (Reply.template ·.1) (h.compileIn_uncached source)
  | templateOf name => exact congrArg (Reply.template ·.1) (h.componentIn_uncached name)
  | check => exact congrArg (Reply.failures ·.1) (h.brokenAmong_uncached hloader e.registry.names)
  | render source bindings => exact congrArg Reply.page (h.render_uncached hloader source bindings)
  | forget => cases hr
  | clear => rfl

/-! ## Whole sessions -/

/-- Requests leave a sound store, and the loader and the options as they were. -/
theorem Sound.after (hloader : e.loader.ByComponents) (h : e.Sound e.store) (rs : List Request) :
    (e.after rs).Sound (e.after rs).store := by
  induction rs generalizing e with
  | nil => exact h
  | cons r rs ih => exact ih (by rw [loader_serve]; exact hloader) (h.serve hloader r)

theorem compileFresh_after (e : Engine) (rs : List Request) :
    (e.after rs).compileFresh = e.compileFresh := by
  induction rs generalizing e with
  | nil => rfl
  | cons r rs ih =>
    rw [after, ih]
    rcases e.serve_cases r with ⟨_, hafter⟩ | ⟨_, hafter⟩ <;> rw [hafter] <;> rfl

theorem Sound.replies_uncached (hloader : e.loader.ByComponents) (h : e.Sound e.store)
    {rs : List Request} {i : Nat} {r : Request} (hr : rs[i]? = some r) (hforget : r.isForget = false) :
    (e.uncached.replies rs)[i]? = (e.replies rs)[i]? := by
  induction rs generalizing e i with
  | nil => cases hr
  | cons first rs ih =>
    cases i with
    | zero =>
      obtain rfl : first = r := Option.some.inj hr
      exact congrArg some (h.reply_uncached hloader first hforget)
    | succ i =>
      have hrest := ih (by rw [loader_serve]; exact hloader) (h.serve hloader first) hr
      simpa [replies, serve_uncached] using hrest

/-- What an engine that starts with nothing kept answers is what it would answer with a store it may not
    use.  What it keeps of a component is compiled from the definition the registry has now, and nothing
    is kept of a source that does not compile. -/
theorem replies_eq_without_cache (e : Engine) (hstore : e.store = {})
    (hloader : e.loader.ByComponents) (rs : List Request) :
    (∀ (i : Nat) (r : Request), rs[i]? = some r → r.isForget = false →
      (e.replies rs)[i]? =
        ({ e with options := { e.options with cache := false } }.replies rs)[i]?) ∧
    (∀ name t, (e.after rs).store.get? (.component name) = some t →
      ∃ d, (e.after rs).registry.get? name = some d ∧ e.compileFresh d.source = .ok t) ∧
    ∀ key source err, (e.after rs).sourceOf? key = some source → e.compileFresh source = .error err →
      (e.after rs).store.get? key = none := by
  have hsound : e.Sound e.store := by
    rw [hstore]
    exact Store.all_empty
  have huncached : { e with options := { e.options with cache := false } } = e.uncached := by
    rw [uncached, hstore]
  have hafter := hsound.after hloader rs
  refine ⟨fun i r hr hforget => ?_, fun name t hget => ?_, fun key source err hsource herr => ?_⟩
  · rw [huncached]
    exact (hsound.replies_uncached hloader hr hforget).symm
  · obtain ⟨source, hsource, ht⟩ := means_iff.1 (hafter _ t hget)
    obtain ⟨d, hd, rfl⟩ := Option.map_eq_some_iff.1 hsource
    exact ⟨d, hd, by rw [← ht, compileFresh_after]⟩
  · exact hafter.get?_eq_none hsource (by rw [compileFresh_after, herr])

/-- A path written in two ways, and a component that takes the place of another after a page with it. -/
theorem replies_eq_without_cache_memory :
    let e : Engine := { loader := .memory [(⟨"a/b"⟩, "<x-c></x-c>")] }
    let rs : List Request :=
      [.register "c" (.inline "<b></b>") none true, .render (.path ⟨"a//b"⟩) [],
        .register "c" (.inline "<i></i>") none false, .render (.path ⟨"a/b"⟩) []]
    e.store = {} ∧ e.loader.ByComponents ∧ (e.replies rs)[3]? =
      ({ e with options := { e.options with cache := false } }.replies rs)[3]? := by
  intro e rs
  have hloader : e.loader.ByComponents := Loader.memory_byComponents _
  exact ⟨rfl, hloader, (replies_eq_without_cache e rfl hloader rs).1 3 _ rfl rfl⟩

end Engine

end Stencil
