import Stencil.Proofs.Template.References
import Stencil.Proofs.View.Caching
/-
  Pages of a project that was checked.

  A component is compiled when a page first comes to it, so one that does not compile shows in the middle of a
  page.  Checking compiles every registered component beforehand.

  The invariant is that a store is traced: what it has under a key is what this key, or another one for the
  same template, means to the engine.  Each request keeps it, whatever the loader.  There is no other key for
  a component than its name, so a traced store answers for components as if they were compiled anew, and
  what a check has found is true for as long as the registry is the same.

  The main statement is that, after a check without failures, a page whose source compiles only fails for
  reasons that lie in rendering.
-/

namespace Stencil

/-! ## Rendering with components that compile -/

/-- The errors that arise while a template is rendered whose components compile. -/
inductive ViewError.OfRendering : ViewError → Prop where
  | unknownComponent (name : String) : OfRendering (.unknownComponent name)
  | expression (err : EvalError) : OfRendering (.expression err)
  | recursiveComponent (name : String) (limit : Nat) : OfRendering (.recursiveComponent name limit)
  | nestedTooDeeply (tag : String) (limit : Nat) : OfRendering (.nestedTooDeeply tag limit)

namespace Engine

variable {e : Engine} {s s' : Store}

/-- At this store a component is only refused when there is none of its name. -/
def ComponentsCompile (e : Engine) (s : Store) : Prop :=
  ∀ name err, (e.componentIn name s).1 = .error err → err = .unknownComponent name

theorem ComponentsCompile.of_agree (h : e.ComponentsCompile s) (hagree : e.Agree s s') :
    e.ComponentsCompile s' := by
  intro name err herr
  rw [← hagree name] at herr
  exact h name err herr

end Engine

/-- Where components compile, rendering any template gives no other errors than those of rendering. -/
theorem Render.error_ofRendering {e : Engine} {s : Store} (h : e.ComponentsCompile s) (t : Template)
    (bindings : Bindings) {err : ViewError}
    (herr : (Render.template e t bindings).answer s = .error err) : err.OfRendering := by
  let c : Correspondence e s e s :=
    .tracking rfl rfl rfl ViewError.OfRendering (fun _ _ => True) .expression
      (fun {_ tag _ _ _} _ => .refl _ (fun _ _ => ⟨rfl, fun _ _ => trivial⟩) fun err herr => by
        rw [h tag.name err herr]
        exact .unknownComponent tag.name)
      (fun _ _ _ => .nestedTooDeeply _ _) (fun _ => .recursiveComponent _ _)
      (fun _ _ _ _ _ => trivial) (fun _ _ _ => trivial) (fun _ _ _ _ _ _ _ _ => trivial)
  have hanswer : SameResult ViewError.OfRendering Eq ((Render.template e t bindings).answer s)
      ((Render.template e t bindings).answer s) := c.template_children t rfl fun _ _ => trivial
  rw [herr] at hanswer
  exact hanswer.of_error

/-- A name that a component is registered under is among the names of the registry. -/
theorem Registry.mem_names_of_get?_eq_some {r : Registry} {name : String} {d : RegisteredComponent}
    (h : r.get? name = some d) : name ∈ r.names :=
  List.mem_map.2 ⟨(name, d), Ordered.mem_of_get?_eq_some h, rfl⟩

namespace Engine

variable {e : Engine} {s : Store} {source : ViewSource} {t : Template}

/-! ## Traced stores -/

/-- What the store has under a key is what a key for the same template means to the engine. -/
def Traced (e : Engine) : Prop :=
  e.store.All fun key t => ∃ other, other.same key = true ∧ e.Means e.options.dialect other t

theorem Traced.serve (h : e.Traced) (r : Request) : (e.serve r).2.Traced := by
  have hcompiled : e.Upholds fun key t =>
      ∃ other, other.same key = true ∧ e.Means e.options.dialect other t :=
    fun _ key source t hsource ht other hsame => ⟨key, hsame, means_iff.2 ⟨source, hsource, ht⟩⟩
  have hkept := hcompiled.serve h r
  intro key t hget
  obtain ⟨other, hsame, hmeans⟩ := hkept key t hget
  rw [e.options_serve r]
  refine ⟨other, hsame, hmeans.serve r ?_⟩
  rw [Store.get?_congr _ hsame]
  exact Option.isSome_of_eq_some hget

theorem Traced.after (h : e.Traced) (rs : List Request) : (e.after rs).Traced := by
  induction rs generalizing e with
  | nil => exact h
  | cons r rs ih => exact ih (h.serve r)

/-- There is no other key for a component than its name, so it is answered as if it were compiled anew. -/
theorem Traced.answer_componentIn (h : e.Traced) {name : String} {d : RegisteredComponent}
    (hd : e.registry.get? name = some d) :
    (e.componentIn name e.store).1 = e.compileFresh d.source := by
  unfold componentIn
  rw [hd]
  dsimp only
  rcases e.compileUnder_cases (.component d.name) d.source e.store with
    ⟨t, -, hget, heq⟩ | ⟨t, -, -, ht, heq⟩ | ⟨-, heq⟩
  · obtain ⟨other, hsame, hmeans⟩ := h _ t hget
    obtain rfl : other = .component d.name := by
      cases other <;> simp_all [StoreKey.same]
    obtain ⟨source, hsource, ht⟩ := means_iff.1 hmeans
    rw [sourceOf?_component hd] at hsource
    obtain rfl := Option.some.inj hsource
    rw [heq, ht]
  · rw [heq, ht]
  · rw [heq]

/-! ## Checking -/

/-- When no failure is found among names, each of them compiles. -/
theorem componentIn_of_brokenAmong_eq_nil {names : List String} (h : (e.brokenAmong names s).1 = []) :
    ∀ name ∈ names, ∃ t, (e.componentIn name s).1 = .ok t := by
  induction names generalizing s with
  | nil => simp
  | cons name names ih =>
    unfold brokenAmong at h
    cases hresult : (e.componentIn name s).1 with
    | error err => simp [hresult] at h
    | ok t =>
      simp only [hresult] at h
      refine List.forall_mem_cons.2 ⟨⟨t, hresult⟩, fun other hother => ?_⟩
      obtain ⟨u, hu⟩ := ih h other hother
      exact ⟨u, (e.agree_componentIn name s other).trans hu⟩

/-- After a check without failures the source of each registered component compiles. -/
theorem Traced.compileFresh_of_checked (h : e.Traced) (hchecked : e.brokenComponents.1 = [])
    {name : String} {d : RegisteredComponent} (hd : e.registry.get? name = some d) :
    ∃ t, e.compileFresh d.source = .ok t := by
  rw [← h.answer_componentIn hd]
  exact componentIn_of_brokenAmong_eq_nil hchecked name (Registry.mem_names_of_get?_eq_some hd)

/-! ## Pages -/

theorem after_append (e : Engine) (rs rs' : List Request) :
    e.after (rs ++ rs') = (e.after rs).after rs' := by
  induction rs generalizing e with
  | nil => rfl
  | cons r rs ih => exact ih (e.serve r).2

theorem options_after (e : Engine) (rs : List Request) : (e.after rs).options = e.options := by
  induction rs generalizing e with
  | nil => rfl
  | cons r rs ih => rw [after, ih, options_serve]

/-- Compiling loses nothing that a store has. -/
theorem preserves_isSome (e : Engine) (key : StoreKey) :
    e.Preserves fun s => (s.get? key).isSome := by
  intro other source s _ hs
  rcases e.compileUnder_cases other source s with
    ⟨_, -, -, heq⟩ | ⟨t, -, -, -, heq⟩ | ⟨-, heq⟩
  · rw [heq]
    exact hs
  · rw [heq]
    show ((s.insert other t).get? key).isSome
    rw [Store.get?_insert]
    split
    · rfl
    · exact hs
  · rw [heq]
    exact hs

theorem isSome_after {key : StoreKey} (h : (e.store.get? key).isSome) {rs : List Request}
    (hrs : ∀ r ∈ rs, r.compiles = true) : ((e.after rs).store.get? key).isSome := by
  induction rs generalizing e with
  | nil => exact h
  | cons r rs ih =>
    obtain ⟨hr, hrs⟩ := List.forall_mem_cons.1 hrs
    exact ih ((e.preserves_isSome key).serve h hr) hrs

/-- What compiles anew is answered, if perhaps with what the store has. -/
theorem compileIn_eq_ok_of_compileFresh (ht : e.compileFresh source = .ok t) (s : Store) :
    ∃ u, (e.compileIn source s).1 = .ok u := by
  unfold compileIn
  rcases e.compileUnder_cases (.ofSource source) source s with
    ⟨u, -, -, heq⟩ | ⟨u, -, -, -, heq⟩ | ⟨-, heq⟩
  · exact ⟨u, by rw [heq]⟩
  · exact ⟨u, by rw [heq]⟩
  · exact ⟨t, by rw [heq, ht]⟩

/-- A source that has compiled compiles later on, if nothing is taken out of the store until then or if
    the loader does not tell paths with the same components apart. -/
theorem compileIn_after (e : Engine) (hstore : e.store = {}) {before later : List Request}
    (ht : ((e.after before).compile source).1 = .ok t)
    (hlater : e.loader.ByComponents ∨ ∀ r ∈ later, r.compiles = true) :
    ∃ u, ((e.after (before ++ later)).compileIn source (e.after (before ++ later)).store).1 = .ok u := by
  have hsound : e.Sound e.store := by
    rw [hstore]
    exact Store.all_empty
  have ht : ((e.after before).compileIn source (e.after before).store).1 = .ok t := ht
  rcases hlater with hloader | hlater
  · have hfresh := (hsound.after hloader before).answer_compileUnder
      ((e.after before).sourceOf?_ofSource source)
    refine compileIn_eq_ok_of_compileFresh (t := t) ?_ _
    rw [compileFresh_after, ← ht, ← compileFresh_after e before]
    exact hfresh.symm
  · rcases compileUnder_eq_ok_cases ht with ⟨hcache, hget⟩ | hfresh
    · have hkept := isSome_after (Option.isSome_of_eq_some hget) hlater
      obtain ⟨u, hu⟩ := Option.isSome_iff_exists.1 hkept
      rw [← options_after (e.after before) later] at hcache
      rw [after_append]
      exact ⟨u, congrArg Prod.fst (compileUnder_of_get?_eq_some hcache hu source)⟩
    · refine compileIn_eq_ok_of_compileFresh (t := t) ?_ _
      rw [compileFresh_after, ← hfresh, compileFresh_after]

/-- When every component has compiled, in a check made at any time with the registry there is now, and the
    source of a page has compiled since, then the page can only fail for reasons that lie in rendering. -/
theorem render_error_of_checked {e : Engine} (hstore : e.store = {})
    {checked before later : List Request} (hchecked : (e.after checked).brokenComponents.1 = [])
    (hregistry : (e.after (before ++ later)).registry = (e.after checked).registry)
    {source : ViewSource} {t : Template} (hcompiled : ((e.after before).compile source).1 = .ok t)
    (hlater : e.loader.ByComponents ∨ ∀ r ∈ later, r.compiles = true) (bindings : Bindings)
    {err : ViewError}
    (herr : ((e.after (before ++ later)).render source bindings).1 = .error err) :
    err.OfRendering := by
  have htraced : e.Traced := by
    rw [Traced, hstore]
    exact Store.all_empty
  have hnow : (e.after (before ++ later)).Traced := htraced.after _
  -- what the check has compiled compiles anew, so it is served now
  have hcomponents : (e.after (before ++ later)).ComponentsCompile (e.after (before ++ later)).store := by
    intro name err herr
    cases hd : (e.after (before ++ later)).registry.get? name with
    | none =>
      rw [componentIn, hd] at herr
      exact (Except.error.inj herr).symm
    | some d =>
      rw [hnow.answer_componentIn hd, compileFresh_after] at herr
      rw [hregistry] at hd
      obtain ⟨u, hu⟩ := (htraced.after checked).compileFresh_of_checked hchecked hd
      rw [compileFresh_after, herr] at hu
      cases hu
  obtain ⟨u, hu⟩ := compileIn_after e hstore hcompiled hlater
  rw [answer_render, hu] at herr
  exact Render.error_ofRendering (hcomponents.of_agree (agree_compileIn _ source _)) u _ herr

/-- A page that refers to a component nobody registered, in a project whose only component compiles. -/
theorem render_error_of_checked_unknown :
    let e : Engine := { loader := .memory [(⟨"c"⟩, "<p></p>")] }
    let rs : List Request := [.register "c" (.path ⟨"c"⟩) none false]
    e.store = {} ∧ (e.after rs).brokenComponents.1 = [] ∧
      (e.after (rs ++ [.clear])).registry = (e.after rs).registry ∧
      (∃ t, ((e.after rs).compile (.inline "<x-d></x-d>")).1 = .ok t) ∧ e.loader.ByComponents ∧
      ((e.after (rs ++ [.clear])).render (.inline "<x-d></x-d>") []).1 =
        .error (.unknownComponent "x-d") ∧ (ViewError.unknownComponent "x-d").OfRendering := by
  intro e rs
  have hlength : (e.after rs).brokenComponents.1.length = 0 := by decide +kernel
  have hchecked : (e.after rs).brokenComponents.1 = [] := List.length_eq_zero_iff.1 hlength
  have hunknown : (e.after (rs ++ [.clear])).registry.get? "x-d" = none := by decide +kernel
  obtain ⟨t, span, hcompiled, hchildren⟩ :=
    Template.exists_bareReference e.options.dialect "<x-d></x-d>" ⟨"x-d", [], {}, ⟨1, 4⟩, {}⟩ (by decide +kernel)
  have hserved : ((e.after rs).compile (.inline "<x-d></x-d>")).1 = .ok t :=
    answer_compile_inline rfl hcompiled
  have hagain : ((e.after (rs ++ [.clear])).compileIn (.inline "<x-d></x-d>")
      (e.after (rs ++ [.clear])).store).1 = .ok t := answer_compile_inline rfl hcompiled
  have herr : ((e.after (rs ++ [.clear])).render (.inline "<x-d></x-d>") []).1 =
      .error (.unknownComponent "x-d") := by
    rw [answer_render, hagain]
    show (Render.nodes _ [] 0 _ {} t.children).answer _ = _
    rw [hchildren, Render.answer_nodes_alone rfl rfl rfl, Render.answer_once_component, if_pos (by decide),
      if_pos (by decide), componentIn, hunknown]
    rfl
  have hloader : e.loader.ByComponents := Loader.memory_byComponents _
  refine ⟨rfl, hchecked, rfl, ⟨_, hserved⟩, hloader, herr, ?_⟩
  exact render_error_of_checked rfl hchecked rfl hserved (.inl hloader) [] herr

end Engine

end Stencil
