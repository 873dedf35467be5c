import Stencil.Proofs.View.Answers
import Stencil.View.Renderer
/-
  What engines are asked for, one request after the other.

  An engine answers a request and is, in its registry and its store, what the request has made of it.  Its
  store only ever takes in what the engine has compiled just then, and lets go of a component that is
  registered again.

  The main statements are about one request: a store keeps to any property that all the engine compiles
  has, and what is still in the store means what it meant before.
-/

namespace Stencil

/-! ## Requests -/

/-- What an engine may be asked for. -/
inductive Request where
  | register (name : String) (source : ViewSource) (origin : Option Path) (vendor : Bool)
  | compile (source : ViewSource)
  | templateOf (name : String)
  | check
  | render (source : ViewSource) (bindings : Bindings)
  /-- Take a template out of the store. -/
  | forget (key : StoreKey)
  /-- Take all templates out of the store. -/
  | clear

/-- What an engine answers. -/
inductive Reply where
  | registered (result : Except ViewError Registration)
  | template (result : Except ViewError Template)
  | failures (found : List (String × ViewError))
  | page (result : Except ViewError String)
  /-- Whether there was something to forget. -/
  | forgotten (kept : Bool)
  | cleared

/-- Whether a request is answered by the store alone. -/
def Request.isForget : Request → Bool
  | .forget _ => true
  | _ => false

/-- Whether a request may have something compiled, or taken out of the store in place of that. -/
def Request.compiles : Request → Bool
  | .compile _ | .templateOf _ | .check | .render .. => true
  | .register .. | .forget _ | .clear => false

/-- The key of the template that a request asks for. -/
def Request.key? : Request → Option StoreKey
  | .compile source => some (.ofSource source)
  | .templateOf name => some (.component name)
  | _ => none

namespace Engine

/-- Answer a request; the answer, and the engine after it. -/
def serve (e : Engine) : Request → Reply × Engine
  | .register name source origin vendor =>
    match e.register name source origin vendor with
    | .error err => (.registered (.error err), e)
    | .ok (done, after) => (.registered (.ok done), after)
  | .compile source => (.template (e.compile source).1, (e.compile source).2)
  | .templateOf name => (.template (e.templateOf name).1, (e.templateOf name).2)
  | .check => (.failures e.brokenComponents.1, e.brokenComponents.2)
  | .render source bindings => (.page (e.render source bindings).1, (e.render source bindings).2)
  | .forget key => (.forgotten (e.store.forget key).1, { e with store := (e.store.forget key).2 })
  | .clear => (.cleared, { e with store := {} })

/-- The answers to requests. -/
def replies (e : Engine) : List Request → List Reply
  | [] => []
  | r :: rs => (e.serve r).1 :: (e.serve r).2.replies rs

/-- The engine after requests. -/
def after (e : Engine) : List Request → Engine
  | [] => e
  | r :: rs => (e.serve r).2.after rs

/-! ## What a store takes in -/

/-- The source that a key stands for. -/
def sourceOf? (e : Engine) : StoreKey → Option ViewSource
  | .path p => some (.path p)
  | .inline markup => some (.inline markup)
  | .component name => (e.registry.get? name).map RegisteredComponent.source

theorem sourceOf?_ofSource (e : Engine) (source : ViewSource) :
    e.sourceOf? (.ofSource source) = some source := by
  cases source <;> rfl

theorem sourceOf?_component {e : Engine} {name : String} {d : RegisteredComponent}
    (h : e.registry.get? name = some d) : e.sourceOf? (.component d.name) = some d.source := by
  rw [Registry.name_of_get?_eq_some h, sourceOf?, h, Option.map_some]

/-- Compiling whatever an engine may be asked for keeps a property of the store. -/
def Preserves (e : Engine) (Q : Store → Prop) : Prop :=
  ∀ key source s, e.sourceOf? key = some source → Q s → Q (e.compileUnder key source s).2

namespace Preserves

variable {e : Engine} {Q : Store → Prop} {s : Store}

theorem compileIn (h : e.Preserves Q) (source : ViewSource) (hs : Q s) : Q (e.compileIn source s).2 :=
  h _ source s (e.sourceOf?_ofSource source) hs

theorem componentIn (h : e.Preserves Q) (name : String) (hs : Q s) : Q (e.componentIn name s).2 := by
  unfold Engine.componentIn
  cases hd : e.registry.get? name with
  | none => exact hs
  | some d => exact h _ d.source s (sourceOf?_component hd) hs

theorem brokenAmong (h : e.Preserves Q) (names : List String) (hs : Q s) :
    Q (e.brokenAmong names s).2 := by
  induction names generalizing s with
  | nil => exact hs
  | cons name names ih =>
    have hmore := ih (h.componentIn name hs)
    unfold Engine.brokenAmong
    cases hresult : (e.componentIn name s).1 <;> simpa [hresult] using hmore

/-- A rendering that is given a store with the property leaves one with the property. -/
theorem closed (h : e.Preserves Q) :
    Rendering.Closed e fun m => ∀ s, Q s → Q (m.storeAfter s) where
  pure := fun _ _ hs => hs
  throw := fun _ _ hs => hs
  component := fun name _ hs => h.componentIn name hs
  bind := by
    intro _ _ m f hm hf s hs
    rw [Rendering.storeAfter_bind]
    split
    · exact hf _ _ (hm s hs)
    · exact hm s hs

theorem render (h : e.Preserves Q) (source : ViewSource) (bindings : Bindings) (hs : Q e.store) :
    Q (e.render source bindings).2.store := by
  have hcompiled := h.compileIn source hs
  unfold Engine.render
  split
  · next hc =>
    rw [hc] at hcompiled
    exact hcompiled
  · next t left hc =>
    rw [hc] at hcompiled
    exact h.closed.nodes [] 0 _ {} t.children left hcompiled

/-- A request that may have something compiled keeps the property. -/
theorem serve (h : e.Preserves Q) (hs : Q e.store) {r : Request} (hr : r.compiles = true) :
    Q (e.serve r).2.store := by
  cases r with
  | compile source => exact h.compileIn source hs
  | templateOf name => exact h.componentIn name hs
  | check => exact h.brokenAmong _ hs
  | render source bindings => exact h.render source bindings hs
  | register => cases hr
  | forget => cases hr
  | clear => cases hr

end Preserves

/-- All that an engine may put into a store has a property. -/
def Upholds (e : Engine) (P : StoreKey → Template → Prop) : Prop :=
  e.options.cache = true → ∀ key source t, e.sourceOf? key = some source →
    e.compileFresh source = .ok t → ∀ other, key.same other = true → P other t

theorem Upholds.preserves {e : Engine} {P : StoreKey → Template → Prop} (h : e.Upholds P) :
    e.Preserves (Store.All P) := by
  intro key source s hkey hs
  rcases e.compileUnder_cases key source s with
    ⟨_, -, -, heq⟩ | ⟨t, hcache, -, ht, heq⟩ | ⟨-, heq⟩
  · rw [heq]
    exact hs
  · rw [heq]
    exact hs.insert (h hcache key source t hkey ht)
  · rw [heq]
    exact hs

end Engine

/-! ## Registering -/

/-- A component that is registered is put under its name, or is ignored. -/
theorem Registry.register_cases {r after : Registry} {d : RegisteredComponent} {done : Registration}
    (h : r.register d = .ok (done, after)) :
    done = .ignored ∧ after = r ∨ done ≠ .ignored ∧ after = r.put d := by
  unfold Registry.register at h
  split at h
  · cases h
    exact .inr ⟨nofun, rfl⟩
  · split at h
    · cases h
      exact .inr ⟨nofun, rfl⟩
    · split at h
      · cases h
        exact .inl ⟨rfl, rfl⟩
      · cases h

namespace Engine

/-- After registering the engine is as before, or it has the component and keeps nothing under its
    name. -/
theorem serve_register_cases (e : Engine) (name : String) (source : ViewSource) (origin : Option Path)
    (vendor : Bool) :
    (e.serve (.register name source origin vendor)).2 = e ∨
      ∃ d : RegisteredComponent, (e.serve (.register name source origin vendor)).2 =
        { e with registry := e.registry.put d, store := e.store.erase (.component d.name) } := by
  simp only [serve, register]
  cases hresult : e.registry.register ⟨e.componentName name, source, origin, vendor⟩ with
  | error err => exact .inl rfl
  | ok result =>
    obtain ⟨done, registry⟩ := result
    rcases Registry.register_cases hresult with ⟨rfl, rfl⟩ | ⟨hdone, rfl⟩
    · exact .inl rfl
    · refine .inr ⟨⟨e.componentName name, source, origin, vendor⟩, ?_⟩
      simp only [if_neg hdone]

/-- Only registering a component changes more than the store. -/
theorem serve_eq_of_not_register (e : Engine) (r : Request)
    (h : ∀ name source origin vendor, r ≠ .register name source origin vendor) :
    (e.serve r).2 = { e with store := (e.serve r).2.store } := by
  cases r with
  | register name source origin vendor => exact absurd rfl (h name source origin vendor)
  | render source bindings =>
    simp only [serve, render]
    split <;> rfl
  | compile => rfl
  | templateOf => rfl
  | check => rfl
  | forget => rfl
  | clear => rfl

/-- A request changes the store only, or it puts a component into the registry and what was compiled under
    its name out of the store. -/
theorem serve_cases (e : Engine) (r : Request) :
    (∃ s : Store, (e.serve r).2 = { e with store := s }) ∨
      ∃ d : RegisteredComponent, (e.serve r).2 =
        { e with registry := e.registry.put d, store := e.store.erase (.component d.name) } := by
  by_cases hregister : ∃ name source origin vendor, r = .register name source origin vendor
  · obtain ⟨name, source, origin, vendor, rfl⟩ := hregister
    exact (e.serve_register_cases name source origin vendor).imp_left fun hsame => ⟨e.store, hsame⟩
  · refine .inl ⟨_, serve_eq_of_not_register e r fun name source origin vendor hr => ?_⟩
    exact hregister ⟨name, source, origin, vendor, hr⟩

theorem loader_serve (e : Engine) (r : Request) : (e.serve r).2.loader = e.loader := by
  rcases e.serve_cases r with ⟨_, hafter⟩ | ⟨_, hafter⟩ <;> rw [hafter]

theorem options_serve (e : Engine) (r : Request) : (e.serve r).2.options = e.options := by
  rcases e.serve_cases r with ⟨_, hafter⟩ | ⟨_, hafter⟩ <;> rw [hafter]

/-- A request that has nothing compiled at most takes templates out of the store. -/
theorem all_serve_of_not_compiles {e : Engine} {P : StoreKey → Template → Prop} (hs : e.store.All P)
    {r : Request} (hr : r.compiles = false) : (e.serve r).2.store.All P := by
  cases r with
  | register name source origin vendor =>
    rcases e.serve_register_cases name source origin vendor with hsame | ⟨d, hput⟩
    · rw [hsame]
      exact hs
    · rw [hput]
      exact hs.erase _
  | forget key => exact hs.erase key
  | clear => exact Store.all_empty
  | compile => cases hr
  | templateOf => cases hr
  | check => cases hr
  | render => cases hr

/-- Whatever is asked for, the store keeps to a property of all that the engine compiles. -/
theorem Upholds.serve {e : Engine} {P : StoreKey → Template → Prop} (h : e.Upholds P)
    (hs : e.store.All P) (r : Request) : (e.serve r).2.store.All P := by
  cases hr : r.compiles with
  | true => exact h.preserves.serve hs hr
  | false => exact all_serve_of_not_compiles hs hr

/-! ## What is in a store means -/

/-- A key means a template to an engine: it is what compiling its source in a dialect gives. -/
def Means (e : Engine) (d : Dialect) (key : StoreKey) (t : Template) : Prop :=
  ∃ source markup, e.sourceOf? key = some source ∧ e.markupOf source = .ok markup ∧
    Template.compile d markup = .ok t

theorem means_iff {e : Engine} {key : StoreKey} {t : Template} :
    e.Means e.options.dialect key t ↔
      ∃ source, e.sourceOf? key = some source ∧ e.compileFresh source = .ok t := by
  simp only [Means, compileFresh_eq_ok_iff]
  constructor
  · rintro ⟨source, markup, hsource, h⟩
    exact ⟨source, hsource, markup, h⟩
  · rintro ⟨source, hsource, markup, h⟩
    exact ⟨source, markup, hsource, h⟩

/-- Compiling a source leaves the components as they are. -/
theorem agree_compileIn (e : Engine) (source : ViewSource) (s : Store) :
    e.Agree s (e.compileIn source s).2 := by
  have hget : ∀ name, s.get? (.component name) = (e.compileIn source s).2.get? (.component name) := by
    intro name
    have hkey : (StoreKey.ofSource source).same (.component name) = false := by cases source <;> rfl
    unfold compileIn
    rcases e.compileUnder_cases (.ofSource source) source s with
      ⟨_, -, -, heq⟩ | ⟨t, -, -, -, heq⟩ | ⟨-, heq⟩
    · rw [heq]
    · rw [heq, Store.get?_insert, hkey]
      rfl
    · rw [heq]
  intro name
  unfold componentIn
  cases e.registry.get? name with
  | none => rfl
  | some d => exact answer_compileUnder_congr (hget d.name)

/-- An engine with nothing in its store serves markup as it compiles. -/
theorem answer_compile_inline {e : Engine} (hstore : e.store = {}) {markup : String} {t : Template}
    (h : Template.compile e.options.dialect markup = .ok t) :
    (e.compile (.inline markup)).1 = .ok t := by
  show (e.compileUnder _ _ e.store).1 = _
  rw [hstore, answer_compileUnder_of_get?_eq_none (Store.get?_empty _), compileFresh_inline h]

theorem compileUnder_eq_ok_cases {e : Engine} {key : StoreKey} {source : ViewSource} {s : Store}
    {t : Template} (h : (e.compileUnder key source s).1 = .ok t) :
    e.options.cache = true ∧ s.get? key = some t ∨ e.compileFresh source = .ok t := by
  rcases e.compileUnder_cases key source s with
    ⟨t', hcache, hget, heq⟩ | ⟨t', -, -, ht, heq⟩ | ⟨-, heq⟩
  · rw [heq] at h
    obtain rfl := Except.ok.inj h
    exact .inl ⟨hcache, hget⟩
  · rw [heq] at h
    obtain rfl := Except.ok.inj h
    exact .inr ht
  · rw [heq] at h
    exact .inr h

/-- A template that is asked for comes out of the store, or is what its key means to the engine. -/
theorem template_serve_cases {e : Engine} {r : Request} {key : StoreKey} (hkey : r.key? = some key)
    {t : Template} (h : (e.serve r).1 = .template (.ok t)) :
    e.options.cache = true ∧ e.store.get? key = some t ∨ e.Means e.options.dialect key t := by
  cases r with
  | compile source =>
    obtain rfl := Option.some.inj hkey
    refine (compileUnder_eq_ok_cases (Reply.template.inj h)).imp_right fun hfresh => ?_
    exact means_iff.2 ⟨source, e.sourceOf?_ofSource source, hfresh⟩
  | templateOf name =>
    obtain rfl := Option.some.inj hkey
    have hanswer : (e.componentIn name e.store).1 = .ok t := Reply.template.inj h
    unfold componentIn at hanswer
    cases hd : e.registry.get? name with
    | none => simp [hd] at hanswer
    | some d =>
      simp only [hd] at hanswer
      have hname := sourceOf?_component hd
      rw [Registry.name_of_get?_eq_some hd] at hname hanswer
      exact (compileUnder_eq_ok_cases hanswer).imp_right fun hfresh => means_iff.2 ⟨_, hname, hfresh⟩
  | register => cases hkey
  | check => cases hkey
  | render => cases hkey
  | forget => cases hkey
  | clear => cases hkey

/-- What the store still has after a request means what it meant before. -/
theorem Means.serve {e : Engine} {d : Dialect} {key : StoreKey} {t : Template} (h : e.Means d key t)
    (r : Request) (hkept : ((e.serve r).2.store.get? key).isSome) : (e.serve r).2.Means d key t := by
  rcases e.serve_cases r with ⟨_, hafter⟩ | ⟨c, hafter⟩
  · rw [hafter]
    exact h
  · rw [hafter] at hkept ⊢
    rw [Store.get?_erase] at hkept
    split at hkept
    · cases hkept
    · next hother =>
      obtain ⟨source, markup, hsource, hmarkup, ht⟩ := h
      refine ⟨source, markup, ?_, hmarkup, ht⟩
      -- under any other name the registry has what it had
      cases key with
      | path => exact hsource
      | inline => exact hsource
      | component other =>
        rw [sourceOf?] at hsource ⊢
        rw [Registry.get?_put, if_neg (by simpa [StoreKey.same] using hother), hsource]

end Engine

/-! ## Loaders -/

namespace Loader

/-- Loading looks at the components of paths only: it finds the same markup by all paths that have the
    same. -/
def ByComponents (l : Loader) : Prop :=
  ∀ p q : Path, p.same q = true →
    (l.load p).toOption.map Loaded.markup = (l.load q).toOption.map Loaded.markup

theorem memory_byComponents (templates : List (Path × String)) : (memory templates).ByComponents := by
  intro p q h
  have hsame : ∀ entry : Path × String, entry.1.same p = entry.1.same q := by
    intro entry
    simp only [Path.same, beq_iff_eq] at h
    simp only [Path.same, h]
  unfold memory
  simp only [hsame]
  cases templates.reverse.find? fun entry => entry.1.same q <;> rfl

end Loader

/-- Keys for the same template stand for the same markup. -/
theorem Engine.Means.of_same {e : Engine} {d : Dialect} (hloader : e.loader.ByComponents)
    {key other : StoreKey} (hsame : key.same other = true) {t : Template} (h : e.Means d key t) :
    e.Means d other t := by
  obtain ⟨source, markup, hsource, hmarkup, ht⟩ := h
  cases key <;> cases other <;> simp only [StoreKey.same, Bool.false_eq_true, beq_iff_eq] at hsame
  case path p q =>
    obtain rfl := Option.some.inj hsource
    refine ⟨.path q, markup, rfl, ?_, ht⟩
    have hload := hloader p q hsame
    simp only [Engine.markupOf] at hmarkup ⊢
    cases hp : e.loader.load p with
    | error err => simp [hp, Except.map] at hmarkup
    | ok found =>
      cases hq : e.loader.load q with
      | error err => simp [hp, hq, Except.toOption] at hload
      | ok found' => simp_all [Except.toOption, Except.map]
  all_goals
    subst hsame
    exact ⟨source, markup, hsource, hmarkup, ht⟩

/-- All that an engine compiles in the dialect of its options is what the key means to it. -/
theorem Engine.upholds_means {e : Engine} (hloader : e.loader.ByComponents) :
    e.Upholds (e.Means e.options.dialect) :=
  fun _ _ source _ hsource ht _ hsame => (means_iff.2 ⟨source, hsource, ht⟩).of_same hloader hsame

end Stencil
