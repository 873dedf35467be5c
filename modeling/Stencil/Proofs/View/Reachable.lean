import Stencil.Proofs.Template.References
import Stencil.Proofs.View.Correspondence
import Stencil.Proofs.View.Sessions
/-
  Which components a page can miss.

  Rendering looks up a component when it comes to a reference, and it jumps: into the template of a
  component, and from a slot marker back to content that some caller has put in.  What it can come to is
  found without rendering: the names in the template of the page, and in the templates of the components
  these name, and so on.

  The invariant of rendering is that every node it comes to only names components within reach.  The main
  statement is that a page misses no component but one within reach that is not registered.
-/

namespace Stencil

/-! ## Within reach -/

namespace Engine

/-- A component is within reach of a template: it is named there, or in the template of a component within
    reach. -/
inductive Reaches (e : Engine) (t : Template) : String → Prop where
  | named {name : String} (h : name ∈ t.componentNames) : Reaches e t name
  | through {name inner : String} {u : Template} (h : Reaches e t name)
    (hu : (e.templateOf name).1 = .ok u) (hinner : inner ∈ u.componentNames) : Reaches e t inner

/-- All that a node names is within reach. -/
def NamesWithin (e : Engine) (t : Template) (n : Node) : Prop :=
  ∀ name ∈ n.references, e.Reaches t name

end Engine

/-- A loader only reports that there is nothing to load, or that it cannot be read. -/
def Loader.ReportsFiles (l : Loader) : Prop :=
  ∀ p err, l.load p = .error err → (∃ q, err = .notFound q) ∨ ∃ q, err = .unreadable q

theorem Loader.memory_reportsFiles (templates : List (Path × String)) :
    (Loader.memory templates).ReportsFiles := by
  intro p err h
  unfold memory at h
  dsimp only at h
  split at h
  · cases h
  · exact .inl ⟨p, (Except.error.inj h).symm⟩

namespace Template

theorem mem_componentNames_of_references {t : Template} {n : Node} (hn : n ∈ t.children) {name : String}
    (h : name ∈ n.references) : name ∈ t.componentNames :=
  List.mem_eraseDups.2 (Node.mem_referencesAll_iff.2 ⟨n, hn, h⟩)

end Template

namespace Engine

variable {e : Engine} {t : Template}

namespace NamesWithin

theorem children {tag : Tag} {selfClosing : Bool} {children : List Node} {s : Span}
    (h : e.NamesWithin t (.element tag selfClosing children s)) :
    ∀ n ∈ children, e.NamesWithin t n :=
  fun n hn name hname => h name (Node.mem_referencesAll_iff.2 ⟨n, hn, hname⟩)

theorem fallback {slot : Option String} {fallback : List Node} {s : Span}
    (h : e.NamesWithin t (.slot slot fallback s)) : ∀ n ∈ fallback, e.NamesWithin t n :=
  fun n hn name hname => h name (Node.mem_referencesAll_iff.2 ⟨n, hn, hname⟩)

theorem reaches {tag : Tag} {children : List Node} {slots : List (String × List Node)} {s : Span}
    (h : e.NamesWithin t (.component tag children slots s)) : e.Reaches t tag.name :=
  h tag.name List.mem_cons_self

/-- The content that a component gets for a slot names what its reference names. -/
theorem content {tag : Tag} {children : List Node} {slots : List (String × List Node)} {s : Span}
    (h : e.NamesWithin t (.component tag children slots s)) {slot : Option String} {content : List Node}
    (hselect : SlotSupply.select ⟨children, slots⟩ slot = some content) :
    ∀ n ∈ content, e.NamesWithin t n := by
  have hchildren : ∀ n ∈ children, e.NamesWithin t n := by
    intro n hn name hname
    refine h name (List.mem_cons_of_mem _ (List.mem_append_left _ ?_))
    exact Node.mem_referencesAll_iff.2 ⟨n, hn, hname⟩
  have hslots : ∀ entry ∈ slots, ∀ n ∈ entry.2, e.NamesWithin t n := by
    intro entry hentry n hn name hname
    refine h name (List.mem_cons_of_mem _ (List.mem_append_right _ ?_))
    exact Node.mem_referencesSlots_iff.2 ⟨entry, hentry, Node.mem_referencesAll_iff.2 ⟨n, hn, hname⟩⟩
  obtain ⟨hsome, -⟩ := Option.filter_eq_some_iff.1 hselect
  dsimp only at hsome
  split at hsome
  · obtain rfl := Option.some.inj hsome
    exact hchildren
  · split at hsome
    · obtain rfl := Option.some.inj hsome
      exact hchildren
    · exact hslots _ (Ordered.mem_of_get?_eq_some hsome)

/-- What the template of a component within reach names is within reach. -/
theorem template {name : String} (h : e.Reaches t name) {u : Template}
    (hu : (e.templateOf name).1 = .ok u) : ∀ n ∈ u.children, e.NamesWithin t n :=
  fun _ hn _ hinner => h.through hu (Template.mem_componentNames_of_references hn hinner)

end NamesWithin

/-! ## What can be missing -/

/-- An error that a component is missing says so of one within reach that is not registered. -/
def MissesWithin (e : Engine) (t : Template) (err : ViewError) : Prop :=
  ∀ name, err = .unknownComponent name → e.Reaches t name ∧ e.registry.contains name = false

/-- Compiling never says that a component is missing. -/
theorem compileFresh_ne_unknownComponent (hloader : e.loader.ReportsFiles) (source : ViewSource)
    (name : String) : e.compileFresh source ≠ .error (.unknownComponent name) := by
  intro h
  unfold compileFresh at h
  split at h
  · next err hmarkup =>
    obtain rfl := Except.error.inj h
    cases source with
    | inline markup => cases hmarkup
    | path p =>
      simp only [markupOf] at hmarkup
      cases hload : e.loader.load p with
      | ok found => rw [hload] at hmarkup; cases hmarkup
      | error err =>
        rw [hload] at hmarkup
        obtain rfl := Except.error.inj hmarkup
        rcases hloader p _ hload with ⟨_, h⟩ | ⟨_, h⟩ <;> cases h
  · split at h <;> cases h

/-- Asking for a component says that it is missing when it is not registered, and never anything of another
    component. -/
theorem missing_of_componentIn (hloader : e.loader.ReportsFiles) {name other : String} {s : Store}
    (h : (e.componentIn name s).1 = .error (.unknownComponent other)) :
    other = name ∧ e.registry.contains name = false := by
  unfold componentIn at h
  cases hd : e.registry.get? name with
  | none =>
    rw [hd] at h
    obtain rfl := ViewError.unknownComponent.inj (Except.error.inj h)
    exact ⟨rfl, by rw [Registry.contains, hd]; rfl⟩
  | some d =>
    rw [hd] at h
    dsimp only at h
    rcases e.compileUnder_cases (.component d.name) d.source s with
      ⟨_, -, -, heq⟩ | ⟨_, -, -, -, heq⟩ | ⟨-, heq⟩
    · rw [heq] at h
      cases h
    · rw [heq] at h
      cases h
    · rw [heq] at h
      exact (compileFresh_ne_unknownComponent hloader _ _ h).elim

/-- Wherever rendering a template comes to, it only finds components missing that are within reach. -/
theorem missesWithin_template (hloader : e.loader.ReportsFiles) {s : Store} (hagree : e.Agree e.store s)
    (t : Template) (bindings : Bindings) {err : ViewError}
    (h : (Render.template e t bindings).answer s = .error err) : e.MissesWithin t err := by
  let c : Correspondence e s e s :=
    .tracking rfl rfl rfl (e.MissesWithin t) (fun _ n => e.NamesWithin t n) (by
        intro err name herr
        cases herr)
      (by
        intro _ tag _ _ _ hn
        refine .refl _ (fun u hu => ⟨rfl, ?_⟩) fun err herr name hname => ?_
        · rw [← hagree tag.name] at hu
          exact NamesWithin.template hn.reaches hu
        · subst hname
          obtain ⟨rfl, hmissing⟩ := missing_of_componentIn hloader herr
          exact ⟨hn.reaches, hmissing⟩)
      (by
        intro _ _ _ _ _ _ name herr
        cases herr)
      (by
        intro _ _ _ _ _ _ name herr
        cases herr)
      (fun hn _ _ => hn.children) (fun hn => hn.fallback) (fun hn _ _ _ _ hselect => hn.content hselect)
  have hanswer : SameResult (e.MissesWithin t) Eq ((Render.template e t bindings).answer s)
      ((Render.template e t bindings).answer s) := by
    refine c.template_children t rfl fun n hn name hname => ?_
    exact .named (Template.mem_componentNames_of_references hn hname)
  rw [h] at hanswer
  exact hanswer.of_error

/-- A page only misses components within reach of its template that are not registered, so where all of
    these are registered no bindings make it miss one.  What a template names is what its nodes refer to,
    wherever they stand, each name once. -/
theorem missing_reachable (hloader : e.loader.ReportsFiles) {source : ViewSource}
    (ht : (e.compile source).1 = .ok t) :
    (∀ bindings name, (e.render source bindings).1 = .error (.unknownComponent name) →
      e.Reaches t name ∧ e.registry.contains name = false) ∧
    ((∀ name, e.Reaches t name → e.registry.contains name = true) →
      ∀ bindings name, (e.render source bindings).1 ≠ .error (.unknownComponent name)) ∧
    t.componentNames.Nodup ∧
    ∀ name, name ∈ t.componentNames ↔ ∃ l ∈ t.siblingLists, ∃ n ∈ l, n.reference? = some name := by
  have hmissing : ∀ bindings name, (e.render source bindings).1 = .error (.unknownComponent name) →
      e.Reaches t name ∧ e.registry.contains name = false := by
    intro bindings name h
    have ht : (e.compileIn source e.store).1 = .ok t := ht
    rw [answer_render, ht] at h
    exact missesWithin_template hloader (e.agree_compileIn source e.store) t _ h name rfl
  refine ⟨hmissing, ?_, t.nodup_componentNames, fun name => Template.mem_componentNames⟩
  intro hregistered bindings name h
  obtain ⟨hreaches, hnot⟩ := hmissing bindings name h
  rw [hregistered name hreaches] at hnot
  cases hnot

/-! ### A component that names another one -/

/-- A page whose component names a component that nobody registered. -/
theorem missing_reachable_inner :
    let e : Engine :=
      { registry := Registry.empty.put ⟨"x-a", .inline "<x-b></x-b>", none, false⟩, loader := .memory [] }
    ∃ t, e.loader.ReportsFiles ∧ (e.compile (.inline "<x-a></x-a>")).1 = .ok t ∧
      (e.render (.inline "<x-a></x-a>") []).1 = .error (.unknownComponent "x-b") ∧
      e.Reaches t "x-b" ∧ e.registry.contains "x-b" = false := by
  intro e
  obtain ⟨t, span, hcompiled, hchildren⟩ :=
    Template.exists_bareReference e.options.dialect "<x-a></x-a>" ⟨"x-a", [], {}, ⟨1, 4⟩, {}⟩ (by decide +kernel)
  obtain ⟨u, inner, hcompiledInner, hinner⟩ :=
    Template.exists_bareReference e.options.dialect "<x-b></x-b>" ⟨"x-b", [], {}, ⟨1, 4⟩, {}⟩ (by decide +kernel)
  have hloader : e.loader.ReportsFiles := Loader.memory_reportsFiles []
  have ht : (e.compile (.inline "<x-a></x-a>")).1 = .ok t := answer_compile_inline rfl hcompiled
  have hpage : (e.compileIn (.inline "<x-a></x-a>") e.store).1 = .ok t := ht
  have hcomponent : (e.componentIn "x-a" e.store).1 = .ok u :=
    answer_componentIn_inline rfl rfl hcompiledInner
  have hmissing : ∀ s, (e.componentIn "x-b" s).1 = .error (.unknownComponent "x-b") := by
    intro s
    rfl
  have herr : (e.render (.inline "<x-a></x-a>") []).1 = .error (.unknownComponent "x-b") := by
    rw [answer_render, hpage]
    show (Render.nodes _ [] 0 _ {} t.children).answer _ = _
    rw [hchildren, Render.answer_nodes_alone rfl rfl rfl, Render.answer_once_component,
      if_pos (by decide), if_pos (by decide), ← e.agree_compileIn _ e.store "x-a", hcomponent]
    show (Render.nodes _ _ 1 _ {} u.children).answer _ = _
    rw [hinner, Render.answer_nodes_alone rfl rfl rfl, Render.answer_once_component,
      if_pos (by decide), if_pos (by decide), hmissing]
    rfl
  obtain ⟨hreaches, hnot⟩ := (missing_reachable hloader ht).1 [] "x-b" herr
  exact ⟨t, hloader, ht, herr, hreaches, hnot⟩

end Engine

end Stencil
