import Stencil.Proofs.Template.Nesting
import Stencil.Proofs.Template.Shape
import Stencil.Proofs.View.Correspondence
import Stencil.Proofs.View.Sessions
/-
  Which templates are rejected for their own nesting.

  Reading a template counts the elements that wait for content, and rendering it counts all elements.  So a
  template that refers to no components may compile and still be nested too deeply to be rendered.  The
  main statement says how: by an element without content, void or closed by itself, that stands inside as
  many elements as may be nested.  A template that has none of these there is never rejected.
-/

namespace Stencil

/-! ## Elements without content -/

namespace Node

mutual

/-- The names of the elements without content that stand inside so many elements of a node. -/
def leavesAt : Nat → Node → List String
  | depth, .element tag selfClosing children _ =>
    match depth with
    | 0 => if selfClosing || Element.isVoid tag.name then [tag.name] else []
    | outer + 1 => leavesAmong outer children
  | depth, .slot _ fallback _ => leavesAmong depth fallback
  | _, _ => []
termination_by structural _ n => n

/-- The names of the elements without content that stand inside so many elements of a list of nodes. -/
def leavesAmong : Nat → List Node → List String
  | _, [] => []
  | depth, n :: ns => leavesAt depth n ++ leavesAmong depth ns
termination_by structural _ ns => ns

end

theorem mem_leavesAmong {depth : Nat} {ns : List Node} {name : String} :
    name ∈ leavesAmong depth ns ↔ ∃ n ∈ ns, name ∈ n.leavesAt depth := by
  induction ns with
  | nil => simp [leavesAmong]
  | cons n ns ih => simp [leavesAmong, ih]

theorem referencesAll_eq_nil {ns : List Node} (h : referencesAll ns = []) : ∀ n ∈ ns, n.references = [] := by
  induction ns with
  | nil => simp
  | cons n ns ih =>
    obtain ⟨hn, hns⟩ := List.append_eq_nil_iff.1 h
    exact List.forall_mem_cons.2 ⟨hn, ih hns⟩

end Node

/-- The names of the elements without content that stand inside so many elements of a template. -/
def Template.leavesAt (depth : Nat) (t : Template) : List String := Node.leavesAmong depth t.children

theorem Template.references_eq_nil {t : Template} (h : t.componentNames = []) :
    ∀ n ∈ t.children, n.references = [] := by
  refine Node.referencesAll_eq_nil ?_
  unfold componentNames at h
  cases hall : Node.referencesAll t.children with
  | nil => rfl
  | cons name names =>
    rw [hall, List.eraseDups_cons] at h
    cases h

namespace Render

/-! ## Rendering -/

/-- A node inside `k` elements fits into the room that is left, refers to no component, and has no elements
    without content at the limit but those of `leaves`. -/
structure Roomy (limit : Nat) (leaves : List String) (k : Nat) (n : Node) : Prop where
  le : k ≤ limit
  fits : n.Fits (limit - k)
  plain : n.references = []
  leaves : ∀ name ∈ n.leavesAt (limit - k), name ∈ leaves

variable {limit k : Nat} {leaves : List String}

theorem Roomy.not_component {tag : Tag} {children : List Node} {slots : List (String × List Node)}
    {s : Span} (h : Roomy limit leaves k (.component tag children slots s)) : False := by
  cases h.plain

theorem Roomy.children {tag : Tag} {selfClosing : Bool} {children : List Node} {s : Span}
    (h : Roomy limit leaves k (.element tag selfClosing children s)) (hk : k < limit) :
    ∀ n ∈ children, Roomy limit leaves (k + 1) n := by
  intro n hn
  have hroom : limit - k = limit - (k + 1) + 1 := by omega
  have hplain : Node.referencesAll children = [] := h.plain
  have hfits := h.fits
  have hleaves := h.leaves
  rw [hroom] at hfits hleaves
  refine ⟨hk, hfits.children n hn, Node.referencesAll_eq_nil hplain n hn, fun name hname => ?_⟩
  exact hleaves name (Node.mem_leavesAmong.2 ⟨n, hn, hname⟩)

theorem Roomy.fallback {name : Option String} {fallback : List Node} {s : Span}
    (h : Roomy limit leaves k (.slot name fallback s)) : ∀ n ∈ fallback, Roomy limit leaves k n := by
  intro n hn
  have hplain : Node.referencesAll fallback = [] := h.plain
  refine ⟨h.le, h.fits.fallback n hn, Node.referencesAll_eq_nil hplain n hn, fun name hname => ?_⟩
  exact h.leaves name (Node.mem_leavesAmong.2 ⟨n, hn, hname⟩)

/-- At the limit there is only room for an element without content. -/
theorem Roomy.leaf {n : Node} {tag : Tag} (h : Roomy limit leaves k n) (htag : n.tag? = some tag)
    (hk : limit ≤ k) : tag.name ∈ leaves := by
  have hroom : limit - k = 0 := by omega
  cases n with
  | element tag' selfClosing children s =>
    obtain rfl : tag' = tag := Option.some.inj htag
    refine h.leaves _ ?_
    have hfits := h.fits
    rw [hroom] at hfits ⊢
    rw [Node.leavesAt, if_pos (by simpa using hfits.of_zero)]
    exact List.mem_singleton_self _
  | component => exact h.not_component.elim
  | text => cases htag
  | expression => cases htag
  | comment => cases htag
  | slot => cases htag

/-- An error that is about nesting is about an element of `leaves` at the limit. -/
def AtLimit (limit : Nat) (leaves : List String) (err : ViewError) : Prop :=
  ∀ tag depth, err = .nestedTooDeeply tag depth → depth = limit ∧ tag ∈ leaves

/-- Rendering a template without components that was compiled in the dialect of the engine is nested too
    deeply only by elements without content that stand inside as many elements as may be nested. -/
theorem nestedTooDeeply_leaf {e : Engine} {markup : String} {t : Template}
    (hcompiled : Template.compile e.options.dialect markup = .ok t) (hplain : t.componentNames = [])
    (bindings : Bindings) (s : Store) {tag : String} {depth : Nat}
    (h : (template e t bindings).answer s = .error (.nestedTooDeeply tag depth)) :
    depth = e.options.maxDepth ∧ tag ∈ t.leavesAt e.options.maxDepth := by
  let c : Correspondence e s e s :=
    .tracking rfl rfl rfl (AtLimit e.options.maxDepth (t.leavesAt e.options.maxDepth))
      (Roomy e.options.maxDepth (t.leavesAt e.options.maxDepth))
      (fun err _ _ herr => by cases herr)
      (fun hn => hn.not_component.elim)
      (fun hn htag hk _ _ herr => by cases herr; exact ⟨rfl, hn.leaf htag hk⟩)
      (fun hn => hn.not_component.elim)
      (fun hn hk _ => hn.children hk)
      (fun hn => hn.fallback)
      (fun hn => hn.not_component.elim)
  have hknown : ∀ n ∈ t.children, Roomy e.options.maxDepth (t.leavesAt e.options.maxDepth) 0 n := by
    intro n hn
    refine ⟨Nat.zero_le _, Template.fits_of_compile hcompiled n hn,
      Template.references_eq_nil hplain n hn, fun name hname => ?_⟩
    exact Node.mem_leavesAmong.2 ⟨n, hn, hname⟩
  have hanswer : SameResult (AtLimit e.options.maxDepth (t.leavesAt e.options.maxDepth)) Eq
      ((template e t bindings).answer s) ((template e t bindings).answer s) :=
    c.template_children t rfl hknown
  rw [h] at hanswer
  exact (SameResult.of_error hanswer) tag depth rfl

/-- A template without components, served as it was compiled in the dialect of the engine, is never rejected
    for its nesting if no element without content stands inside as many elements as may be nested. -/
theorem render_ne_nestedTooDeeply {e : Engine} {source : ViewSource} {markup : String} {t : Template}
    (hserved : (e.compile source).1 = .ok t)
    (hcompiled : Template.compile e.options.dialect markup = .ok t) (hplain : t.componentNames = [])
    (hleaves : t.leavesAt e.options.maxDepth = []) (bindings : Bindings) (tag : String) (depth : Nat) :
    (e.render source bindings).1 ≠ .error (.nestedTooDeeply tag depth) := by
  intro h
  have hserved : (e.compileIn source e.store).1 = .ok t := hserved
  rw [Engine.answer_render, hserved] at h
  have hleaf := (nestedTooDeeply_leaf hcompiled hplain (e.finalBindings source bindings) _ h).2
  rw [hleaves] at hleaf
  cases hleaf

/-- As many elements as may be nested, with text in the innermost one. -/
theorem render_ne_nestedTooDeeply_text :
    let e : Engine := { loader := .memory [], options := { maxDepth := 2 } }
    ∃ t, (e.compile (.inline "<p><i>a</i></p>")).1 = .ok t ∧
      Template.compile e.options.dialect "<p><i>a</i></p>" = .ok t ∧ t.componentNames = [] ∧
      t.leavesAt e.options.maxDepth = [] ∧ ∀ bindings tag depth,
        (e.render (.inline "<p><i>a</i></p>") bindings).1 ≠ .error (.nestedTooDeeply tag depth) := by
  intro e
  have hnames : (Template.compile e.options.dialect "<p><i>a</i></p>").toOption.map
      (fun t => (t.componentNames, t.leavesAt 2)) = some ([], []) := by decide +kernel
  obtain ⟨t, ht, hfound⟩ := Option.map_eq_some_iff.1 hnames
  obtain ⟨hplain, hleaves⟩ := Prod.mk.inj hfound
  have hcompiled := toOption_eq_some_iff.1 ht
  have hserved : (e.compile (.inline "<p><i>a</i></p>")).1 = .ok t :=
    Engine.answer_compile_inline rfl hcompiled
  exact ⟨t, hserved, hcompiled, hplain, hleaves, render_ne_nestedTooDeeply hserved hcompiled hplain hleaves⟩

/-- The tags of an element that stands alone, and of an empty one that stands alone in it. -/
def nestedTags? (t : Template) : Option (Tag × Tag) :=
  match t.children with
  | [.element outer _ [.element inner _ [] _] _] => some (outer, inner)
  | _ => none

/-- With a void element in place of the text a template is rejected, although it compiles. -/
theorem void_nestedTooDeeply :
    let e : Engine := { loader := .memory [], options := { maxDepth := 1 } }
    ∃ t, (e.compile (.inline "<div><br></div>")).1 = .ok t ∧ t.componentNames = [] ∧
      (e.render (.inline "<div><br></div>") []).1 = .error (.nestedTooDeeply "br" 1) := by
  intro e
  have hshape : (Template.compile e.options.dialect "<div><br></div>").toOption.bind nestedTags? =
      some (⟨"div", [], {}, ⟨1, 4⟩, {}⟩, ⟨"br", [], {}, ⟨6, 8⟩, {}⟩) := by decide +kernel
  obtain ⟨⟨children, span⟩, ht, hfound⟩ := Option.bind_eq_some_iff.1 hshape
  have hserved : (e.compile (.inline "<div><br></div>")).1 = .ok ⟨children, span⟩ :=
    Engine.answer_compile_inline rfl (toOption_eq_some_iff.1 ht)
  have hanswer := e.answer_render (.inline "<div><br></div>") []
  rw [show (e.compileIn (.inline "<div><br></div>") e.store).1 = .ok _ from hserved] at hanswer
  dsimp only [nestedTags?] at hfound
  split at hfound
  · next outer _ inner selfClosing s s' =>
    obtain ⟨rfl, rfl⟩ := Prod.mk.inj (Option.some.inj hfound)
    have hinside : ∀ scope left, (nodes e [] 1 scope {}
        [.element ⟨"br", [], {}, ⟨6, 8⟩, {}⟩ selfClosing [] s]).answer left =
        .error (.nestedTooDeeply "br" 1) := by
      intro scope left
      rw [answer_nodes_cons, answer_sibling_of_plain rfl rfl rfl, answer_once_element]
      rfl
    have hvoid : Element.isVoid "div" = false := by decide
    refine ⟨_, hserved, rfl, hanswer.trans ?_⟩
    have hopening : ∀ scope, (openingText e.evaluator scope ⟨"div", [], {}, ⟨1, 4⟩, {}⟩).mapError
        ViewError.expression = .ok "<div>" := fun _ => rfl
    show (nodes e [] 0 _ {} _).answer _ = _
    rw [answer_nodes_cons, answer_sibling_of_plain rfl rfl rfl, answer_once_element, if_pos (by decide),
      hopening]
    simp [hinside, hvoid, bind, Except.bind]
  · cases hfound

end Render

end Stencil
