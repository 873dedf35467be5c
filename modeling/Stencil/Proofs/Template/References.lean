import Stencil.Proofs.Names
import Stencil.Proofs.Template.Shape
import Stencil.Proofs.Template.SiblingLists
/-
  The components that a template refers to.

  The names are collected in one walk over the tree, and each is kept once.  The main statement is that the
  walk leaves nothing out and makes nothing up: a name is listed when a reference to it stands in some list
  of siblings of the template, however deep, and then it is listed once.
-/

namespace Stencil

/-- The component that a node itself refers to, what is inside it aside. -/
def Node.reference? : Node → Option String
  | .component tag .. => some tag.name
  | _ => none

namespace Node

open Siblings (inside lists below insideSlots)

/-- Some node in these lists refers to the component. -/
def ReferredIn (name : String) (all : List (List Node)) : Prop :=
  ∃ l ∈ all, ∃ n ∈ l, n.reference? = some name

theorem referredIn_append {name : String} {ls ms : List (List Node)} :
    ReferredIn name (ls ++ ms) ↔ ReferredIn name ls ∨ ReferredIn name ms := by
  simp only [ReferredIn, List.mem_append, or_and_right, exists_or]

theorem referredIn_cons {name : String} {l : List Node} {ls : List (List Node)} :
    ReferredIn name (l :: ls) ↔ (∃ n ∈ l, n.reference? = some name) ∨ ReferredIn name ls := by
  simp only [ReferredIn, List.mem_cons, exists_eq_or_imp]

mutual

/-- The names in a node are its own and those in the lists inside it. -/
theorem mem_references (name : String) : (n : Node) →
    (name ∈ n.references ↔ n.reference? = some name ∨ ReferredIn name (inside n))
  | .text .. => by simp [references, reference?, ReferredIn, inside]
  | .expression .. => by simp [references, reference?, ReferredIn, inside]
  | .comment .. => by simp [references, reference?, ReferredIn, inside]
  | .element _ _ children _ => by
    rw [references, mem_referencesAll name children, inside]
    simp [reference?, lists]
  | .component tag children slots _ => by
    rw [references, List.mem_cons, List.mem_append, mem_referencesAll name children,
      mem_referencesSlots name slots, inside, referredIn_append]
    simp [reference?, lists, eq_comm]
  | .slot _ fallback _ => by
    rw [references, mem_referencesAll name fallback, inside]
    simp [reference?, lists]
termination_by structural n => n

theorem mem_referencesAll (name : String) : (ns : List Node) →
    (name ∈ referencesAll ns ↔ ReferredIn name (lists ns))
  | [] => by simp [referencesAll, ReferredIn, lists, below]
  | n :: ns => by
    have hn := mem_references name n
    have hns := mem_referencesAll name ns
    rw [lists, referredIn_cons] at hns ⊢
    rw [referencesAll, List.mem_append, hn, hns, below, referredIn_append]
    simp only [List.mem_cons, exists_eq_or_imp]
    exact or_or_or_comm
termination_by structural ns => ns

theorem mem_referencesSlots (name : String) : (slots : List (String × List Node)) →
    (name ∈ referencesSlots slots ↔ ReferredIn name (insideSlots slots))
  | [] => by simp [referencesSlots, ReferredIn, insideSlots]
  | (_, ns) :: slots => by
    rw [referencesSlots, List.mem_append, mem_referencesAll name ns, mem_referencesSlots name slots,
      insideSlots, referredIn_append]
    rfl
termination_by structural slots => slots

end

theorem mem_referencesAll_iff {name : String} {ns : List Node} :
    name ∈ referencesAll ns ↔ ∃ n ∈ ns, name ∈ n.references := by
  induction ns with
  | nil => simp [referencesAll]
  | cons n ns ih => simp [referencesAll, ih]

theorem mem_referencesSlots_iff {name : String} {slots : List (String × List Node)} :
    name ∈ referencesSlots slots ↔ ∃ slot ∈ slots, name ∈ referencesAll slot.2 := by
  induction slots with
  | nil => simp [referencesSlots]
  | cons slot slots ih =>
    obtain ⟨key, ns⟩ := slot
    simp [referencesSlots, ih]

end Node

namespace Template

/-- A template lists the components it refers to anywhere, each once. -/
theorem mem_componentNames {t : Template} {name : String} :
    name ∈ t.componentNames ↔ ∃ l ∈ t.siblingLists, ∃ n ∈ l, n.reference? = some name := by
  rw [componentNames, List.mem_eraseDups, Node.mem_referencesAll]
  rfl

theorem nodup_componentNames (t : Template) : t.componentNames.Nodup :=
  nodup_eraseDups (Node.referencesAll t.children)

/-! ### Templates that are one reference -/

/-- The tag of a template that is a reference to a component and nothing else. -/
def bareReference? (t : Template) : Option Tag :=
  match t.children with
  | [.component tag [] [] _] => some tag
  | _ => none

theorem exists_bareReference (d : Dialect) (markup : String) (tag : Tag)
    (h : (compile d markup).toOption.bind bareReference? = some tag) :
    ∃ t span, compile d markup = .ok t ∧ t.children = [.component tag [] [] span] := by
  obtain ⟨t, hcompiled, htag⟩ := Option.bind_eq_some_iff.1 h
  rw [bareReference?] at htag
  split at htag
  · next found span hchildren =>
    obtain rfl := Option.some.inj htag
    exact ⟨t, span, toOption_eq_some_iff.1 hcompiled, hchildren⟩
  · cases htag

end Template

end Stencil
