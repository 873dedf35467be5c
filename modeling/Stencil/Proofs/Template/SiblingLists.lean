import Stencil.Template.Node
/-
  The lists of siblings of a tree, at every depth.

  A template is a list of siblings, and so are the children of an element, the default content of a
  component, the content of each of its named slots, and the fallback of a slot marker.  What is true
  everywhere in a template is said of all these lists.
-/

namespace Stencil.Siblings

mutual

/-- The lists of siblings inside a node. -/
def inside : Node → List (List Node)
  | .text .. | .expression .. | .comment .. => []
  | .element _ _ children _ => children :: below children
  | .component _ children slots _ => (children :: below children) ++ insideSlots slots
  | .slot _ fallback _ => fallback :: below fallback
termination_by structural n => n

/-- The lists of siblings inside the nodes of a list. -/
def below : List Node → List (List Node)
  | [] => []
  | n :: ns => inside n ++ below ns
termination_by structural ns => ns

/-- The lists of siblings of named slots: their contents, and what is inside these. -/
def insideSlots : List (String × List Node) → List (List Node)
  | [] => []
  | (_, ns) :: slots => (ns :: below ns) ++ insideSlots slots
termination_by structural slots => slots

end

/-- A list of siblings and all lists inside its nodes. -/
def lists (ns : List Node) : List (List Node) := ns :: below ns

theorem mem_below {l ns : List Node} : l ∈ below ns ↔ ∃ n ∈ ns, l ∈ inside n := by
  induction ns with
  | nil => simp [below]
  | cons n ns ih => simp [below, ih]

theorem mem_insideSlots {l : List Node} {slots : List (String × List Node)} :
    l ∈ insideSlots slots ↔ ∃ s ∈ slots, l ∈ lists s.2 := by
  induction slots with
  | nil => simp [insideSlots]
  | cons s slots ih =>
    obtain ⟨name, ns⟩ := s
    simp [insideSlots, ih, lists, or_assoc]

theorem mem_lists_self (ns : List Node) : ns ∈ lists ns := List.mem_cons_self

theorem mem_lists {l ns : List Node} : l ∈ lists ns ↔ l = ns ∨ ∃ n ∈ ns, l ∈ inside n := by
  rw [lists, List.mem_cons, mem_below]

/-- Something holds of a node and of every node inside it. -/
def Throughout (P : Node → Prop) (n : Node) : Prop := P n ∧ ∀ l ∈ inside n, ∀ m ∈ l, P m

variable {P : Node → Prop}

/-- What holds throughout the nodes of a list holds of every node of every list inside. -/
theorem forall_mem_lists {ns : List Node} :
    (∀ l ∈ lists ns, ∀ n ∈ l, P n) ↔ ∀ n ∈ ns, Throughout P n := by
  constructor
  · intro h n hn
    exact ⟨h ns (mem_lists_self ns) n hn, fun l hl => h l (mem_lists.2 (.inr ⟨n, hn, hl⟩))⟩
  · intro h l hl n hn
    rcases mem_lists.1 hl with rfl | ⟨m, hm, hl⟩
    · exact (h n hn).1
    · exact (h m hm).2 l hl n hn

theorem throughout_element {tag : Tag} {selfClosing : Bool} {children : List Node} {s : Span} :
    Throughout P (.element tag selfClosing children s) ↔
      P (.element tag selfClosing children s) ∧ ∀ n ∈ children, Throughout P n := by
  rw [Throughout, inside, ← forall_mem_lists]
  rfl

theorem throughout_slot {name : Option String} {fallback : List Node} {s : Span} :
    Throughout P (.slot name fallback s) ↔
      P (.slot name fallback s) ∧ ∀ n ∈ fallback, Throughout P n := by
  rw [Throughout, inside, ← forall_mem_lists]
  rfl

theorem throughout_component {tag : Tag} {children : List Node} {slots : List (String × List Node)}
    {s : Span} :
    Throughout P (.component tag children slots s) ↔
      P (.component tag children slots s) ∧ (∀ n ∈ children, Throughout P n) ∧
        ∀ slot ∈ slots, ∀ n ∈ slot.2, Throughout P n := by
  constructor
  · rintro ⟨hself, h⟩
    refine ⟨hself, forall_mem_lists.1 fun l hl => h l ?_,
      fun slot hslot => forall_mem_lists.1 fun l hl => h l ?_⟩
    · exact List.mem_append.2 (.inl hl)
    · exact List.mem_append.2 (.inr (mem_insideSlots.2 ⟨slot, hslot, hl⟩))
  · rintro ⟨hself, hchildren, hslots⟩
    refine ⟨hself, fun l hl => ?_⟩
    rcases List.mem_append.1 hl with hl | hl
    · exact forall_mem_lists.2 hchildren l hl
    · obtain ⟨slot, hslot, hl⟩ := mem_insideSlots.1 hl
      exact forall_mem_lists.2 (hslots slot hslot) l hl

end Stencil.Siblings

namespace Stencil

/-- All lists of siblings of a template. -/
def Template.siblingLists (t : Template) : List (List Node) := Siblings.lists t.children

end Stencil
