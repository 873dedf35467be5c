import Stencil.Proofs.Template.SiblingLists
import Stencil.Template.Siblings
/-
  Trees without directives.

  Linking tells tags their places among their neighbours, and leaves out what says nothing between a tag
  and its continuation.  Where no tag has a directive there is nothing to tell and nothing to leave out, so
  the tree is linked as it was read.
-/

namespace Stencil

/-- If a node has a tag, the tag has no directives, and no links to its neighbours. -/
def Node.Undirected (n : Node) : Prop := ∀ tag ∈ n.tag?, tag.directives = {} ∧ tag.links = {}

theorem Node.undirected_of_tag?_eq_none {n : Node} (h : n.tag? = none) : n.Undirected := by
  intro tag htag
  rw [h] at htag
  cases htag

namespace Siblings

theorem directives?_of_undirected {n : Node} {d : Directives} (h : n.Undirected)
    (hd : n.directives? = some d) : d = {} := by
  obtain ⟨tag, htag, rfl⟩ := Option.map_eq_some_iff.1 hd
  exact (h tag htag).1

/-- A tag that is told nothing is left as it is. -/
theorem withLinks_of_undirected {n : Node} (h : n.Undirected) : n.withLinks {} = n := by
  cases n with
  | element tag =>
    have hlinks : tag.links = {} := (h tag rfl).2
    rw [Node.withLinks, ← hlinks]
  | component tag =>
    have hlinks : tag.links = {} := (h tag rfl).2
    rw [Node.withLinks, ← hlinks]
  | text => rfl
  | expression => rfl
  | comment => rfl
  | slot => rfl

theorem isContinued_of_undirected {ns : List Node} (h : ∀ n ∈ ns, n.Undirected) :
    isContinued ns = false := by
  unfold isContinued
  cases hnext : nextDirectives? ns with
  | none => rfl
  | some d =>
    obtain ⟨n, hfound, hd⟩ := Option.bind_eq_some_iff.1 hnext
    obtain rfl := directives?_of_undirected (h n (List.mem_of_find?_eq_some hfound)) hd
    rfl

mutual

theorem linkNode_of_undirected (b : Bool) :
    (n : Node) → Throughout Node.Undirected n → linkNode b n = .ok n
  | .text .., _ => rfl
  | .expression .., _ => rfl
  | .comment .., _ => rfl
  | .element tag selfClosing children _, h => by
    rw [linkNode, linkAll_of_undirected _ {} children (throughout_element.1 h).2]
    rfl
  | .component _ children slots _, h => by
    obtain ⟨-, hchildren, hslots⟩ := throughout_component.1 h
    rw [linkNode, linkAll_of_undirected b {} children hchildren, linkSlots_of_undirected b slots hslots]
    rfl
  | .slot _ fallback _, h => by
    rw [linkNode, linkAll_of_undirected b {} fallback (throughout_slot.1 h).2]
    rfl
termination_by structural n => n

/-- Siblings without directives, at any depth, are linked as they are. -/
theorem linkAll_of_undirected (b : Bool) (before : Before) :
    (ns : List Node) → (∀ n ∈ ns, Throughout Node.Undirected n) → linkAll b before ns = .ok ns
  | [], _ => rfl
  | n :: rest, h => by
    obtain ⟨hn, hrest⟩ := List.forall_mem_cons.1 h
    have hmore := fun before => linkAll_of_undirected b before rest hrest
    rw [linkAll, linkNode_of_undirected b n hn]
    show (match n.directives? with | some d => _ | none => _) = _
    cases hd : n.directives? with
    | some d =>
      obtain rfl := directives?_of_undirected hn.1 hd
      show (linkAll b ⟨.absent, .absent⟩ rest >>= _) = _
      rw [hmore]
      exact congrArg (fun m => Except.ok (m :: rest)) (withLinks_of_undirected hn.1)
    | none =>
      dsimp only
      split
      · rw [hmore, isContinued_of_undirected fun m hm => (hrest m hm).1]
        cases b <;> rfl
      · rw [hmore]
        rfl
termination_by structural ns => ns

theorem linkSlots_of_undirected (b : Bool) :
    (slots : List (String × List Node)) →
      (∀ slot ∈ slots, ∀ n ∈ slot.2, Throughout Node.Undirected n) → linkSlots b slots = .ok slots
  | [], _ => rfl
  | (_, content) :: slots, h => by
    obtain ⟨hcontent, hslots⟩ := List.forall_mem_cons.1 h
    rw [linkSlots, linkAll_of_undirected b {} content hcontent, linkSlots_of_undirected b slots hslots]
    rfl
termination_by structural slots => slots

end

end Siblings

/-- A template without directives is linked as it is. -/
theorem Template.link_of_undirected {t : Template}
    (h : ∀ ns ∈ t.siblingLists, ∀ n ∈ ns, n.Undirected) : t.link = .ok t := by
  rw [link, Siblings.linkAll_of_undirected false {} t.children (Siblings.forall_mem_lists.1 h)]
  rfl

end Stencil
