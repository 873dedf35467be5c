import Stencil.Proofs.Template.Inside
/-
  Tags that close themselves, and tags in pairs.

  A tag without content may end with `/>`, or it may be an opening tag with its closing tag right behind it.
  Only the node of an element keeps which of the two was written.  Paired, a tree is what it would be if
  every tag had its closing tag; its outline leaves out the spans as well.

  The main statements are that making the node of a tag and linking siblings do not look at how a tag was
  closed, so that what they make of two trees of one outline has one outline again.
-/

namespace Stencil

namespace Node

mutual

/-- A node whose elements all have their closing tags. -/
def paired : Node → Node
  | .text content s => .text content s
  | .expression source escaped s => .expression source escaped s
  | .comment content s => .comment content s
  | .element tag _ children s => .element tag false (pairedAll children) s
  | .component tag children slots s => .component tag (pairedAll children) (pairedSlots slots) s
  | .slot name fallback s => .slot name (pairedAll fallback) s
termination_by structural n => n

/-- Siblings whose elements all have their closing tags. -/
def pairedAll : List Node → List Node
  | [] => []
  | n :: ns => paired n :: pairedAll ns
termination_by structural ns => ns

/-- The content of named slots, with closing tags. -/
def pairedSlots : List (String × List Node) → List (String × List Node)
  | [] => []
  | (name, ns) :: slots => (name, pairedAll ns) :: pairedSlots slots
termination_by structural slots => slots

end

/-- A node without its spans and without how its tags were closed. -/
def outline (n : Node) : Node := n.paired.shape

/-- Siblings without their spans and without how their tags were closed. -/
def outlineAll (ns : List Node) : List Node := shapeAll (pairedAll ns)

theorem pairedAll_eq_map (ns : List Node) : pairedAll ns = ns.map paired := by
  induction ns with
  | nil => rfl
  | cons n ns ih => rw [pairedAll, ih, List.map_cons]

theorem outlineAll_cons (n : Node) (ns : List Node) : outlineAll (n :: ns) = n.outline :: outlineAll ns := rfl

theorem outlineAll_reverse (ns : List Node) : outlineAll ns.reverse = (outlineAll ns).reverse := by
  simp only [outlineAll, shapeAll_eq_map, pairedAll_eq_map, List.map_reverse]

theorem tag?_paired (n : Node) : n.paired.tag? = n.tag? := by cases n <;> rfl

theorem directives?_paired (n : Node) : n.paired.directives? = n.directives? :=
  congrArg (Option.map Tag.directives) n.tag?_paired

theorem saysNothing_paired (n : Node) : n.paired.saysNothing = n.saysNothing := by cases n <;> rfl

theorem paired_withLinks (links : Links) (n : Node) :
    (n.withLinks links).paired = n.paired.withLinks links := by cases n <;> rfl

mutual

/-- It is the same to leave out the spans first. -/
theorem paired_shape (n : Node) : n.shape.paired = n.outline :=
  match n with
  | .text .. => rfl
  | .expression .. => rfl
  | .comment .. => rfl
  | .element tag selfClosing children s => by
    rw [shape, paired, pairedAll_shapeAll children]
    rfl
  | .component tag children slots s => by
    rw [shape, paired, pairedAll_shapeAll children, pairedSlots_shapeSlots slots]
    rfl
  | .slot name fallback s => by
    rw [shape, paired, pairedAll_shapeAll fallback]
    rfl
termination_by structural n

theorem pairedAll_shapeAll (ns : List Node) : pairedAll (shapeAll ns) = outlineAll ns :=
  match ns with
  | [] => rfl
  | n :: ns => by
    rw [shapeAll, pairedAll, paired_shape n, pairedAll_shapeAll ns]
    rfl
termination_by structural ns

theorem pairedSlots_shapeSlots (slots : List (String × List Node)) :
    pairedSlots (shapeSlots slots) = shapeSlots (pairedSlots slots) :=
  match slots with
  | [] => rfl
  | (name, ns) :: slots => by
    rw [shapeSlots, pairedSlots, pairedAll_shapeAll ns, pairedSlots_shapeSlots slots]
    rfl
termination_by structural slots

end

/-- The outline of a node is part of its shape. -/
theorem outline_congr {n n' : Node} (h : n'.shape = n.shape) : n'.outline = n.outline := by
  rw [← paired_shape, h, paired_shape]

end Node

open Node

namespace Template

/-! ## Making nodes -/

theorem pairedSlots_eq_mapSlots (slots : List (String × List Node)) :
    pairedSlots slots = mapSlots paired slots := by
  induction slots with
  | nil => rfl
  | cons slot slots ih =>
    rw [pairedSlots, ih, pairedAll_eq_map]
    rfl

theorem keepsSlots_paired : KeepsSlots paired := by
  refine ⟨fun name content s => ⟨s, by rw [paired, pairedAll_eq_map]⟩, fun n hn => ?_⟩
  cases n with
  | slot name => cases name <;> first | rfl | cases hn
  | _ => rfl

theorem liftSlots_paired (children : List Node) :
    liftSlots (pairedAll children) =
      (pairedAll (liftSlots children).1, pairedSlots (liftSlots children).2) := by
  rw [pairedAll_eq_map, pairedAll_eq_map, pairedSlots_eq_mapSlots, keepsSlots_paired.liftSlots_map]

/-- An opening tag that has its closing tag. -/
def Opening.paired (opening : Opening) : Opening := { opening with selfClosing := false }

/-- How a tag was closed is kept by its node, and decides nothing else. -/
theorem tagNode_paired (o : Dialect) (opening : Opening) (children : List Node) (stop : Nat) :
    tagNode o opening.paired (pairedAll children) stop = (tagNode o opening children stop).map Node.paired := by
  unfold tagNode
  rw [show opening.paired.tag = opening.tag from rfl]
  split
  · unfold slotNode
    split
    · rfl
    · cases slotName opening.tag.attributes <;> rfl
  · split
    · rw [liftSlots_paired]
      rfl
    · rfl

/-- The outline of the node of a tag is decided by the outline of its children. -/
theorem tagNode_outline {o : Dialect} {opening opening' : Opening} {children children' : List Node}
    (hopening : opening'.paired.shape = opening.paired.shape)
    (hchildren : outlineAll children' = outlineAll children) {stop : Nat} {n : Node}
    (h : tagNode o opening children stop = .ok n) (stop' : Nat) :
    ∃ n', tagNode o opening' children' stop' = .ok n' ∧ n'.outline = n.outline := by
  have hpaired : tagNode o opening.paired (pairedAll children) stop = .ok n.paired := by
    rw [tagNode_paired, h]
    rfl
  obtain ⟨m, hm, hshape⟩ := tagNode_congr hopening hchildren hpaired stop'
  rw [tagNode_paired] at hm
  cases hn : tagNode o opening' children' stop' with
  | error err => rw [hn] at hm; cases hm
  | ok n' =>
    rw [hn] at hm
    obtain rfl := Except.ok.inj hm
    exact ⟨n', rfl, hshape⟩

end Template

/-! ## Linking -/

namespace Siblings

theorem keepsLinks_paired : KeepsLinks paired :=
  ⟨saysNothing_paired, fun n => congrArg (Option.map Directives.shape) n.directives?_paired, paired_withLinks⟩

mutual

theorem linkNode_paired (b : Bool) (n : Node) :
    (linkNode b n.paired).toOption = (linkNode b n).toOption.map Node.paired :=
  match n with
  | .text .. => rfl
  | .expression .. => rfl
  | .comment .. => rfl
  | .element tag selfClosing children s => by
    have hchildren := linkAll_paired (b || Element.showsBlanks tag.name) {} children
    rw [paired, linkNode, linkNode, toOption_bind, toOption_bind, hchildren]
    cases linkAll (b || Element.showsBlanks tag.name) {} children <;> rfl
  | .component tag children slots s => by
    have hchildren := linkAll_paired b {} children
    have hslots := linkSlots_paired b slots
    simp only [paired, linkNode, toOption_bind, hchildren, hslots]
    cases linkAll b {} children with
    | error err => rfl
    | ok linked => cases linkSlots b slots <;> rfl
  | .slot name fallback s => by
    have hfallback := linkAll_paired b {} fallback
    rw [paired, linkNode, linkNode, toOption_bind, toOption_bind, hfallback]
    cases linkAll b {} fallback <;> rfl
termination_by structural n

theorem linkAll_paired (b : Bool) (before : Before) (ns : List Node) :
    (linkAll b before (pairedAll ns)).toOption = (linkAll b before ns).toOption.map pairedAll :=
  match ns with
  | [] => rfl
  | n :: rest => by
    have hrest := fun before => linkAll_paired b before rest
    rw [(funext pairedAll_eq_map : pairedAll = List.map paired)] at hrest ⊢
    exact keepsLinks_paired.linkAll_cons (linkNode_paired b n) hrest before
termination_by structural ns

theorem linkSlots_paired (b : Bool) (slots : List (String × List Node)) :
    (linkSlots b (pairedSlots slots)).toOption = (linkSlots b slots).toOption.map pairedSlots :=
  match slots with
  | [] => rfl
  | (name, content) :: slots => by
    have hcontent := linkAll_paired b {} content
    have hslots := linkSlots_paired b slots
    simp only [pairedSlots, linkSlots, toOption_bind, hcontent, hslots]
    cases linkAll b {} content with
    | error err => rfl
    | ok linked => cases linkSlots b slots <;> rfl
termination_by structural slots

end

/-- Siblings of one outline are linked to siblings of one outline, if they are linked at all. -/
theorem linkAll_outline {b : Bool} {ns ns' linked : List Node} (h : outlineAll ns' = outlineAll ns)
    (hlinked : linkAll b {} ns = .ok linked) :
    ∃ linked', linkAll b {} ns' = .ok linked' ∧ outlineAll linked' = outlineAll linked := by
  have hsame : ∀ ms, ((linkAll b {} ms).toOption.map outlineAll) =
      (linkAll b {} (outlineAll ms)).toOption := by
    intro ms
    rw [outlineAll, linkAll_shape, linkAll_paired, Option.map_map]
    rfl
  exact exists_ok_of_toOption_map ((hsame ns').trans (h ▸ (hsame ns).symm)) hlinked

end Siblings

/-- Templates of one outline link to templates of one outline, if they link at all. -/
theorem Template.link_outline {t t' u : Template} (h : outlineAll t'.children = outlineAll t.children)
    (hlink : t.link = .ok u) : ∃ u', t'.link = .ok u' ∧ outlineAll u'.children = outlineAll u.children := by
  unfold link at hlink ⊢
  cases hlinked : Siblings.linkAll false {} t.children with
  | error err => rw [hlinked] at hlink; cases hlink
  | ok linked =>
    rw [hlinked] at hlink
    obtain rfl := Except.ok.inj hlink
    obtain ⟨linked', hlinked', hsame⟩ := Siblings.linkAll_outline h hlinked
    rw [hlinked']
    exact ⟨_, rfl, hsame⟩

end Stencil
