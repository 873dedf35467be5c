import Stencil.Proofs.Template.ChainPlaces
import Stencil.Proofs.Template.SlotContent
import Stencil.View.Component
/-
  The content that reaches the slots of a component.

  What is written between the tags of a reference is told apart by slots when it is read, linked when the template
  is, and picked by the slots of the component when they are rendered.  None of the three loses anything: a slot
  gets what the children for it hand on, in the order they are written and linked as siblings, and it gets
  nothing just when all of that says nothing.
-/

namespace Stencil

namespace Siblings

/-- Linking leaves no list without anything to say, and gives none something to say. -/
theorem Linked.saysNothing_iff {b : Bool} {ns linked : List Node} (h : Linked b ns linked) :
    (∀ n ∈ linked, n.saysNothing = true) ↔ ∀ n ∈ ns, n.saysNothing = true := by
  induction ns generalizing linked with
  | nil =>
    cases h
    exact .rfl
  | cons n rest ih =>
    rw [List.forall_mem_cons]
    cases h with
    | leftOut hn hrest => rw [ih hrest, and_iff_right hn.saysNothing]
    | kept hn hm hrest =>
      rw [List.forall_mem_cons, ih hrest, Node.saysNothing_withLinks, hm.saysNothing_eq]

/-- The content of a slot is linked under its name. -/
theorem LinkedSlots.get? {b : Bool} {slots linkedSlots : List (String × List Node)}
    (h : LinkedSlots b slots linkedSlots) (name : String) :
    (Ordered.get? slots name = none ∧ Ordered.get? linkedSlots name = none) ∨
      ∃ content linked, Ordered.get? slots name = some content ∧
        Ordered.get? linkedSlots name = some linked ∧ Linked b content linked := by
  induction slots generalizing linkedSlots with
  | nil =>
    cases h
    exact .inl ⟨rfl, rfl⟩
  | cons slot slots ih =>
    cases h with
    | cons hcontent hslots =>
      rw [Ordered.get?, Ordered.get?]
      split
      · exact .inr ⟨_, _, rfl, rfl, hcontent⟩
      · exact ih hslots

end Siblings

namespace SlotSupply

/-- The slot whose content a slot marker asks for: one without a name, or named `default`, asks for the default
    content. -/
def asked : Option String → Option String
  | none => none
  | some name => if name == "default" then none else some name

/-- Of the lists that a reference has, a slot marker picks one, unless nothing in it says anything. -/
theorem select_eq (content : SlotSupply) (name : Option String) :
    content.select name =
      (match asked name with
        | none => some content.default
        | some name => Ordered.get? content.named name).filter
          fun nodes => !nodes.all Node.saysNothing := by
  unfold select asked
  cases name with
  | none => rfl
  | some name =>
    dsimp only
    split <;> rfl

end SlotSupply

namespace Template

open SlotSupply (asked)
open Siblings (Linked LinkedInside)

variable {children default : List Node} {named : List (String × List Node)} {b : Bool}

/-- Each slot of a linked reference has what was handed to it, linked, or was handed nothing. -/
theorem exists_linked_handedTo (hdefault : Linked b (liftSlots children).1 default)
    (hnamed : Siblings.LinkedSlots b (liftSlots children).2 named) (slot : Option String) :
    let found := match slot with
      | none => some default
      | some name => Ordered.get? named name
    (found = none ∧ handedTo slot children = []) ∨
      ∃ nodes, found = some nodes ∧ Linked b (handedTo slot children) nodes := by
  rw [liftSlots_eq] at hdefault hnamed
  cases slot with
  | none => exact .inr ⟨default, rfl, hdefault⟩
  | some name =>
    rcases hnamed.get? name with ⟨hmissing, hfound⟩ | ⟨content, nodes, hcontent, hfound, hlinked⟩
    · refine .inl ⟨hfound, ?_⟩
      rw [Ordered.get?_tabulate] at hmissing
      split at hmissing
      · cases hmissing
      · next hname => exact handedTo_eq_nil (mt List.mem_eraseDups.2 hname)
    · refine .inr ⟨nodes, hfound, ?_⟩
      rw [Ordered.get?_tabulate] at hcontent
      split at hcontent
      · obtain rfl := Option.some.inj hcontent
        exact hlinked
      · cases hcontent

/-- What a slot marker picks is what was handed to its slot, linked; it picks nothing just when nothing in
    that says anything. -/
theorem select_linked (hdefault : Linked b (liftSlots children).1 default)
    (hnamed : Siblings.LinkedSlots b (liftSlots children).2 named) (name : Option String) :
    (SlotSupply.select ⟨default, named⟩ name = none ↔
        ∀ n ∈ handedTo (asked name) children, n.saysNothing = true) ∧
      ∀ nodes, SlotSupply.select ⟨default, named⟩ name = some nodes →
        Linked b (handedTo (asked name) children) nodes := by
  rw [SlotSupply.select_eq]
  rcases exists_linked_handedTo hdefault hnamed (asked name) with ⟨hfound, hnone⟩ | ⟨nodes, hfound, hlinked⟩
  · rw [hfound, hnone]
    exact ⟨by simp, nofun⟩
  · rw [hfound, Option.filter_some, ← hlinked.saysNothing_iff]
    constructor
    · simp
    · intro picked hpicked
      split at hpicked
      · obtain rfl := Option.some.inj hpicked
        exact hlinked
      · cases hpicked

/-- The children of a reference are told apart by slots without loss: the default content and each slot have what the
    children for them hand on, in the order they are written, the slots stand in the order in which they come
    first, and all the lists together have each node once.  When the reference is linked, a slot marker picks
    that list, linked as siblings are, and nothing just when nothing in it says anything; no name and the name
    `default` pick the same. -/
theorem slots_without_loss (children : List Node) :
    (liftSlots children).1 = handedTo none children ∧
      (liftSlots children).2 = Ordered.tabulate (children.filterMap Node.destination?).eraseDups
        (fun name => handedTo (some name) children) ∧
      ((liftSlots children).1 ++ slotNodes (liftSlots children).2).Perm
        (children.flatMap Node.handedOn) ∧
      ∀ b tag span linked,
        Siblings.linkNode b (.component tag (liftSlots children).1 (liftSlots children).2 span) =
          .ok linked →
        ∃ default named, linked = .component tag default named span ∧
          (SlotSupply.mk default named).select none = (SlotSupply.mk default named).select "default" ∧
          ∀ name,
            ((SlotSupply.mk default named).select name = none ↔
              ∀ n ∈ handedTo (asked name) children, n.saysNothing = true) ∧
            ∀ nodes, (SlotSupply.mk default named).select name = some nodes →
              Linked b (handedTo (asked name) children) nodes := by
  refine ⟨by rw [liftSlots_eq], by rw [liftSlots_eq], (placed_liftSlots children).perm, ?_⟩
  intro b tag span linked hlink
  have hanswers := Siblings.answers_linkNode b
    (.component tag (liftSlots children).1 (liftSlots children).2 span)
  rw [hlink] at hanswers
  cases hanswers.2 with
  | component hdefault hnamed =>
    exact ⟨_, _, rfl, rfl, select_linked hdefault hnamed⟩

/-- Two markers of one slot hand on to it one behind the other, and one named `default` to the default
    content. -/
theorem slots_without_loss_scripts :
    let a := Node.text "a" ⟨8, 9⟩
    let b := Node.text "b" ⟨31, 32⟩
    let c := Node.text "c" ⟨64, 65⟩
    let d := Node.text "d" ⟨97, 98⟩
    let children := [a, .slot (some "scripts") [b] ⟨9, 41⟩, .slot (some "default") [c] ⟨41, 74⟩,
      .slot (some "scripts") [d] ⟨74, 107⟩]
    let tag : Tag := ⟨"x-page", [], {}, ⟨1, 7⟩, {}⟩
    let given : SlotSupply := ⟨[a, c], [("scripts", [b, d])]⟩
    Siblings.linkNode false (.component tag (liftSlots children).1 (liftSlots children).2 ⟨0, 116⟩) =
        .ok (.component tag given.default given.named ⟨0, 116⟩) ∧
      given.select "scripts" = some [b, d] ∧ Linked false (handedTo "scripts" children) [b, d] ∧
      given.select "styles" = none := by
  intro a b c d children tag given
  have hlink : Siblings.linkNode false
      (.component tag (liftSlots children).1 (liftSlots children).2 ⟨0, 116⟩) =
        .ok (.component tag given.default given.named ⟨0, 116⟩) := rfl
  have hpicked : given.select "scripts" = some [b, d] := by cbv
  obtain ⟨default, named, hgiven, -, hselect⟩ :=
    (slots_without_loss children).2.2.2 false tag ⟨0, 116⟩ _ hlink
  cases hgiven
  exact ⟨hlink, hpicked, (hselect "scripts").2 [b, d] hpicked, (hselect "styles").1.2 (by decide)⟩

end Template

end Stencil
