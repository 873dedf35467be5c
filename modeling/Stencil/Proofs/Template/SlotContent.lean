import Mathlib.Data.List.Induction
import Stencil.Proofs.Names
import Stencil.Template.Parser
/-
  Where the children of a component go.

  A named slot marker hands on its content, any other child goes on as it is.  The default content and the
  contents of the named slots together hold what is handed on, each node once, and each of these lists
  keeps the order in which the nodes were written.

  The slot that a child goes to can be read off the child alone.  So each list is what the children for it hand
  on, one behind the other, and there is a list for each slot that some child goes to.
-/

namespace Stencil

/-- What a child of a component hands on: the content of a named slot marker, or itself. -/
def Node.handedOn : Node → List Node
  | .slot (some _) content _ => content
  | n => [n]

/-- The slot that a child of a component goes to; it has no name when that is the default content. -/
def Node.destination? : Node → Option String
  | .slot (some name) _ _ => if name == "default" then none else some name
  | _ => none

namespace Template

/-- A child without a destination of its own stays among the default content. -/
theorem placeChild_of_destination?_eq_none {child : Node} (h : child.destination? = none)
    (placed : List Node × List (String × List Node)) :
    placeChild placed child = (placed.1 ++ child.handedOn, placed.2) := by
  unfold placeChild
  split
  · next name content span =>
    have hname : (name == "default") = true := by
      by_contra hne
      simp [Node.destination?, hne] at h
    rw [if_pos hname]
    rfl
  · next hother =>
    cases child with
    | slot name content span =>
      cases name with
      | none => rfl
      | some name => exact absurd rfl (hother name content span)
    | _ => rfl

theorem placeChild_of_destination?_eq_some {child : Node} {name : String}
    (h : child.destination? = some name) (placed : List Node × List (String × List Node)) :
    placeChild placed child = (placed.1, addToSlot placed.2 name child.handedOn) := by
  unfold Node.destination? at h
  split at h
  · next name' content span =>
    split at h
    · cases h
    · next hname =>
      obtain rfl := Option.some.inj h
      rw [placeChild, if_neg hname]
      rfl
  · cases h

/-- The nodes in the contents of named slots. -/
def slotNodes (slots : List (String × List Node)) : List Node := slots.flatMap Prod.snd

/-- Adding to a slot adds just that to what the slots hold. -/
theorem slotNodes_addToSlot (slots : List (String × List Node)) (name : String) (content : List Node) :
    (slotNodes (addToSlot slots name content)).Perm (slotNodes slots ++ content) := by
  induction slots with
  | nil => simp [slotNodes, addToSlot, Ordered.put, Ordered.get?]
  | cons s slots ih =>
    obtain ⟨k, ns⟩ := s
    simp only [addToSlot, slotNodes] at ih
    by_cases hk : k = name
    · simp only [addToSlot, slotNodes, Ordered.put, Ordered.get?, hk, if_true, Option.getD_some,
        List.flatMap_cons, List.append_assoc]
      exact List.perm_append_comm.append_left ns
    · simp only [addToSlot, slotNodes, Ordered.put, Ordered.get?, hk, if_false, List.flatMap_cons,
        List.append_assoc]
      exact ih.append_left ns

/-- How the nodes handed on so far have been placed. -/
structure Placed (handed : List Node) (placed : List Node × List (String × List Node)) : Prop where
  perm : (placed.1 ++ slotNodes placed.2).Perm handed
  default_sublist : placed.1.Sublist handed
  slot_sublist : ∀ s ∈ placed.2, s.2.Sublist handed

/-- One more node in the default content. -/
theorem Placed.keep {handed kept content : List Node} {slots : List (String × List Node)}
    (h : Placed handed (kept, slots)) : Placed (handed ++ content) (kept ++ content, slots) where
  perm := by
    rw [List.append_assoc]
    refine (List.perm_append_comm.append_left kept).trans ?_
    rw [← List.append_assoc]
    exact h.perm.append_right content
  default_sublist := h.default_sublist.append (List.Sublist.refl content)
  slot_sublist := fun s hs => (h.slot_sublist s hs).trans (List.sublist_append_left _ _)

/-- More content for a named slot. -/
theorem Placed.addToSlot {handed kept content : List Node} {slots : List (String × List Node)}
    (h : Placed handed (kept, slots)) (name : String) :
    Placed (handed ++ content) (kept, addToSlot slots name content) where
  perm := by
    refine ((slotNodes_addToSlot slots name content).append_left kept).trans ?_
    rw [← List.append_assoc]
    exact h.perm.append_right content
  default_sublist := h.default_sublist.trans (List.sublist_append_left _ _)
  slot_sublist := by
    intro s hs
    rcases Ordered.mem_put hs with hs | rfl
    · exact (h.slot_sublist s hs).trans (List.sublist_append_left _ _)
    · refine List.Sublist.append ?_ (List.Sublist.refl content)
      cases hold : Ordered.get? slots name with
      | none => exact List.nil_sublist _
      | some old => exact h.slot_sublist _ (Ordered.mem_of_get?_eq_some hold)

/-- One more child is placed. -/
theorem Placed.placeChild {handed : List Node} {placed : List Node × List (String × List Node)}
    (h : Placed handed placed) (child : Node) :
    Placed (handed ++ child.handedOn) (placeChild placed child) := by
  cases hslot : child.destination? with
  | none =>
    rw [placeChild_of_destination?_eq_none hslot]
    exact h.keep
  | some name =>
    rw [placeChild_of_destination?_eq_some hslot]
    exact h.addToSlot name

/-- The children of a component are placed without loss and in order. -/
theorem placed_liftSlots (children : List Node) :
    Placed (children.flatMap Node.handedOn) (liftSlots children) := by
  have hfoldl : ∀ (handed : List Node) (placed : List Node × List (String × List Node)),
      Placed handed placed →
      Placed (handed ++ children.flatMap Node.handedOn) (children.foldl placeChild placed) := by
    induction children with
    | nil => simp
    | cons child children ih =>
      intro handed placed h
      rw [List.flatMap_cons, ← List.append_assoc, List.foldl_cons]
      exact ih _ _ (h.placeChild child)
  exact hfoldl [] ([], []) ⟨List.Perm.nil, List.Sublist.refl _, by simp⟩

/-! ## The list of each slot -/

/-- What children hand on to a slot, one behind the other. -/
def handedTo (slot : Option String) (children : List Node) : List Node :=
  (children.filter fun n => n.destination? == slot).flatMap Node.handedOn

theorem handedTo_concat (slot : Option String) (children : List Node) (child : Node) :
    handedTo slot (children ++ [child]) =
      handedTo slot children ++ if child.destination? = slot then child.handedOn else [] := by
  unfold handedTo
  rw [List.filter_append, List.flatMap_append]
  by_cases h : child.destination? = slot <;> simp [h]

/-- A slot that no child goes to is handed nothing. -/
theorem handedTo_eq_nil {name : String} {children : List Node}
    (h : name ∉ children.filterMap Node.destination?) : handedTo (some name) children = [] := by
  unfold handedTo
  rw [List.flatMap_eq_nil_iff]
  intro child hchild
  obtain ⟨hmem, hslot⟩ := List.mem_filter.1 hchild
  exact absurd (List.mem_filterMap.2 ⟨child, hmem, eq_of_beq hslot⟩) h

/-- The default content and the content of each slot are what the children for it hand on; the slots stand in
    the order in which they come first. -/
theorem liftSlots_eq (children : List Node) :
    liftSlots children = (handedTo none children,
      Ordered.tabulate (children.filterMap Node.destination?).eraseDups fun name =>
        handedTo (some name) children) := by
  induction children using List.reverseRecOn with
  | nil => rfl
  | append_singleton children child ih =>
    have hstep : liftSlots (children ++ [child]) = placeChild (liftSlots children) child := by
      rw [liftSlots, List.foldl_append]
      rfl
    rw [hstep, ih, List.filterMap_append]
    cases hslot : child.destination? with
    | none =>
      rw [placeChild_of_destination?_eq_none hslot]
      simp [handedTo_concat, hslot]
    | some name =>
      rw [placeChild_of_destination?_eq_some hslot]
      have hnew : [child].filterMap Node.destination? = [name] := by simp [hslot]
      -- what the slot holds so far is what was handed to it, nothing if it is new
      have hheld : (Ordered.get? (Ordered.tabulate (children.filterMap Node.destination?).eraseDups fun name =>
          handedTo (some name) children) name).getD [] = handedTo (some name) children := by
        rw [Ordered.get?_tabulate]
        split
        · rfl
        · next hname => rw [handedTo_eq_nil (mt List.mem_eraseDups.2 hname)]; rfl
      have hlists : (fun other => if other = name then handedTo (some name) children ++ child.handedOn
          else handedTo (some other) children) =
          fun other => handedTo (some other) (children ++ [child]) := by
        funext other
        rw [handedTo_concat, hslot]
        by_cases h : other = name
        · simp [h]
        · simp [h, Ne.symm h]
      have hdefault : handedTo none (children ++ [child]) = handedTo none children := by
        simp [handedTo_concat, hslot]
      rw [hnew, eraseDups_concat, addToSlot, hheld, Ordered.put_tabulate (nodup_eraseDups _), hlists, hdefault]

end Template

end Stencil
