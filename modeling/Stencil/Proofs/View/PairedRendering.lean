import Stencil.Proofs.Template.Paired
import Stencil.Proofs.View.Deeper
/-
  Rendering does not look at how tags were closed.

  A rendering writes a closing tag for every element that can have content, so a tree and its pairing are
  rendered alike, with whatever fillings and at whatever depth.  The fillings are paired along with the tree;
  the template of a component is not, but as pairing it twice changes nothing more, it is rendered alike with
  the paired fillings and with the others.

  The main statement is that templates of one outline are the same to render.
-/

namespace Stencil

open Node

namespace Node

mutual

/-- There is nothing left to pair. -/
theorem paired_paired (n : Node) : n.paired.paired = n.paired :=
  match n with
  | .text .. => rfl
  | .expression .. => rfl
  | .comment .. => rfl
  | .element tag selfClosing children s => by
    simp only [paired, pairedAll_pairedAll children]
  | .component tag children slots s => by
    simp only [paired, pairedAll_pairedAll children, pairedSlots_pairedSlots slots]
  | .slot name fallback s => by
    simp only [paired, pairedAll_pairedAll fallback]
termination_by structural n

theorem pairedAll_pairedAll (ns : List Node) : pairedAll (pairedAll ns) = pairedAll ns :=
  match ns with
  | [] => rfl
  | n :: ns => by
    simp only [pairedAll, paired_paired n, pairedAll_pairedAll ns]
termination_by structural ns

theorem pairedSlots_pairedSlots (slots : List (String × List Node)) :
    pairedSlots (pairedSlots slots) = pairedSlots slots :=
  match slots with
  | [] => rfl
  | (name, ns) :: slots => by
    simp only [pairedSlots, pairedAll_pairedAll ns, pairedSlots_pairedSlots slots]
termination_by structural slots

end

end Node

/-! ## Fillings -/

/-- A filling whose content has closing tags. -/
def Filling.paired (f : Filling) : Filling := ⟨⟨pairedAll f.content.default, pairedSlots f.content.named⟩, f.scope⟩

theorem Filling.paired_paired (f : Filling) : f.paired.paired = f.paired := by
  simp only [paired, pairedAll_pairedAll, pairedSlots_pairedSlots]

theorem Filling.map_paired_map_paired (fs : List Filling) : (fs.map paired).map paired = fs.map paired := by
  rw [List.map_map]
  exact List.map_congr_left fun f _ => f.paired_paired

theorem Filling.select_paired (f : Filling) (name : Option String) :
    f.paired.content.select name = (f.content.select name).map pairedAll := by
  have hpaired : pairedAll = List.map Node.paired := funext pairedAll_eq_map
  rw [paired, hpaired, Template.pairedSlots_eq_mapSlots]
  exact SlotSupply.select_map saysNothing_paired f.content name

namespace Render

variable (e : Engine)

mutual

/-- A tree and its pairing are rendered alike. -/
theorem nodes_paired (fs : List Filling) (nesting : Nat) (scope : Scope) (p : Progress) (ns : List Node) :
    nodes e (fs.map Filling.paired) nesting scope p (pairedAll ns) = nodes e fs nesting scope p ns :=
  match ns with
  | [] => by rw [pairedAll, nodes, nodes]
  | n :: rest => by
    have hrest := fun q => nodes_paired fs nesting scope q rest
    rw [pairedAll, nodes_cons, nodes_cons, sibling_paired fs nesting scope p n]
    simp only [hrest]
termination_by (e.options.maxDepth - nesting, fs.length, sizeOf ns, 0)

theorem untaggedText_paired (fs : List Filling) (nesting : Nat) (scope : Scope) (n : Node) :
    untaggedText e (fs.map Filling.paired) nesting scope n.paired = untaggedText e fs nesting scope n := by
  cases n with
  | slot name fallback s =>
    unfold untaggedText
    cases fs with
    | nil => exact nodes_paired [] nesting scope {} fallback
    | cons f fs =>
      rw [List.map_cons, paired]
      dsimp only
      rw [f.select_paired]
      cases f.content.select name with
      | none => exact nodes_paired (f :: fs) nesting scope {} fallback
      | some content => exact nodes_paired fs nesting f.scope {} content
  | _ => rfl
termination_by (e.options.maxDepth - nesting, fs.length, sizeOf n, 1)

theorem sibling_paired (fs : List Filling) (nesting : Nat) (scope : Scope) (p : Progress) (n : Node) :
    sibling e (fs.map Filling.paired) nesting scope p n.paired = sibling e fs nesting scope p n := by
  have honce := fun inner => once_paired fs nesting inner n
  unfold sibling taggedText
  simp only [tag?_paired, untaggedText_paired fs nesting scope n, honce]
termination_by (e.options.maxDepth - nesting, fs.length, sizeOf n, 2)

theorem once_paired (fs : List Filling) (nesting : Nat) (scope : Scope) (n : Node) :
    once e (fs.map Filling.paired) nesting scope n.paired = once e fs nesting scope n := by
  cases n with
  | element tag selfClosing children s =>
    rw [paired, once, once]
    by_cases hroom : nesting < e.options.maxDepth
    · rw [if_pos hroom, if_pos hroom, nodes_paired fs (nesting + 1) scope {} children]
    · rw [if_neg hroom, if_neg hroom]
  | component tag children slots s =>
    rw [paired, once, once, List.length_map]
    by_cases hroom : nesting < e.options.maxDepth
    · rw [if_pos hroom, if_pos hroom]
      generalize hg : (⟨⟨children, slots⟩, scope⟩ : Filling) = g
      have hpaired : (⟨⟨pairedAll children, pairedSlots slots⟩, scope⟩ : Filling) = g.paired := by
        rw [← hg]
        rfl
      -- the template of the component, paired or not, is the same with either fillings
      have htemplate : ∀ props ns, nodes e (g.paired :: fs.map Filling.paired) (nesting + 1) (Scope.root props) {} ns =
          nodes e (g :: fs) (nesting + 1) (Scope.root props) {} ns := by
        intro props ns
        have hagain := nodes_paired (g.paired :: fs.map Filling.paired) (nesting + 1) (Scope.root props) {} ns
        rw [List.map_cons, g.paired_paired, Filling.map_paired_map_paired] at hagain
        exact hagain.symm.trans (nodes_paired (g :: fs) (nesting + 1) (Scope.root props) {} ns)
      simp only [hpaired, htemplate]
    · rw [if_neg hroom, if_neg hroom]
  | _ => rw [once_of_tag?_eq_none rfl, once_of_tag?_eq_none rfl]
termination_by (e.options.maxDepth - nesting, fs.length, sizeOf n, 0)

end

/-- Templates of one outline are the same to render. -/
theorem template_outline {t u : Template} (h : outlineAll u.children = outlineAll t.children)
    (bindings : Bindings) : template e u bindings = template e t bindings := by
  have hshapes : nodes e [] 0 (Scope.root bindings) {} (pairedAll u.children) =
      nodes e [] 0 (Scope.root bindings) {} (pairedAll t.children) :=
    (nodes_follows (d := 0) .nil 0 (Scope.root bindings) {} h).eq
  exact (nodes_paired e [] 0 (Scope.root bindings) {} u.children).symm.trans
    (hshapes.trans (nodes_paired e [] 0 (Scope.root bindings) {} t.children))

end Render

end Stencil
