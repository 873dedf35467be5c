import Stencil.Proofs.Template.Wrapped
import Stencil.Proofs.View.Deeper
import Stencil.Proofs.View.OneStore
/-
  Components that only pass their content through.

  The template of the component `x-wrap` is nothing but a slot marker.  Where the component is referred to,
  its content is rendered in the scope and with the fillings of the place it was written at, one level
  deeper.  So wrapping siblings in it, however often, shows nowhere but in how deep they are.
-/

namespace Stencil

open Rendering

/-- A rendering was refused since it went too deep. -/
def ViewError.OfDepth (err : ViewError) : Prop :=
  ∃ tag limit, err = .nestedTooDeeply tag limit ∨ err = .recursiveComponent tag limit

/-- What is wrapped says something if it does alone. -/
theorem Node.exists_significant_wrapAll {ns : List Node} (h : ∃ m ∈ ns, m.saysNothing = false) (n : Nat) :
    ∃ m ∈ wrapAll n ns, m.saysNothing = false := by
  cases n with
  | zero => exact h
  | succ n => exact ⟨wrap (wrapAll n ns), List.mem_singleton_self _, rfl⟩

/-! ## The component -/

namespace Template

/-- The template of the component: a slot marker that closes itself. -/
theorem compile_marker {o : Dialect} (hmarker : o.tagMarker = "x-") :
    compile o "<x-slot />" = .ok ⟨[.slot none [] ⟨0, 10⟩], ⟨0, 10⟩⟩ := by
  have hread : Tag.readAttributes "x-slot" 0 ⟨7, " />".toList⟩ = ([], .ok ⟨true, ⟨10, []⟩⟩) :=
    Tag.readAttributes_of_close rfl
  have hopening : readOpening (Cursor.start "<x-slot />") =
      .ok (⟨0, ⟨"x-slot", [], {}, ⟨1, 7⟩, {}⟩, true, ⟨0, 10⟩⟩, ⟨10, []⟩) :=
    readOpening_eq_ok_iff.2 ⟨_, _, _, _, _, _, _, rfl, rfl, hread, rfl, rfl, rfl⟩
  have hslot : o.slotTag = "x-slot" := by
    rw [Dialect.slotTag, hmarker]
    rfl
  have hstep : Reader.step o ⟨Cursor.start "<x-slot />", [], []⟩ =
      .ok (.next ⟨⟨10, []⟩, [.slot none [] ⟨0, 10⟩], []⟩) := by
    rw [Reader.step_of_atNode rfl fun hmark => Bool.noConfusion hmark]
    show Reader.Step.next <$> Reader.openTag o _ = _
    rw [Reader.openTag, hopening]
    show (Reader.Step.next <$> (tagNode o _ _ _ >>= _)) = _
    rw [tagNode, hslot]
    rfl
  rw [compile, parse, Reader.run_of_step hstep, Reader.run_atEnd]
  rfl

end Template

namespace Render

variable {e : Engine} {s : Store} {w : Template} {ns : List Node}

/-- What is wrapped is rendered where it was written, one level deeper. -/
theorem answer_once_wrap (hcomponent : (e.componentIn "x-wrap" s).1 = .ok w) {span : Span}
    (hw : w.children = [.slot none [] span]) (hsignificant : ∃ n ∈ ns, n.saysNothing = false)
    (fs : List Filling) (nesting : Nat) (scope : Scope) :
    (once e fs nesting scope (Node.wrap ns)).answer s =
      if nesting < e.options.maxDepth then
        if fs.length < e.options.maxComponentDepth then (nodes e fs (nesting + 1) scope {} ns).answer s
        else .error (.recursiveComponent "x-wrap" e.options.maxComponentDepth)
      else .error (.nestedTooDeeply "x-wrap" e.options.maxDepth) := by
  have hselect : SlotSupply.select ⟨ns, []⟩ none = some ns := by
    have hall : ns.all Node.saysNothing = false := by
      obtain ⟨n, hn, hsignificant⟩ := hsignificant
      exact List.all_eq_false.2 ⟨n, hn, by rw [hsignificant]; decide⟩
    unfold SlotSupply.select
    dsimp only
    rw [Option.filter_some, hall]
    rfl
  have hbody : (nodes e (⟨⟨ns, []⟩, scope⟩ :: fs) (nesting + 1) (Scope.root []) {} w.children).answer s =
      (nodes e fs (nesting + 1) scope {} ns).answer s := by
    rw [hw, answer_nodes_slot hselect, answer_nodes_nil]
    cases (nodes e fs (nesting + 1) scope {} ns).answer s with
    | error err => rfl
    | ok text =>
      show Except.ok (text ++ "") = Except.ok text
      rw [String.append_empty]
  rw [Node.wrap, answer_once_component, ← hbody, show Tag.wrap.name = "x-wrap" from rfl, hcomponent]
  rfl

/-- Siblings in so many references give what they give alone, unless they are refused for their depth. -/
theorem answer_nodes_wrapAll (hcomponent : (e.componentIn "x-wrap" s).1 = .ok w) {span : Span}
    (hw : w.children = [.slot none [] span]) (hsignificant : ∃ n ∈ ns, n.saysNothing = false)
    (fs : List Filling) (scope : Scope) (n nesting : Nat) :
    (∃ err, (nodes e fs nesting scope {} (Node.wrapAll n ns)).answer s = .error err ∧ err.OfDepth) ∨
      (nodes e fs nesting scope {} (Node.wrapAll n ns)).answer s =
        (nodes e fs nesting scope {} ns).answer s := by
  induction n generalizing nesting with
  | zero => exact .inr rfl
  | succ n ih =>
    have hinside := answer_once_wrap hcomponent hw
      (Node.exists_significant_wrapAll hsignificant n) fs nesting scope
    rw [Node.wrapAll, answer_nodes_alone (Node.tag?_wrap _) rfl rfl, hinside]
    split
    · split
      · rcases ih (nesting + 1) with hlimit | hsame
        · exact .inl hlimit
        · -- one level deeper the siblings are refused, or give what they give here
          rw [hsame]
          rcases nodes_follows (d := 1) (.refl fs) nesting scope {} (rfl : Node.shapeAll ns = _) s with
            hrun | ⟨-, tag, limit, hrefused⟩
          · exact .inr (congrArg Prod.fst hrun)
          · exact .inl ⟨_, hrefused, tag, limit, .inl rfl⟩
      · exact .inl ⟨_, rfl, _, _, .inr rfl⟩
    · exact .inl ⟨_, rfl, _, _, .inl rfl⟩

end Render

end Stencil
