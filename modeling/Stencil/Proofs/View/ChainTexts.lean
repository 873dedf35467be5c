import Stencil.Proofs.Template.ChainPlaces
import Stencil.Proofs.View.SiblingTexts
/-
  The texts of chains.

  The text of a chain is said here without links and without what is remembered between siblings: the
  members are taken in order, each expands its directives, and after the first one that was chosen only
  the blanks between the members are left.  A member that is the fallback of a loop is passed over unless
  the loop before it was empty; that loop may stand before the chain.

  The laws say that the siblings of a chain are rendered as its text, whatever was chosen before it.
-/

namespace Stencil

/-- The text of a node that stands between the members of a chain. -/
def Node.betweenText : Node → String
  | .text content _ => content
  | _ => ""

/-- Whether a node goes on with a chain, by the place it was told. -/
def Node.Continues (n : Node) : Prop := n.chainPlace = some .link ∨ n.chainPlace = some .tail

namespace Siblings

/-- A head with what follows it in its chain: links and tails, and nodes that say nothing. -/
structure IsChain (head : Node) (members : List Node) : Prop where
  head : head.chainPlace = some .head
  members : ∀ n ∈ members, n.saysNothing = true ∨ n.Continues

/-- No chain goes on in these siblings. -/
def NoneContinues (ns : List Node) : Prop := ∀ n ∈ next? ns, ¬ n.Continues

end Siblings

namespace Render

open Siblings (IsChain)

/-! ## The text of a chain -/

/-- The text of what stands between the members of a chain. -/
def betweenTexts : List Node → String
  | [] => ""
  | n :: rest => n.betweenText ++ betweenTexts rest

/-- The text of a chain and the fate of its last loop, after a loop of that fate. -/
def chainText (e : Engine) (fillings : List Filling) (nesting : Nat) (scope : Scope) (fate : LoopFate) :
    List Node → Rendering (String × LoopFate)
  | [] => pure ("", fate)
  | n :: rest =>
    match n.tag? with
    | none => do
      let (more, fate) ← chainText e fillings nesting scope fate rest
      pure (n.betweenText ++ more, fate)
    | some tag =>
      if n.isFallback && fate != .empty then chainText e fillings nesting scope .noLoop rest
      else do
        let (text, outcome) ← taggedText e fillings nesting scope tag.directives n
        if outcome.chosen then
          pure (text ++ betweenTexts rest, if rest.any (·.tag?.isSome) then .noLoop else outcome.loop)
        else do
          let (more, fate) ← chainText e fillings nesting scope outcome.loop rest
          pure (text ++ more, fate)

/-- The text of siblings and the fate of their last loop. -/
def textAndFate (e : Engine) (fillings : List Filling) (nesting : Nat) (scope : Scope) (p : Progress)
    (ns : List Node) : Rendering (String × LoopFate) :=
  (fun r => (r.1, r.2.loop)) <$> siblings e fillings nesting scope p ns

variable {e : Engine} {fillings : List Filling} {nesting : Nat} {scope : Scope}

theorem textAndFate_cons (p : Progress) (n : Node) (rest : List Node) :
    textAndFate e fillings nesting scope p (n :: rest) = (do
      let (text, q) ← sibling e fillings nesting scope p n
      let (more, fate) ← textAndFate e fillings nesting scope q rest
      pure (text ++ more, fate)) := by
  unfold textAndFate
  rw [siblings]
  simp

/-! ## One sibling -/

theorem isFallback_eq {n : Node} {tag : Tag} (h : n.tag? = some tag) :
    n.isFallback = tag.directives.forelse?.isSome := by
  refine Node.isFallback_eq ?_
  rw [Node.directives?, h]
  rfl

theorem chainPlace_eq {n : Node} {tag : Tag} (h : n.tag? = some tag) :
    n.chainPlace = tag.links.chain := by
  rw [Node.chainPlace, h]
  rfl

theorem tag?_eq_none_of_saysNothing {n : Node} (h : n.saysNothing = true) : n.tag? = none := by
  cases n with
  | text => rfl
  | comment => rfl
  | expression => rfl
  | slot => rfl
  | element => cases h
  | component => cases h

/-- What says nothing is rendered as its own text, and nothing new is known after it. -/
theorem sibling_of_saysNothing (p : Progress) {n : Node} (h : n.saysNothing = true) :
    sibling e fillings nesting scope p n = pure (n.betweenText, p) := by
  cases n with
  | text => rfl
  | comment => rfl
  | expression => cases h
  | slot => cases h
  | element => cases h
  | component => cases h

/-- A tag that is passed over has no text. -/
theorem sibling_of_skips {p : Progress} {n : Node} {tag : Tag} (htag : n.tag? = some tag)
    (h : p.skips tag = true) :
    sibling e fillings nesting scope p n = pure ("", p.afterSkipped tag) := by
  simp only [sibling, htag, h, if_true]

/-- The directives of any other tag are expanded. -/
theorem sibling_of_not_skips {p : Progress} {n : Node} {tag : Tag} (htag : n.tag? = some tag)
    (h : p.skips tag = false) :
    sibling e fillings nesting scope p n = (do
      let (text, outcome) ← taggedText e fillings nesting scope tag.directives n
      pure (text, p.after tag outcome)) := by
  simp only [sibling, htag, h]
  rfl

/-- A member of a chain that goes on has a tag with that place. -/
theorem tag?_of_continues {n : Node} (h : n.Continues) :
    ∃ tag, n.tag? = some tag ∧ (tag.links.chain = some .link ∨ tag.links.chain = some .tail) := by
  cases htag : n.tag? with
  | none =>
    unfold Node.Continues Node.chainPlace at h
    rw [htag] at h
    rcases h with h | h <;> cases h
  | some tag =>
    unfold Node.Continues at h
    rw [chainPlace_eq htag] at h
    exact ⟨tag, rfl, h⟩

/-! ## What the progress says of a member -/

/-- A link or a tail goes on with the chain of the progress. -/
theorem chosenBefore_of_continues {tag : Tag} (p : Progress)
    (h : tag.links.chain = some .link ∨ tag.links.chain = some .tail) :
    p.chosenBefore tag = p.chosen := by
  unfold Progress.chosenBefore
  rcases h with h | h <;> rw [h] <;> rfl

/-- It is passed over when the chain has chosen, or for want of an empty loop. -/
theorem skips_of_continues {tag : Tag} (p : Progress)
    (h : tag.links.chain = some .link ∨ tag.links.chain = some .tail) :
    p.skips tag = (p.chosen || (tag.directives.forelse?.isSome && p.loop != .empty)) := by
  unfold Progress.skips
  rw [chosenBefore_of_continues p h]
  rcases h with h | h <;> simp [h]

/-- A head begins a chain that has not chosen. -/
theorem chosenBefore_of_head {tag : Tag} (p : Progress) (h : tag.links.chain = some .head) :
    p.chosenBefore tag = false := by
  rw [Progress.chosenBefore, if_pos h]

/-- It is passed over for want of an empty loop only. -/
theorem skips_of_head {tag : Tag} (p : Progress) (h : tag.links.chain = some .head) :
    p.skips tag = (tag.directives.forelse?.isSome && p.loop != .empty) := by
  unfold Progress.skips
  simp [h]

/-- A tag outside of chains leaves the chain of the progress as it is. -/
theorem chosenBefore_of_none {tag : Tag} (p : Progress) (h : tag.links.chain = none) :
    p.chosenBefore tag = p.chosen := by
  rw [Progress.chosenBefore, h]
  rfl

/-- It is passed over for want of an empty loop only. -/
theorem skips_of_none {tag : Tag} (p : Progress) (h : tag.links.chain = none) :
    p.skips tag = (tag.directives.forelse?.isSome && p.loop != .empty) := by
  unfold Progress.skips
  simp [h]

/-! ## Members of a chain, one after the other -/

/-- After a member that was chosen nothing is left of a chain but what stands between its members. -/
theorem textAndFate_of_chosen {members : List Node}
    (h : ∀ n ∈ members, n.saysNothing = true ∨ n.Continues) (fate : LoopFate) :
    textAndFate e fillings nesting scope ⟨true, fate⟩ members =
      pure (betweenTexts members, if members.any (·.tag?.isSome) then .noLoop else fate) := by
  induction members generalizing fate with
  | nil => simp [textAndFate, siblings, betweenTexts]
  | cons n rest ih =>
    have hrest : ∀ m ∈ rest, m.saysNothing = true ∨ m.Continues :=
      fun m hm => h m (List.mem_cons_of_mem _ hm)
    rw [textAndFate_cons, betweenTexts, List.any_cons]
    rcases h n List.mem_cons_self with hn | hn
    · rw [sibling_of_saysNothing _ hn, tag?_eq_none_of_saysNothing hn]
      simp [ih hrest]
    · -- a member that goes on is passed over, and with it what was known of a loop
      obtain ⟨tag, htag, hplace⟩ := tag?_of_continues hn
      have hskips : Progress.skips ⟨true, fate⟩ tag = true := by
        rw [skips_of_continues _ hplace, Bool.true_or]
      have hafter : Progress.afterSkipped ⟨true, fate⟩ tag = ⟨true, .noLoop⟩ := by
        rw [Progress.afterSkipped, chosenBefore_of_continues _ hplace]
      have hbetween : n.betweenText = "" := by
        cases n <;> first | rfl | cases htag
      rw [sibling_of_skips htag hskips, hafter, htag, hbetween]
      simp [ih hrest]

/-- A member of a chain that has chosen nothing so far, and what follows it. -/
theorem textAndFate_of_member {p : Progress} {n : Node} {tag : Tag} {rest : List Node}
    (htag : n.tag? = some tag) (hplace : tag.links.chain.isSome = true)
    (hchosen : p.chosenBefore tag = false)
    (hskips : p.skips tag = (n.isFallback && p.loop != .empty))
    (hrest : ∀ m ∈ rest, m.saysNothing = true ∨ m.Continues)
    (ih : ∀ fate, textAndFate e fillings nesting scope ⟨false, fate⟩ rest =
      chainText e fillings nesting scope fate rest) :
    textAndFate e fillings nesting scope p (n :: rest) =
      chainText e fillings nesting scope p.loop (n :: rest) := by
  rw [textAndFate_cons, chainText, htag]
  dsimp only
  split
  · next hfallback =>
    -- a fallback that is not needed is passed over, and the chain stays open
    have hafter : p.afterSkipped tag = ⟨false, .noLoop⟩ := by rw [Progress.afterSkipped, hchosen]
    rw [sibling_of_skips htag (hskips.trans hfallback), hafter]
    simp [ih]
  · next hexpanded =>
    have hafter : ∀ outcome : Outcome, p.after tag outcome = ⟨outcome.chosen, outcome.loop⟩ := by
      intro outcome
      rw [Progress.after, hchosen, hplace, Bool.false_or, Bool.true_and]
    rw [sibling_of_not_skips htag (hskips.trans (Bool.eq_false_iff.2 hexpanded))]
    simp only [bind_assoc, pure_bind, hafter]
    refine bind_congr ?_
    rintro ⟨text, outcome⟩
    -- what comes after depends on whether this member was chosen
    cases outcome.chosen with
    | true => simp [textAndFate_of_chosen hrest]
    | false => simp [ih]

/-- As long as nothing was chosen, the members of a chain are rendered as its text. -/
theorem textAndFate_of_open {members : List Node}
    (h : ∀ n ∈ members, n.saysNothing = true ∨ n.Continues) (fate : LoopFate) :
    textAndFate e fillings nesting scope ⟨false, fate⟩ members =
      chainText e fillings nesting scope fate members := by
  induction members generalizing fate with
  | nil => simp [textAndFate, siblings, chainText]
  | cons n rest ih =>
    have hrest : ∀ m ∈ rest, m.saysNothing = true ∨ m.Continues :=
      fun m hm => h m (List.mem_cons_of_mem _ hm)
    rcases h n List.mem_cons_self with hn | hn
    · rw [textAndFate_cons, chainText, sibling_of_saysNothing _ hn, tag?_eq_none_of_saysNothing hn]
      simp [ih hrest]
    · obtain ⟨tag, htag, hplace⟩ := tag?_of_continues hn
      refine textAndFate_of_member htag ?_ ?_ ?_ hrest (ih hrest)
      · rcases hplace with hplace | hplace <;> rw [hplace] <;> rfl
      · rw [chosenBefore_of_continues _ hplace]
      · rw [skips_of_continues _ hplace, Bool.false_or, isFallback_eq htag]

/-- A chain is rendered as its text, whatever was chosen before it. -/
theorem textAndFate_of_isChain {head : Node} {members : List Node} (h : IsChain head members)
    (p : Progress) :
    textAndFate e fillings nesting scope p (head :: members) =
      chainText e fillings nesting scope p.loop (head :: members) := by
  obtain ⟨tag, htag, hplace⟩ : ∃ tag, head.tag? = some tag ∧ tag.links.chain = some .head :=
    Option.bind_eq_some_iff.1 h.head
  refine textAndFate_of_member htag ?_ ?_ ?_ h.members (textAndFate_of_open h.members)
  · rw [hplace]
    rfl
  · rw [chosenBefore_of_head _ hplace]
  · rw [skips_of_head _ hplace, isFallback_eq htag]

end Render

end Stencil
