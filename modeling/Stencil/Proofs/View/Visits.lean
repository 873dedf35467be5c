import Stencil.Proofs.View.Answers
import Stencil.Proofs.View.ChainTexts
/-
  What became of each sibling.

  Rendering keeps of the siblings before only whether the chain has chosen and what became of the last
  loop.  Here a rendering keeps all of it: a list of visits, one for each sibling, with the outcome of its
  directives if they were expanded.  Forgetting the visits gives the rendering back.

  A visit says what happened where the siblings before had led to.  From this a history of visits tells
  what is known after it without going through it again: a chain that ends it has chosen just when a member
  of it was chosen, and a tag that ends it, blanks and comments aside, leaves the fate of its own loop.
-/

namespace Stencil

/-- A sibling that was rendered, with the outcome of its directives if they were expanded. -/
structure Visit where
  node : Node
  outcome? : Option Outcome

/-- Whether the directives of a sibling were expanded and it was chosen. -/
def Visit.chose (v : Visit) : Bool := v.outcome?.any Outcome.chosen

/-- What became of the loop of a sibling. -/
def Visit.fate (v : Visit) : LoopFate := v.outcome?.elim .noLoop Outcome.loop

/-- What is known after a visit. -/
def Progress.visited (p : Progress) (v : Visit) : Progress :=
  match v.node.tag?, v.outcome? with
  | none, _ => p
  | some tag, none => p.afterSkipped tag
  | some tag, some outcome => p.after tag outcome

/-- What two renderings did that succeed one after the other. -/
theorem Rendering.run_bind_eq_ok {α β : Type} {m : Rendering α} {f : α → Rendering β} {s s' : Store}
    {b : β} (h : (m >>= f).run s = (.ok b, s')) :
    ∃ a mid, m.run s = (.ok a, mid) ∧ (f a).run mid = (.ok b, s') := by
  rw [Rendering.run_bind] at h
  rcases hm : m.run s with ⟨_ | a, mid⟩
  · rw [hm] at h
    cases h
  · rw [hm] at h
    exact ⟨a, mid, rfl, h⟩

namespace Render

open Siblings (IsChain)

variable (e : Engine) (fillings : List Filling) (nesting : Nat) (scope : Scope)

/-- The text of a sibling, and its visit. -/
def visit (p : Progress) (n : Node) : Rendering (String × Visit) :=
  match n.tag? with
  | none => do
    let text ← untaggedText e fillings nesting scope n
    pure (text, ⟨n, none⟩)
  | some tag =>
    if p.skips tag then pure ("", ⟨n, none⟩)
    else do
      let (text, outcome) ← taggedText e fillings nesting scope tag.directives n
      pure (text, ⟨n, some outcome⟩)

/-- The text of siblings, and their visits. -/
def visits (p : Progress) : List Node → Rendering (String × List Visit)
  | [] => pure ("", [])
  | n :: rest => do
    let (text, v) ← visit e fillings nesting scope p n
    let (more, vs) ← visits (p.visited v) rest
    pure (text ++ more, v :: vs)

/-- What happens to a sibling, by what is known before it. -/
inductive Happens (p : Progress) : Visit → Prop where
  | untagged {n : Node} : n.tag? = none → Happens p ⟨n, none⟩
  | passedOver {n : Node} {tag : Tag} : n.tag? = some tag → p.skips tag = true → Happens p ⟨n, none⟩
  | expanded {n : Node} {tag : Tag} {outcome : Outcome} : n.tag? = some tag → p.skips tag = false →
      (Expansion.expand e.evaluator tag.directives scope).outcome = .ok outcome →
      Happens p ⟨n, some outcome⟩

/-- Visits one after the other, each where those before it have led to. -/
inductive History : Progress → List Visit → Prop where
  | nil {p : Progress} : History p []
  | cons {p : Progress} {v : Visit} {vs : List Visit} : Happens e scope p v → History (p.visited v) vs →
      History p (v :: vs)

variable {e fillings nesting scope}

/-! ## Visits and renderings -/

theorem sibling_eq_visit (p : Progress) (n : Node) :
    sibling e fillings nesting scope p n =
      (fun r => (r.1, p.visited r.2)) <$> visit e fillings nesting scope p n := by
  unfold sibling visit
  cases htag : n.tag? with
  | none => simp [Progress.visited, htag]
  | some tag =>
    dsimp only
    split
    · simp [Progress.visited, htag]
    · simp [Progress.visited, htag]

/-- Forgetting the visits gives the rendering back. -/
theorem siblings_eq_visits (p : Progress) (ns : List Node) :
    siblings e fillings nesting scope p ns =
      (fun r => (r.1, r.2.foldl Progress.visited p)) <$> visits e fillings nesting scope p ns := by
  induction ns generalizing p with
  | nil => simp [siblings, visits]
  | cons n rest ih =>
    rw [siblings, visits]
    simp [sibling_eq_visit, ih]

/-- Siblings are visited, and the others rendered with what is known then. -/
theorem nodes_append_visits (p : Progress) (front rest : List Node) :
    nodes e fillings nesting scope p (front ++ rest) = (do
      let (first, vs) ← visits e fillings nesting scope p front
      let more ← nodes e fillings nesting scope (vs.foldl Progress.visited p) rest
      pure (first ++ more)) := by
  rw [nodes_eq, siblings_append, siblings_eq_visits]
  simp [nodes_eq]

/-! ## What a run has visited -/

theorem outcome_of_run {d : Directives} {n : Node} {s s' : Store} {text : String} {outcome : Outcome}
    (h : (taggedText e fillings nesting scope d n).run s = (.ok (text, outcome), s')) :
    (Expansion.expand e.evaluator d scope).outcome = .ok outcome := by
  obtain ⟨_, _, -, hrest⟩ := Rendering.run_bind_eq_ok h
  obtain ⟨_, _, houtcome, hpure⟩ := Rendering.run_bind_eq_ok hrest
  cases hpure
  cases hexpanded : (Expansion.expand e.evaluator d scope).outcome with
  | ok _ =>
    rw [hexpanded] at houtcome
    cases houtcome
    rfl
  | error _ =>
    rw [hexpanded] at houtcome
    cases houtcome

theorem happens_of_run {p : Progress} {n : Node} {s s' : Store} {text : String} {v : Visit}
    (h : (visit e fillings nesting scope p n).run s = (.ok (text, v), s')) :
    v.node = n ∧ Happens e scope p v := by
  unfold visit at h
  cases htag : n.tag? with
  | none =>
    simp only [htag] at h
    obtain ⟨_, _, -, hpure⟩ := Rendering.run_bind_eq_ok h
    cases hpure
    exact ⟨rfl, .untagged htag⟩
  | some tag =>
    simp only [htag] at h
    split at h
    · next hskips =>
      cases h
      exact ⟨rfl, .passedOver htag hskips⟩
    · next hskips =>
      obtain ⟨⟨_, outcome⟩, _, htagged, hpure⟩ := Rendering.run_bind_eq_ok h
      cases hpure
      exact ⟨rfl, .expanded htag (Bool.eq_false_iff.2 hskips) (outcome_of_run htagged)⟩

/-- A rendering that succeeds has a history. -/
theorem history_of_run {p : Progress} {ns : List Node} {s s' : Store} {text : String}
    {vs : List Visit} (h : (visits e fillings nesting scope p ns).run s = (.ok (text, vs), s')) :
    vs.map Visit.node = ns ∧ History e scope p vs := by
  induction ns generalizing p s text vs with
  | nil =>
    cases h
    exact ⟨rfl, .nil⟩
  | cons n rest ih =>
    rw [visits] at h
    obtain ⟨⟨_, v⟩, _, hvisit, hrest⟩ := Rendering.run_bind_eq_ok h
    obtain ⟨⟨_, more⟩, _, hmore, hpure⟩ := Rendering.run_bind_eq_ok hrest
    cases hpure
    obtain ⟨hnode, hhappens⟩ := happens_of_run hvisit
    obtain ⟨hnodes, hhistory⟩ := ih hmore
    exact ⟨by rw [List.map_cons, hnode, hnodes], .cons hhappens hhistory⟩

theorem history_append {p : Progress} {vs ws : List Visit} :
    History e scope p (vs ++ ws) ↔
      History e scope p vs ∧ History e scope (vs.foldl Progress.visited p) ws := by
  induction vs generalizing p with
  | nil => exact ⟨fun h => ⟨.nil, h⟩, fun h => h.2⟩
  | cons v vs ih =>
    constructor
    · rintro (_ | ⟨hv, hrest⟩)
      exact ⟨.cons hv (ih.1 hrest).1, (ih.1 hrest).2⟩
    · rintro ⟨_ | ⟨hv, hvs⟩, hws⟩
      exact .cons hv (ih.2 ⟨hvs, hws⟩)

theorem history_cons {p : Progress} {v : Visit} {vs : List Visit} :
    History e scope p (v :: vs) ↔ Happens e scope p v ∧ History e scope (p.visited v) vs :=
  ⟨fun h => by cases h with | cons hv hvs => exact ⟨hv, hvs⟩, fun h => .cons h.1 h.2⟩

/-! ## What is known after a chain -/

variable {p : Progress} {v : Visit}

theorem visited_of_tag?_eq_none (htag : v.node.tag? = none) : p.visited v = p := by
  unfold Progress.visited
  rw [htag]

/-- A member of a chain adds to what was chosen before it. -/
theorem chosen_visited_of_member (h : Happens e scope p v)
    (hmember : v.node.saysNothing = true ∨ v.node.Continues) :
    (p.visited v).chosen = (p.chosen || v.chose) := by
  rcases hmember with hnothing | hcontinues
  · have htag := tag?_eq_none_of_saysNothing hnothing
    rw [visited_of_tag?_eq_none htag]
    cases h with
    | untagged => simp [Visit.chose]
    | passedOver => simp [Visit.chose]
    | expanded htag' => simp [htag] at htag'
  · obtain ⟨tag, htag, hplace⟩ := tag?_of_continues hcontinues
    cases h with
    | untagged htag' => simp [htag] at htag'
    | passedOver htag' =>
      simp [Progress.visited, Visit.chose, htag, Progress.afterSkipped, chosenBefore_of_continues _ hplace]
    | expanded htag' =>
      rcases hplace with hplace | hplace <;>
        simp [Progress.visited, Visit.chose, htag, Progress.after, Progress.chosenBefore, hplace]

/-- A head forgets what was chosen before it. -/
theorem chosen_visited_of_head (h : Happens e scope p v) (hhead : v.node.chainPlace = some .head) :
    (p.visited v).chosen = v.chose := by
  obtain ⟨tag, htag, hplace⟩ := Option.bind_eq_some_iff.1 hhead
  cases h with
  | untagged htag' => simp [htag] at htag'
  | passedOver =>
    simp [Progress.visited, Visit.chose, htag, Progress.afterSkipped, chosenBefore_of_head _ hplace]
  | expanded =>
    simp [Progress.visited, Visit.chose, htag, Progress.after, chosenBefore_of_head _ hplace, hplace]

theorem chosen_visited_of_members {members : List Visit} (h : History e scope p members)
    (hmembers : ∀ v ∈ members, v.node.saysNothing = true ∨ v.node.Continues) :
    (members.foldl Progress.visited p).chosen = (p.chosen || members.any Visit.chose) := by
  induction members generalizing p with
  | nil => simp
  | cons v members ih =>
    obtain ⟨hv, hrest⟩ := history_cons.1 h
    rw [List.foldl_cons, ih hrest fun w hw => hmembers w (List.mem_cons_of_mem _ hw),
      chosen_visited_of_member hv (hmembers v List.mem_cons_self), List.any_cons, Bool.or_assoc]

/-- The chain that some visits end in has chosen. -/
def ChainChose (vs : List Visit) : Prop :=
  ∃ outside head members, vs = outside ++ head :: members ∧
    IsChain head.node (members.map Visit.node) ∧ ∃ v ∈ head :: members, v.chose = true

/-- After visits that end in a chain it is known whether that chain has chosen. -/
theorem chosen_iff_chainChose {vs outside members : List Visit} {head : Visit}
    (h : History e scope p vs) (hvs : vs = outside ++ head :: members)
    (hchain : IsChain head.node (members.map Visit.node)) :
    (vs.foldl Progress.visited p).chosen = true ↔ ChainChose vs := by
  -- any way to see a chain at the end tells the same
  have hany : ∀ outside head members, vs = outside ++ head :: members →
      IsChain head.node (members.map Visit.node) →
      (vs.foldl Progress.visited p).chosen = (head :: members).any Visit.chose := by
    rintro outside head members rfl hchain
    obtain ⟨-, hends⟩ := history_append.1 h
    obtain ⟨hhead, hmembers⟩ := history_cons.1 hends
    rw [List.foldl_append, List.foldl_cons, chosen_visited_of_members hmembers, List.any_cons,
      chosen_visited_of_head hhead hchain.head]
    exact fun v hv => hchain.members v.node (List.mem_map_of_mem hv)
  constructor
  · intro hchosen
    rw [hany outside head members hvs hchain, List.any_eq_true] at hchosen
    exact ⟨outside, head, members, hvs, hchain, hchosen⟩
  · rintro ⟨outside, head, members, hvs, hchain, hchose⟩
    rw [hany outside head members hvs hchain, List.any_eq_true]
    exact hchose

/-! ## What is known after a tag -/

/-- A tag leaves the fate of its own loop. -/
theorem loop_visited {tag : Tag} (htag : v.node.tag? = some tag) : (p.visited v).loop = v.fate := by
  unfold Progress.visited Visit.fate
  rw [htag]
  cases v.outcome? <;> rfl

/-- Blanks and comments change nothing. -/
theorem foldl_visited_of_saysNothing {vs : List Visit} (h : ∀ v ∈ vs, v.node.saysNothing = true) :
    vs.foldl Progress.visited p = p := by
  induction vs with
  | nil => rfl
  | cons v vs ih =>
    rw [List.foldl_cons, visited_of_tag?_eq_none (tag?_eq_none_of_saysNothing (h v List.mem_cons_self))]
    exact ih fun w hw => h w (List.mem_cons_of_mem _ hw)

/-- When a tag is passed over. -/
theorem skips_iff {n : Node} {tag : Tag} (htag : n.tag? = some tag) :
    p.skips tag = true ↔
      (n.Continues ∧ p.chosen = true) ∨ (n.isFallback = true ∧ p.loop ≠ .empty) := by
  unfold Node.Continues
  rw [chainPlace_eq htag, isFallback_eq htag]
  unfold Progress.skips Progress.chosenBefore
  cases tag.links.chain with
  | none => simp
  | some place => cases place <;> simp

end Render

end Stencil
