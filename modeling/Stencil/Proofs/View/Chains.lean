import Stencil.Proofs.Expression.VariableNames
import Stencil.Proofs.Template.Shape
import Stencil.Proofs.View.OneStore
import Stencil.Proofs.View.ChainTexts
/-
  Chains of conditions fire at most once.

  What was chosen in a chain does not count behind it, for no member goes on there.  Without loops the text
  of a chain is the body of the first member whose condition holds.

  The main statement is that in every list of a compiled template a chain is rendered as its text, between
  what stands before it and what stands after it.
-/

namespace Stencil

/-- The condition of a node, if it has one. -/
def Node.condition? (n : Node) : Option Condition := n.directives?.bind Directives.condition

namespace Render

open Siblings (IsChain NoneContinues PlacedAfter Follows next?)

variable {e : Engine} {fillings : List Filling} {nesting : Nat} {scope : Scope}

/-! ## What stands after a chain -/

theorem mem_of_mem_next? {ns : List Node} {m : Node} (h : m ∈ next? ns) : m ∈ ns :=
  (List.mem_filter.1 (List.mem_of_mem_head? h)).1

/-- The next node that says something may stand where the scan has come to. -/
theorem follows_of_mem_next? {p : Option Node} {ns : List Node} (h : PlacedAfter p ns) {m : Node}
    (hm : m ∈ next? ns) : Follows p m := by
  obtain ⟨after, hafter⟩ := List.head?_eq_some_iff.1 hm
  exact Siblings.placedAfter_iff.1 h [] m after hafter

/-- Behind a node that leaves no chain open none goes on. -/
theorem noneContinues_of_placedAfter {n : Node} {ns : List Node} (h : PlacedAfter (some n) ns)
    (htold : ∀ m ∈ ns, m.chainPlace = m.place) (hopen : n.opensChain = false) :
    NoneContinues ns := by
  intro m hm hcontinues
  unfold Node.Continues at hcontinues
  rw [htold m (mem_of_mem_next? hm)] at hcontinues
  obtain ⟨p, hp, hp'⟩ := (follows_of_mem_next? h hm).chain ((Node.joinsChain_iff m).2 hcontinues)
  obtain rfl := Option.some.inj hp
  rw [hopen] at hp'
  cases hp'

/-- Where no chain goes on, it does not count what was chosen before. -/
theorem nodes_chosen_irrelevant {ns : List Node} {q : Option Node} (hplaced : PlacedAfter q ns)
    (htold : ∀ n ∈ ns, n.chainPlace = n.place) (hnone : NoneContinues ns) (c c' : Bool)
    (fate : LoopFate) :
    nodes e fillings nesting scope ⟨c, fate⟩ ns = nodes e fillings nesting scope ⟨c', fate⟩ ns := by
  -- along the siblings, until a head forgets what was chosen; between, nothing asks for it
  induction ns generalizing q c c' fate with
  | nil => simp [nodes]
  | cons n rest ih =>
    have htold' : ∀ m ∈ rest, m.chainPlace = m.place := fun m hm => htold m (List.mem_cons_of_mem _ hm)
    have hplace := htold n List.mem_cons_self
    rw [PlacedAfter] at hplaced
    rw [nodes_cons, nodes_cons]
    cases hn : n.saysNothing with
    | true =>
      rw [if_pos hn] at hplaced
      have hrest : NoneContinues rest := by
        intro m hm
        rw [next?, ← Siblings.significant_cons_of_saysNothing hn] at hm
        exact hnone m hm
      simp only [sibling_of_saysNothing _ hn, pure_bind]
      rw [ih hplaced htold' hrest c c']
    | false =>
      rw [if_neg (by simp [hn])] at hplaced
      have hrest (hopen : n.opensChain = false) : NoneContinues rest :=
        noneContinues_of_placedAfter hplaced.2 htold' hopen
      cases htag : n.tag? with
      | none =>
        have hopen : n.opensChain = false := by rw [Node.opensChain, Node.directives?, htag]; rfl
        simp only [sibling, htag, bind_assoc, pure_bind]
        rw [ih hplaced.2 htold' (hrest hopen) c c']
      | some tag =>
        have hself : ¬ n.Continues := hnone n (by rw [next?, Siblings.significant_cons hn]; rfl)
        have hchain : n.chainPlace = tag.links.chain := chainPlace_eq htag
        simp only [sibling, htag]
        cases hlinks : tag.links.chain with
        | none =>
          -- the tag is in no chain, and hands on what it was told
          have hopen : n.opensChain = false := by
            refine Bool.eq_false_iff.2 fun hopen => ?_
            have := (Node.opensChain_iff n).1 hopen
            rw [← hplace, hchain, hlinks] at this
            simp at this
          have hih := fun fate => ih hplaced.2 htold' (hrest hopen) c c' fate
          simp only [skips_of_none _ hlinks, Progress.afterSkipped, Progress.after,
            chosenBefore_of_none _ hlinks, hlinks, Option.isSome_none, Bool.false_and, Bool.or_false]
          split
          · simp [hih]
          · simp [hih]
        | some place =>
          -- the tag can only begin a chain, for which nothing counts that was chosen before
          have hhead : tag.links.chain = some .head := by
            cases place with
            | head => exact hlinks
            | link => exact absurd (.inl (hchain.trans hlinks)) hself
            | tail => exact absurd (.inr (hchain.trans hlinks)) hself
          simp only [skips_of_head _ hhead, Progress.afterSkipped, Progress.after,
            chosenBefore_of_head _ hhead]

/-! ## Chains without loops -/

/-- The condition of a node holds in a scope. -/
def Holds (e : Engine) (scope : Scope) (n : Node) : Prop :=
  ∃ c ∈ n.condition?, Expansion.holds e.evaluator c scope = .ok true

/-- All conditions of these nodes fail in a scope. -/
def AllFail (e : Engine) (scope : Scope) (ns : List Node) : Prop :=
  ∀ n ∈ ns, ∀ c ∈ n.condition?, Expansion.holds e.evaluator c scope = .ok false

/-- The nodes of a chain without loops: each says nothing, or has a condition and no loop. -/
def WithoutLoops (ns : List Node) : Prop :=
  ∀ n ∈ ns, n.saysNothing = true ∨ (n.condition?.isSome = true ∧ n.isLoop = false ∧ n.isFallback = false)

/-- Without a loop a tag is rendered once if its condition holds, and not at all otherwise. -/
theorem taggedText_of_condition {n : Node} {tag : Tag} {c : Condition} (htag : n.tag? = some tag)
    (hc : n.condition? = some c) (hloop : n.isLoop = false) :
    taggedText e fillings nesting scope tag.directives n = (do
      let held ← evaluated (Expansion.holds e.evaluator c scope)
      if held then do
        let text ← once e fillings nesting scope n
        pure (text, ⟨true, .noLoop⟩)
      else pure ("", ⟨false, .noLoop⟩)) := by
  have hdirectives : n.directives? = some tag.directives := by rw [Node.directives?, htag]; rfl
  have hcondition : tag.directives.condition = some c := by
    rwa [Node.condition?, hdirectives] at hc
  have hforeach : tag.directives.foreach? = none := by
    rw [Node.isLoop, hdirectives] at hloop
    simpa using hloop
  unfold taggedText Expansion.expand
  simp only [hcondition, hforeach]
  cases Expansion.holds e.evaluator c scope with
  | error err => simp [evaluated]
  | ok held => cases held <;> simp [evaluated, String.join]

/-- The text of a chain that begins with what says nothing. -/
theorem fst_chainText_of_saysNothing {n : Node} (hn : n.saysNothing = true) (fate : LoopFate)
    (rest : List Node) :
    Prod.fst <$> chainText e fillings nesting scope fate (n :: rest) = (do
      let more ← Prod.fst <$> chainText e fillings nesting scope fate rest
      pure (n.betweenText ++ more)) := by
  rw [chainText, tag?_eq_none_of_saysNothing hn]
  simp

/-- The text of a chain that begins with a member without loops. -/
theorem fst_chainText_of_condition {n : Node} {c : Condition} (hc : n.condition? = some c)
    (hloop : n.isLoop = false) (hfallback : n.isFallback = false) (fate : LoopFate)
    (rest : List Node) :
    Prod.fst <$> chainText e fillings nesting scope fate (n :: rest) = (do
      let held ← evaluated (Expansion.holds e.evaluator c scope)
      if held then do
        let text ← once e fillings nesting scope n
        pure (text ++ betweenTexts rest)
      else Prod.fst <$> chainText e fillings nesting scope .noLoop rest) := by
  obtain ⟨tag, htag⟩ : ∃ tag, n.tag? = some tag := by
    obtain ⟨d, hd, -⟩ := Option.bind_eq_some_iff.1 hc
    obtain ⟨tag, htag, -⟩ := Option.map_eq_some_iff.1 hd
    exact ⟨tag, htag⟩
  rw [chainText, htag]
  simp only [hfallback, Bool.false_and, Bool.false_eq_true, if_false,
    taggedText_of_condition htag hc hloop]
  cases Expansion.holds e.evaluator c scope with
  | error err => simp [evaluated]
  | ok held => cases held <;> simp [evaluated]

/-- Without loops the text of a chain does not depend on a loop before it. -/
theorem fst_chainText_eq {ns : List Node} (h : WithoutLoops ns) (fate fate' : LoopFate) :
    Prod.fst <$> chainText e fillings nesting scope fate ns =
      Prod.fst <$> chainText e fillings nesting scope fate' ns := by
  induction ns with
  | nil => simp [chainText]
  | cons n rest ih =>
    rcases h n List.mem_cons_self with hn | ⟨hsome, hloop, hfallback⟩
    · rw [fst_chainText_of_saysNothing hn, fst_chainText_of_saysNothing hn,
        ih fun m hm => h m (List.mem_cons_of_mem _ hm)]
    · obtain ⟨c, hc⟩ := Option.isSome_iff_exists.1 hsome
      rw [fst_chainText_of_condition hc hloop hfallback, fst_chainText_of_condition hc hloop hfallback]

/-- Members whose conditions fail leave only what stands between them. -/
theorem fst_chainText_append {front rest : List Node} (h : WithoutLoops (front ++ rest))
    (hfail : AllFail e scope front) (fate : LoopFate) :
    Prod.fst <$> chainText e fillings nesting scope fate (front ++ rest) = (do
      let more ← Prod.fst <$> chainText e fillings nesting scope fate rest
      pure (betweenTexts front ++ more)) := by
  induction front generalizing fate with
  | nil => simp [betweenTexts]
  | cons n front ih =>
    have h' : WithoutLoops (front ++ rest) := fun m hm => h m (List.mem_cons_of_mem _ hm)
    have hfail' : AllFail e scope front := fun m hm => hfail m (List.mem_cons_of_mem _ hm)
    rw [List.cons_append, betweenTexts]
    rcases h n List.mem_cons_self with hn | ⟨hsome, hloop, hfallback⟩
    · rw [fst_chainText_of_saysNothing hn, ih h' hfail']
      simp [String.append_assoc]
    · obtain ⟨c, hc⟩ := Option.isSome_iff_exists.1 hsome
      have hbetween : n.betweenText = "" := by
        cases n <;> first | rfl | cases hc
      rw [fst_chainText_of_condition hc hloop hfallback, hfail n List.mem_cons_self c hc, ih h' hfail',
        fst_chainText_eq (fun m hm => h' m (List.mem_append_right _ hm)) .noLoop fate, hbetween]
      simp [evaluated]

/-- A chain gives the body of its first member whose condition holds, and nothing if there is none; an error
    of a condition before that is the error of the chain; and with an `:else` some member holds. -/
structure FiresFirst (e : Engine) (fillings : List Filling) (nesting : Nat) (scope : Scope)
    (chain : List Node) : Prop where
  first : ∀ front n later, chain = front ++ n :: later → AllFail e scope front → Holds e scope n →
    ∀ fate, Prod.fst <$> chainText e fillings nesting scope fate chain = (do
      let text ← once e fillings nesting scope n
      pure (betweenTexts front ++ text ++ betweenTexts later))
  none : AllFail e scope chain →
    ∀ fate, Prod.fst <$> chainText e fillings nesting scope fate chain = pure (betweenTexts chain)
  raises : ∀ front n later c err, chain = front ++ n :: later → AllFail e scope front →
    n.condition? = some c → Expansion.holds e.evaluator c scope = .error err →
    ∀ fate, Prod.fst <$> chainText e fillings nesting scope fate chain = throw (.expression err)
  otherwise : (∃ n ∈ chain, n.chainPlace = some .tail) →
    (∀ n ∈ chain, ∀ c ∈ n.condition?, ∃ held, Expansion.holds e.evaluator c scope = .ok held) →
    ∃ front n later, chain = front ++ n :: later ∧ AllFail e scope front ∧ Holds e scope n

/-- An `:else` holds in every scope. -/
theorem holds_of_place_eq_tail {n : Node} (h : n.place = some .tail) : Holds e scope n := by
  obtain ⟨d, hd, hplace⟩ := Option.bind_eq_some_iff.1 h
  unfold Directives.place Directives.conditionKind? at hplace
  cases hc : d.condition with
  | none => rw [hc] at hplace; cases hplace
  | some c =>
    refine ⟨c, by rw [Node.condition?, hd, Option.bind_some, hc]; rfl, ?_⟩
    rw [hc] at hplace
    cases htest : c.test with
    | ifTrue => rw [Option.map_some, htest] at hplace; cases hplace
    | elseIf => rw [Option.map_some, htest] at hplace; cases hplace
    | otherwise => rw [Expansion.holds, htest]; rfl

/-- Where no condition raises, the members before the first that holds all fail. -/
theorem exists_first_holding {chain : List Node} (hex : ∃ n ∈ chain, Holds e scope n)
    (hok : ∀ n ∈ chain, ∀ c ∈ n.condition?, ∃ held,
      Expansion.holds e.evaluator c scope = .ok held) :
    ∃ front n later, chain = front ++ n :: later ∧ AllFail e scope front ∧ Holds e scope n := by
  induction chain with
  | nil => obtain ⟨n, hn, -⟩ := hex; cases hn
  | cons m rest ih =>
    by_cases hm : Holds e scope m
    · exact ⟨[], m, rest, rfl, fun n hn => absurd hn List.not_mem_nil, hm⟩
    · obtain ⟨n, hn, hholds⟩ := hex
      have hrest : n ∈ rest := by
        rcases List.mem_cons.1 hn with rfl | hn
        · exact absurd hholds hm
        · exact hn
      obtain ⟨front, k, later, rfl, hfail, hk⟩ :=
        ih ⟨n, hrest, hholds⟩ fun k hk => hok k (List.mem_cons_of_mem _ hk)
      refine ⟨m :: front, k, later, rfl, ?_, hk⟩
      intro j hj c hc
      rcases List.mem_cons.1 hj with rfl | hj
      · obtain ⟨held, hheld⟩ := hok j List.mem_cons_self c hc
        cases held with
        | false => exact hheld
        | true => exact absurd ⟨c, hc, hheld⟩ hm
      · exact hfail j hj c hc

/-- A chain without loops fires its first member that holds. -/
theorem firesFirst_of_withoutLoops {chain : List Node} (h : WithoutLoops chain)
    (htold : ∀ n ∈ chain, n.chainPlace = n.place) : FiresFirst e fillings nesting scope chain := by
  -- a member in the middle is not silent, since it has a condition
  have hmember : ∀ {front n later c}, chain = front ++ n :: later → n.condition? = some c →
      n.isLoop = false ∧ n.isFallback = false := by
    rintro front n later c rfl hc
    rcases h n (List.mem_append_right _ List.mem_cons_self) with hn | ⟨-, hloops⟩
    · have htag := tag?_eq_none_of_saysNothing hn
      rw [Node.condition?, Node.directives?, htag] at hc
      cases hc
    · exact hloops
  constructor
  · rintro front n later hchain hfail ⟨c, hc, hholds⟩ fate
    obtain ⟨hloop, hfallback⟩ := hmember hchain hc
    rw [hchain] at h ⊢
    rw [fst_chainText_append h hfail, fst_chainText_of_condition hc hloop hfallback, hholds]
    simp [evaluated, String.append_assoc]
  · intro hfail fate
    have happend : Prod.fst <$> chainText e fillings nesting scope fate (chain ++ []) = _ :=
      fst_chainText_append (by rwa [List.append_nil]) hfail fate
    simpa [chainText] using happend
  · intro front n later c err hchain hfail hc herr fate
    obtain ⟨hloop, hfallback⟩ := hmember hchain hc
    rw [hchain] at h ⊢
    rw [fst_chainText_append h hfail, fst_chainText_of_condition hc hloop hfallback, herr]
    simp [evaluated]
  · rintro ⟨n, hn, hplace⟩ hok
    exact exists_first_holding ⟨n, hn, holds_of_place_eq_tail (htold n hn ▸ hplace)⟩ hok

/-! ## Chains in a compiled template -/

/-- A chain that begins with no fallback does not depend on a loop before it. -/
theorem chainText_of_not_fallback {head : Node} {members : List Node}
    (hhead : head.chainPlace = some .head) (h : head.isFallback = false) (fate : LoopFate) :
    chainText e fillings nesting scope fate (head :: members) =
      chainText e fillings nesting scope .noLoop (head :: members) := by
  obtain ⟨tag, htag, -⟩ := Option.bind_eq_some_iff.1 hhead
  rw [chainText, chainText, htag]
  simp [h]

theorem steady_siblings (p : Progress) (ns : List Node) :
    Steady e (siblings e fillings nesting scope p ns) := by
  induction ns generalizing p with
  | nil => exact .pure _
  | cons n rest ih =>
    refine (steady_sibling e fillings nesting scope p n).bind ?_
    rintro ⟨_, q⟩
    exact (ih q).bind fun _ => .pure _

/-- The members of a chain have conditions. -/
theorem condition?_of_place_eq_some {n : Node} {place : ChainPlace} (h : n.place = some place) :
    n.condition?.isSome = true := by
  obtain ⟨d, hd, hplace⟩ := Option.bind_eq_some_iff.1 h
  unfold Directives.place Directives.conditionKind? at hplace
  rw [Node.condition?, hd, Option.bind_some]
  cases hc : d.condition with
  | none => rw [hc] at hplace; cases hplace
  | some c => rfl

theorem placedAfter_of_append {p : Option Node} {ms ns : List Node} (h : PlacedAfter p (ms ++ ns)) :
    ∃ q, PlacedAfter q ns := by
  induction ms generalizing p with
  | nil => exact ⟨p, h⟩
  | cons m ms ih =>
    rw [List.cons_append, PlacedAfter] at h
    split at h
    · exact ih h
    · exact ih h.2

/-- A chain between siblings of a list that obeys the rule of neighbours is rendered as its text. -/
theorem nodes_append_chain {before members after : List Node} {head : Node}
    (hplaced : PlacedAfter none (before ++ (head :: members) ++ after))
    (htold : ∀ n ∈ before ++ (head :: members) ++ after, n.chainPlace = n.place)
    (hchain : IsChain head members) (hafter : NoneContinues after) (p : Progress) :
    nodes e fillings nesting scope p (before ++ (head :: members) ++ after) = (do
      let (first, q) ← siblings e fillings nesting scope p before
      let (text, fate) ← chainText e fillings nesting scope q.loop (head :: members)
      let last ← nodes e fillings nesting scope ⟨false, fate⟩ after
      pure (first ++ text ++ last)) := by
  obtain ⟨q, hplacedAfter⟩ := placedAfter_of_append hplaced
  have hrest : ∀ r : Progress, nodes e fillings nesting scope ⟨false, r.loop⟩ after =
      Prod.fst <$> siblings e fillings nesting scope r after := by
    intro r
    rw [← nodes_eq]
    exact nodes_chosen_irrelevant hplacedAfter
      (fun n hn => htold n (List.mem_append_right _ hn)) hafter false r.chosen r.loop
  rw [nodes_eq, siblings_append, siblings_append]
  simp only [← textAndFate_of_isChain hchain, textAndFate, bind_assoc, map_bind, bind_map_left,
    pure_bind, map_pure]
  refine bind_congr fun a => bind_congr fun b => ?_
  rw [hrest b.2]
  simp

end Render

/-- In a compiled template a chain fires at most one member.  It is rendered as its text, between the
    siblings before and after it, and all three answers may be taken at one store, so the chain depends on
    its neighbours only by the fate of a loop before it; unless it begins with a fallback not even by that;
    and without loops it gives the body of its first member whose condition holds. -/
theorem Template.chain_fires_first {o : Dialect} {source : String} {t : Template}
    (hcompile : Template.compile o source = .ok t) {before members after : List Node} {head : Node}
    (hlist : before ++ (head :: members) ++ after ∈ t.siblingLists)
    (hchain : Siblings.IsChain head members) (hafter : Siblings.NoneContinues after) (e : Engine)
    (fillings : List Filling) (nesting : Nat) (scope : Scope) (s : Store) :
    (Render.nodes e fillings nesting scope {} (before ++ (head :: members) ++ after)).answer s = (do
      let (first, p) ← (Render.siblings e fillings nesting scope {} before).answer s
      let (text, fate) ←
        (Render.chainText e fillings nesting scope p.loop (head :: members)).answer s
      let last ← (Render.nodes e fillings nesting scope ⟨false, fate⟩ after).answer s
      .ok (first ++ text ++ last)) ∧
    (head.isFallback = false → ∀ fate,
      Render.chainText e fillings nesting scope fate (head :: members) =
        Render.chainText e fillings nesting scope .noLoop (head :: members)) ∧
    ((∀ n ∈ head :: members, n.isLoop = false ∧ n.isFallback = false) →
      Render.FiresFirst e fillings nesting scope (head :: members)) := by
  obtain ⟨hplaced, htold⟩ := Template.placed_of_compile hcompile _ hlist
  have htoldChain : ∀ n ∈ head :: members, n.chainPlace = n.place := fun n hn =>
    htold n (List.mem_append_left _ (List.mem_append_right _ hn))
  refine ⟨?_, Render.chainText_of_not_fallback hchain.head, fun hloops => ?_⟩
  · rw [Render.nodes_append_chain hplaced htold hchain hafter]
    have hsteady : ∀ p : Progress, Steady e
        (Render.chainText e fillings nesting scope p.loop (head :: members)) := by
      intro p
      rw [← Render.textAndFate_of_isChain hchain]
      exact (Render.steady_siblings p _).map _
    have hlast : ∀ fate : LoopFate,
        Steady e (Render.nodes e fillings nesting scope ⟨false, fate⟩ after) :=
      fun fate => Render.steady_nodes e fillings nesting scope ⟨false, fate⟩ after
    -- Each of the three is steady, so each may be answered at the first store.
    rw [(Render.steady_siblings {} before).answer_bind fun first => (hsteady first.2).bind fun chain =>
      (hlast chain.2).bind fun _ => .pure _]
    refine congrArg _ (funext fun first => ?_)
    rw [(hsteady first.2).answer_bind fun chain => (hlast chain.2).bind fun _ => .pure _]
    refine congrArg _ (funext fun chain => ?_)
    rw [(hlast chain.2).answer_bind fun _ => .pure _]
    rfl
  · refine Render.firesFirst_of_withoutLoops (fun n hn => ?_) htoldChain
    rcases List.mem_cons.1 hn with rfl | hmem
    · exact .inr ⟨Render.condition?_of_place_eq_some (htoldChain n hn ▸ hchain.head), hloops n hn⟩
    · rcases hchain.members n hmem with hsilent | hcontinues
      · exact .inl hsilent
      · refine .inr ⟨?_, hloops n hn⟩
        rcases hcontinues with hplace | hplace <;>
          exact Render.condition?_of_place_eq_some (htoldChain n hn ▸ hplace)

/-! ### A chain of two members -/

namespace Choice

open Render

def markup : String := "<a :if=$b></a> <c :else></c>d"

def head : Tag :=
  ⟨"a", [], { condition := some ⟨.ifTrue "$b", 0, ⟨3, 9⟩⟩ }, ⟨1, 2⟩, { chain := some .head }⟩

def tail : Tag :=
  ⟨"c", [], { condition := some ⟨.otherwise, 0, ⟨18, 23⟩⟩ }, ⟨16, 17⟩, { chain := some .tail }⟩

/-- Two tags without children, and the text behind them, if a template is these. -/
def parts? (t : Template) : Option (Tag × Tag × String) :=
  match t.children with
  | [.element first false [] _, .element second false [] _, .text after _] => some (first, second, after)
  | _ => none

/-- The markup, compiled. -/
theorem exists_compiled : ∃ t s s' s'', Template.compile {} markup = .ok t ∧
    t.children = [.element head false [] s, .element tail false [] s', .text "d" s''] := by
  have hshape : (Template.compile {} markup).toOption.bind parts? = some (head, tail, "d") := by
    decide +kernel
  obtain ⟨t, hcompile, hparts⟩ := Option.bind_eq_some_iff.1 hshape
  rw [parts?] at hparts
  split at hparts
  · next hchildren =>
    cases hparts
    exact ⟨t, _, _, _, toOption_eq_some_iff.1 hcompile, hchildren⟩
  · cases hparts

def engine : Engine := { loader := .memory [] }

/-- The scope in which the condition of the head is bound. -/
def scope (b : Bool) : Scope := Scope.root [("b", .bool b)]

/-- The condition of the head gives what is bound. -/
theorem holds_head (b : Bool) :
    Expansion.holds engine.evaluator ⟨.ifTrue "$b", 0, ⟨3, 9⟩⟩ (scope b) = .ok b := by
  have hparse : Expr.parse "$b" = .ok (.variable "b") := by cbv
  have hvalue : engine.evaluator "$b" (scope b) = .ok (.bool b) := Functions.evaluator_of_parse hparse _
  rw [Expansion.holds, Test.expression?]
  dsimp only
  rw [hvalue]
  rfl

theorem holds_first (s : Span) : Holds engine (scope true) (.element head false [] s) :=
  ⟨_, rfl, holds_head true⟩

theorem allFail_first (s : Span) : AllFail engine (scope false) [.element head false [] s] := by
  refine List.forall_mem_singleton.2 fun c hc => ?_
  obtain rfl := Option.some.inj hc
  exact holds_head false

theorem holds_second (b : Bool) (s : Span) : Holds engine (scope b) (.element tail false [] s) :=
  holds_of_place_eq_tail rfl

/-- An element without attributes and children is its tags. -/
theorem answer_once_tags {tag : Tag} (hattributes : tag.attributes = [])
    (hvoid : Element.isVoid tag.name = false) (b : Bool) (s : Span) :
    (once engine [] 0 (scope b) (.element tag false [] s)).answer {} =
      .ok ("<" ++ tag.name ++ "></" ++ tag.name ++ ">") := by
  have hdepth : 0 < engine.options.maxDepth := by decide
  rw [answer_once_element, if_pos hdepth, openingText, hattributes, attributesText, hvoid, answer_nodes_nil]
  simp [Except.map, Except.mapError, bind, Except.bind, String.append_assoc]

/-- The text of the chain is that of the member that fires. -/
theorem exists_answer_chainText {b : Bool} {s s' : Span}
    (hfires : FiresFirst engine [] 0 (scope b) [.element head false [] s, .element tail false [] s'])
    (fate : LoopFate) :
    ∃ fate', (chainText engine [] 0 (scope b) fate
        [.element head false [] s, .element tail false [] s']).answer {} =
      .ok (if b then "<a></a>" else "<c></c>", fate') := by
  have htext : (Prod.fst <$> chainText engine [] 0 (scope b) fate
      [.element head false [] s, .element tail false [] s']).answer {} =
      .ok (if b then "<a></a>" else "<c></c>") := by
    cases b with
    | true =>
      rw [hfires.first [] _ [_] rfl (fun n hn => absurd hn List.not_mem_nil) (holds_first s) fate,
        Rendering.answer_bind_eq, answer_once_tags rfl (by decide)]
      rfl
    | false =>
      rw [hfires.first [_] _ [] rfl (allFail_first s) (holds_second false s') fate, Rendering.answer_bind_eq,
        answer_once_tags rfl (by decide)]
      rfl
  rw [Rendering.answer_map] at htext
  cases hanswer : (chainText engine [] 0 (scope b) fate
      [.element head false [] s, .element tail false [] s']).answer {} with
  | error err => rw [hanswer] at htext; cases htext
  | ok found =>
    rw [hanswer] at htext
    exact ⟨found.2, congrArg (fun text => Except.ok (text, found.2)) (Except.ok.inj htext)⟩

end Choice

/-- A chain of two members with text behind it: if the condition holds the first one fires, and if it does
    not the second one. -/
theorem Template.chain_fires_first_if_else :
    ∃ t head tail after, Template.compile {} Choice.markup = .ok t ∧ t.children = [head, tail, after] ∧
      (∀ b, Render.FiresFirst Choice.engine [] 0 (Choice.scope b) [head, tail]) ∧
      Render.Holds Choice.engine (Choice.scope true) head ∧
      Render.AllFail Choice.engine (Choice.scope false) [head] ∧
      Render.Holds Choice.engine (Choice.scope false) tail ∧
      ∀ b, (Render.nodes Choice.engine [] 0 (Choice.scope b) {} t.children).answer {} =
        .ok (if b then "<a></a>d" else "<c></c>d") := by
  obtain ⟨t, s, s', s'', hcompile, hchildren⟩ := Choice.exists_compiled
  have hlist : [] ++ [.element Choice.head false [] s, .element Choice.tail false [] s'] ++
      [.text "d" s''] ∈ t.siblingLists := by
    rw [Template.siblingLists, hchildren]
    exact Siblings.mem_lists_self _
  have hchain : Siblings.IsChain (.element Choice.head false [] s) [.element Choice.tail false [] s'] :=
    ⟨rfl, List.forall_mem_singleton.2 (.inr (.inr rfl))⟩
  have hafter : Siblings.NoneContinues [.text "d" s''] := by
    intro n hn hcontinues
    obtain rfl := List.mem_singleton.1 (Render.mem_of_mem_next? hn)
    rcases hcontinues with hplace | hplace <;> cases hplace
  have hfirst := fun b =>
    Template.chain_fires_first hcompile hlist hchain hafter Choice.engine [] 0 (Choice.scope b) {}
  have hfires : ∀ b, Render.FiresFirst Choice.engine [] 0 (Choice.scope b)
      [.element Choice.head false [] s, .element Choice.tail false [] s'] :=
    fun b => (hfirst b).2.2 (List.forall_mem_cons.2 ⟨⟨rfl, rfl⟩, List.forall_mem_singleton.2 ⟨rfl, rfl⟩⟩)
  refine ⟨t, _, _, _, hcompile, hchildren, hfires, Choice.holds_first s, Choice.allFail_first s,
    Choice.holds_second false s', fun b => ?_⟩
  obtain ⟨fate, htext⟩ := Choice.exists_answer_chainText (hfires b) .noLoop
  rw [hchildren]
  refine (hfirst b).1.trans ?_
  show ((Render.chainText _ _ _ _ .noLoop _).answer {} >>= _) = _
  rw [htext]
  show ((Render.nodes _ _ _ _ ⟨false, fate⟩ _).answer {} >>= _) = _
  rw [Render.answer_nodes_text, Render.answer_nodes_nil]
  cases b <;> rfl

end Stencil
