import Stencil.Proofs.Template.Adjacency
import Stencil.Template.Siblings
/-
  What linking the siblings of a template does.

  A linked list is the list as it was, in order, where every tag is told its place in its chain, by its
  own condition, and whether it is a loop with a fallback; the same is done to all lists inside.  Left out
  are only the nodes that say nothing between a tag and its continuation, and these stay where blanks
  show.

  The main statement is that a template can be linked exactly when all its lists of siblings obey the
  rule, that every refusal is about a directive, and that the result is this one.
-/

namespace Stencil

/-- The place of a node in a chain, by its own condition. -/
def Node.place (n : Node) : Option ChainPlace := n.directives?.bind Directives.place

namespace Siblings

/-! ## Linked lists -/

/-- The next sibling that says something. -/
def next? (ns : List Node) : Option Node := (significant ns).head?

/-- What a node is told about itself and the siblings after it. -/
def linksBefore (rest : List Node) (n : Node) : Links :=
  ⟨n.place, n.isLoop && (next? rest).any Node.isFallback⟩

/-- A node says nothing, blanks do not show, and the next sibling that says something continues what stands
    before it. -/
structure LeftOut (blanksShow : Bool) (rest : List Node) (n : Node) : Prop where
  blanksShow : blanksShow = false
  saysNothing : n.saysNothing = true
  continued : ∃ m ∈ next? rest, m.joinsChain = true ∨ m.isFallback = true

mutual

/-- The second node is the first with all lists inside it linked. -/
inductive LinkedInside : Bool → Node → Node → Prop where
  | text {b : Bool} {content : String} {s : Span} : LinkedInside b (.text content s) (.text content s)
  | expression {b : Bool} {source : String} {escaped : Bool} {s : Span} :
      LinkedInside b (.expression source escaped s) (.expression source escaped s)
  | comment {b : Bool} {content : String} {s : Span} :
      LinkedInside b (.comment content s) (.comment content s)
  | element {b : Bool} {tag : Tag} {selfClosing : Bool} {children linked : List Node} {s : Span}
      (h : Linked (b || Element.showsBlanks tag.name) children linked) :
      LinkedInside b (.element tag selfClosing children s) (.element tag selfClosing linked s)
  | component {b : Bool} {tag : Tag} {children linked : List Node}
      {slots linkedSlots : List (String × List Node)} {s : Span} (h : Linked b children linked)
      (hslots : LinkedSlots b slots linkedSlots) :
      LinkedInside b (.component tag children slots s) (.component tag linked linkedSlots s)
  | slot {b : Bool} {name : Option String} {fallback linked : List Node} {s : Span}
      (h : Linked b fallback linked) : LinkedInside b (.slot name fallback s) (.slot name linked s)

/-- The second list is the first with its siblings linked, and so inside. -/
inductive Linked : Bool → List Node → List Node → Prop where
  | nil {b : Bool} : Linked b [] []
  | leftOut {b : Bool} {n : Node} {rest linked : List Node} (hn : LeftOut b rest n)
      (h : Linked b rest linked) : Linked b (n :: rest) linked
  | kept {b : Bool} {n m : Node} {rest linked : List Node} (hn : ¬ LeftOut b rest n)
      (hm : LinkedInside b n m) (h : Linked b rest linked) :
      Linked b (n :: rest) (m.withLinks (linksBefore rest n) :: linked)

/-- The contents of named slots, each linked. -/
inductive LinkedSlots : Bool → List (String × List Node) → List (String × List Node) → Prop where
  | nil {b : Bool} : LinkedSlots b [] []
  | cons {b : Bool} {name : String} {content linked : List Node}
      {slots linkedSlots : List (String × List Node)} (h : Linked b content linked)
      (hslots : LinkedSlots b slots linkedSlots) :
      LinkedSlots b ((name, content) :: slots) ((name, linked) :: linkedSlots)

end

/-- Linking inside a node leaves its directives. -/
theorem LinkedInside.directives?_eq {b : Bool} {n m : Node} (h : LinkedInside b n m) :
    m.directives? = n.directives? := by
  cases h <;> rfl

/-- Linking inside a node changes nothing about whether it says something. -/
theorem LinkedInside.saysNothing_eq {b : Bool} {n m : Node} (h : LinkedInside b n m) :
    m.saysNothing = n.saysNothing := by
  cases h <;> rfl

/-! ## Answers -/

/-- A result comes with `R` exactly when `P` holds, and any refusal is about a directive. -/
def Answers {α : Type} (P : Prop) (R : α → Prop) : Except TemplateError α → Prop
  | .ok a => P ∧ R a
  | .error e => ¬ P ∧ e.problem.isDirective = true

namespace Answers

variable {α β : Type} {P Q : Prop} {R : α → Prop}

theorem congr {x : Except TemplateError α} (h : Answers P R x) (hiff : P ↔ Q) : Answers Q R x := by
  rw [← propext hiff]
  exact h

theorem bind {S : β → Prop} {x : Except TemplateError α} {f : α → Except TemplateError β}
    (hx : Answers P R x) (hf : ∀ a, R a → Answers Q S (f a)) : Answers (P ∧ Q) S (x >>= f) := by
  cases x with
  | error e => exact ⟨fun h => hx.1 h.1, hx.2⟩
  | ok a =>
    have hfa := hf a hx.2
    show Answers (P ∧ Q) S (f a)
    exact hfa.congr ⟨fun h => ⟨hx.1, h⟩, fun h => h.2⟩

theorem ok {a : α} (h : R a) : Answers True R (.ok a) := ⟨trivial, h⟩

end Answers

/-! ## The steps of the two scans -/

/-- A tag may stand after a chain when it opens one, or goes on with one that is open. -/
theorem answers_chainStep (d : Directives) (chain : Chain) :
    Answers (d.joinsChain = true → chain = .opened)
      (fun result => result.1 = d.place ∧ (result.2 = .opened ↔ d.opensChain = true))
      (chainStep d chain) := by
  unfold chainStep Directives.joinsChain Directives.place Directives.opensChain Directives.conditionKind?
  cases d.condition with
  | none => exact ⟨by simp, rfl, by simp⟩
  | some condition =>
    cases hkind : condition.test.kind <;> cases chain <;> simp [Answers, hkind, TemplateProblem.isDirective]

/-- A tag may stand after a loop when it is no fallback, or the loop has none so far. -/
theorem answers_pairStep (d : Directives) (pair : Pair) :
    Answers (d.forelse?.isSome = true → pair = .opened)
      (fun result => result = .opened ↔ d.foreach?.isSome = true) (pairStep d pair) := by
  unfold pairStep Directives.forelse? Directives.foreach?
  cases d.loop with
  | none => exact ⟨by simp, by simp⟩
  | some loop =>
    cases loop with
    | foreach loop => exact ⟨by simp, by simp⟩
    | forelse fallback => cases pair <;> simp [Answers, TemplateProblem.isDirective]

/-- What the scan remembers of the last node that said something. -/
structure Remembers (before : Before) (p : Option Node) : Prop where
  chain : before.chain = .opened ↔ ∃ m ∈ p, m.opensChain = true
  pair : before.pair = .opened ↔ ∃ m ∈ p, m.isLoop = true

theorem remembers_none : Remembers {} none := by
  constructor <;> simp

/-- After a node without directives nothing can be continued. -/
theorem remembers_of_directives?_eq_none {n : Node} (h : n.directives? = none) :
    Remembers {} (some n) := by
  constructor <;> simp [Node.opensChain, Node.isLoop, h]

/-- Both steps together ask what the rule asks of a tag after another node. -/
theorem follows_iff {before : Before} {p : Option Node} {n : Node} {d : Directives}
    (hbefore : Remembers before p) (hn : n.directives? = some d) :
    ((d.joinsChain = true → before.chain = .opened) ∧
      (d.forelse?.isSome = true → before.pair = .opened)) ↔ Follows p n := by
  rw [hbefore.chain, hbefore.pair, ← Node.joinsChain_eq hn, ← Node.isFallback_eq hn]
  constructor
  · rintro ⟨hchain, hpair⟩
    exact ⟨hchain, hpair⟩
  · intro h
    exact ⟨h.chain, h.pair⟩

/-! ## The look ahead -/

theorem nextDirectives?_eq (rest : List Node) :
    nextDirectives? rest = (next? rest).bind Node.directives? := by
  rw [nextDirectives?, next?, significant, List.head?_filter]

theorem isContinued_iff {rest : List Node} :
    isContinued rest = true ↔ ∃ m ∈ next? rest, m.joinsChain = true ∨ m.isFallback = true := by
  rw [isContinued, nextDirectives?_eq]
  cases next? rest with
  | none => simp
  | some m =>
    cases hm : m.directives? with
    | none => simp [hm, Node.joinsChain, Node.isFallback]
    | some d => simp [hm, Node.joinsChain, Node.isFallback, continues, Directives.joinsChain]

theorem hasFallback_eq (rest : List Node) :
    hasFallback rest = (next? rest).any Node.isFallback := by
  rw [hasFallback, nextDirectives?_eq]
  cases next? rest with
  | none => rfl
  | some m => rw [Option.bind_some, Option.any_some, Node.isFallback]

theorem leftOut_iff {b : Bool} {rest : List Node} {n : Node} :
    LeftOut b rest n ↔ b = false ∧ n.saysNothing = true ∧ isContinued rest = true := by
  rw [isContinued_iff]
  constructor
  · intro h
    exact ⟨h.blanksShow, h.saysNothing, h.continued⟩
  · rintro ⟨hb, hn, hm⟩
    exact ⟨hb, hn, hm⟩

/-- Nodes without a tag take no links. -/
theorem withLinks_of_directives?_eq_none {n : Node} (links : Links) (h : n.directives? = none) :
    n.withLinks links = n := by
  cases n with
  | element => cases h
  | component => cases h
  | text => rfl
  | expression => rfl
  | comment => rfl
  | slot => rfl

/-! ## The whole scan -/

theorem forall_lists_wellPlaced {ns : List Node} :
    (∀ l ∈ lists ns, WellPlaced l) ↔ PlacedAfter none ns ∧ ∀ l ∈ below ns, WellPlaced l := by
  rw [lists, List.forall_mem_cons, wellPlaced_iff]

/-- A tag that may stand where it does is told its links. -/
theorem answers_linkAll_tag {b : Bool} {before : Before} {p : Option Node} {n m : Node} {d : Directives}
    {rest : List Node} (hbefore : Remembers before p) (hm : LinkedInside b n m)
    (hd : n.directives? = some d)
    (ih : ∀ before, Remembers before (some n) →
      Answers (PlacedAfter (some n) rest ∧ ∀ l ∈ below rest, WellPlaced l) (Linked b rest)
        (linkAll b before rest)) :
    Answers (Follows p n ∧ PlacedAfter (some n) rest ∧ ∀ l ∈ below rest, WellPlaced l)
      (Linked b (n :: rest)) (do
        let (role, chain) ← chainStep d before.chain
        let pair ← pairStep d before.pair
        let more ← linkAll b ⟨chain, pair⟩ rest
        .ok (m.withLinks ⟨role, d.foreach?.isSome && hasFallback rest⟩ :: more)) := by
  have hkept : ¬ LeftOut b rest n := by
    intro h
    have hnothing := h.saysNothing
    rw [Node.saysNothing_of_directives?_eq_some hd] at hnothing
    cases hnothing
  have hplace : n.place = d.place := by rw [Node.place, hd]; rfl
  -- each step asks its part of the rule, and what the steps leave is what is remembered of the tag
  refine ((answers_chainStep d before.chain).bind fun step hchain =>
    (answers_pairStep d before.pair).bind fun pair hpair =>
      (ih ⟨step.2, pair⟩ ?_).bind fun more hmore => Answers.ok ?_).congr ?_
  · exact ⟨by simpa [Node.opensChain_eq hd] using hchain.2, by simpa [Node.isLoop_eq hd] using hpair⟩
  · have hlinks : (⟨step.1, d.foreach?.isSome && hasFallback rest⟩ : Links) = linksBefore rest n := by
      rw [linksBefore, hasFallback_eq, Node.isLoop_eq hd, hplace, ← hchain.1]
    rw [hlinks]
    exact .kept hkept hm hmore
  · rw [← follows_iff hbefore hd]
    simp only [and_true, and_assoc]

/-- A node that says nothing is passed over, and left out where it may be. -/
theorem linked_of_saysNothing {b : Bool} {n m : Node} {rest linked : List Node}
    (hm : LinkedInside b n m) (hd : n.directives? = none) (hn : n.saysNothing = true)
    (h : Linked b rest linked) :
    Linked b (n :: rest) (if !b && isContinued rest then linked else m :: linked) := by
  split
  · next hout =>
    rw [Bool.and_eq_true, Bool.not_eq_true'] at hout
    exact .leftOut (leftOut_iff.2 ⟨hout.1, hn, hout.2⟩) h
  · next hkept =>
    rw [← withLinks_of_directives?_eq_none (linksBefore rest n) (hm.directives?_eq.trans hd)]
    refine .kept (fun hout => hkept ?_) hm h
    obtain ⟨hb, -, hcontinued⟩ := leftOut_iff.1 hout
    rw [hb, hcontinued]
    rfl

/-- A node that says something and has no directives is kept. -/
theorem linked_of_significant {b : Bool} {n m : Node} {rest linked : List Node}
    (hm : LinkedInside b n m) (hd : n.directives? = none) (hn : n.saysNothing = false)
    (h : Linked b rest linked) : Linked b (n :: rest) (m :: linked) := by
  rw [← withLinks_of_directives?_eq_none (linksBefore rest n) (hm.directives?_eq.trans hd)]
  refine .kept (fun hout => ?_) hm h
  have hnothing := hout.saysNothing
  rw [hn] at hnothing
  cases hnothing

mutual

/-- Linking inside a node. -/
theorem answers_linkNode (b : Bool) :
    (n : Node) → Answers (∀ l ∈ inside n, WellPlaced l) (LinkedInside b n) (linkNode b n)
  | .text .. => ⟨by simp [inside], .text⟩
  | .expression .. => ⟨by simp [inside], .expression⟩
  | .comment .. => ⟨by simp [inside], .comment⟩
  | .element tag _ children _ => by
    refine ((answers_linkAll (b || Element.showsBlanks tag.name) children remembers_none).bind
      fun _ h => Answers.ok (.element h)).congr ?_
    rw [and_true, inside]
    exact forall_lists_wellPlaced.symm
  | .component _ children slots _ => by
    refine ((answers_linkAll b children remembers_none).bind fun _ h =>
      (answers_linkSlots b slots).bind fun _ hslots => Answers.ok (.component h hslots)).congr ?_
    rw [and_true, inside, List.forall_mem_append]
    exact and_congr_left fun _ => forall_lists_wellPlaced.symm
  | .slot _ fallback _ => by
    refine ((answers_linkAll b fallback remembers_none).bind fun _ h =>
      Answers.ok (.slot h)).congr ?_
    rw [and_true, inside]
    exact forall_lists_wellPlaced.symm
termination_by structural n => n

/-- Linking siblings after a node that the scan remembers. -/
theorem answers_linkAll (b : Bool) :
    (ns : List Node) → {before : Before} → {p : Option Node} → Remembers before p →
      Answers (PlacedAfter p ns ∧ ∀ l ∈ below ns, WellPlaced l) (Linked b ns) (linkAll b before ns)
  | [], _, _, _ => ⟨⟨trivial, by simp [below]⟩, .nil⟩
  | n :: rest, before, p, hbefore => by
    rw [linkAll, below, List.forall_mem_append, PlacedAfter]
    cases hd : n.directives? with
    | some d =>
      -- a tag: the rule is asked of it, and the rest comes after it
      have hnothing := Node.saysNothing_of_directives?_eq_some hd
      refine ((answers_linkNode b n).bind (Q := Follows p n ∧ PlacedAfter (some n) rest ∧
        ∀ l ∈ below rest, WellPlaced l) fun m hm => ?_).congr ?_
      · rw [hm.directives?_eq, hd]
        exact answers_linkAll_tag hbefore hm hd fun before h => answers_linkAll b rest h
      · rw [if_neg (by simp [hnothing])]
        constructor
        · rintro ⟨hinside, hfollows, hplaced, hbelow⟩
          exact ⟨⟨hfollows, hplaced⟩, hinside, hbelow⟩
        · rintro ⟨⟨hfollows, hplaced⟩, hinside, hbelow⟩
          exact ⟨hinside, hfollows, hplaced, hbelow⟩
    | none =>
      have hfollows : Follows p n := follows_of_directives?_eq_none hd
      cases hnothing : n.saysNothing with
      | true =>
        -- what was remembered before the node is remembered after it
        refine ((answers_linkNode b n).bind (Q := PlacedAfter p rest ∧
          ∀ l ∈ below rest, WellPlaced l) fun m hm => ?_).congr ?_
        · rw [hm.directives?_eq, hd, hm.saysNothing_eq, hnothing]
          exact ((answers_linkAll b rest hbefore).bind fun more hmore =>
            Answers.ok (linked_of_saysNothing hm hd hnothing hmore)).congr (and_true _ ▸ Iff.rfl)
        · rw [if_pos rfl]
          exact and_left_comm
      | false =>
        -- nothing can be continued after the node
        refine ((answers_linkNode b n).bind (Q := PlacedAfter (some n) rest ∧
          ∀ l ∈ below rest, WellPlaced l) fun m hm => ?_).congr ?_
        · rw [hm.directives?_eq, hd, hm.saysNothing_eq, hnothing]
          exact ((answers_linkAll b rest (remembers_of_directives?_eq_none hd)).bind
            fun more hmore => Answers.ok (linked_of_significant hm hd hnothing hmore)).congr
              (and_true _ ▸ Iff.rfl)
        · rw [if_neg (by simp), and_iff_right hfollows]
          exact and_left_comm
termination_by structural ns => ns

/-- Linking the contents of named slots. -/
theorem answers_linkSlots (b : Bool) :
    (slots : List (String × List Node)) →
      Answers (∀ l ∈ insideSlots slots, WellPlaced l) (LinkedSlots b slots) (linkSlots b slots)
  | [] => ⟨by simp [insideSlots], .nil⟩
  | (_, content) :: slots => by
    refine ((answers_linkAll b content remembers_none).bind fun _ h =>
      (answers_linkSlots b slots).bind fun _ hslots => Answers.ok (.cons h hslots)).congr ?_
    rw [and_true, insideSlots, List.forall_mem_append]
    exact and_congr_left fun _ => forall_lists_wellPlaced.symm
termination_by structural slots => slots

end

end Siblings

theorem Template.answers_link (t : Template) :
    Siblings.Answers (∀ ns ∈ t.siblingLists, Siblings.WellPlaced ns)
      (fun linked => linked.span = t.span ∧ Siblings.Linked false t.children linked.children)
      t.link := by
  have hall := Siblings.answers_linkAll false t.children Siblings.remembers_none
  rw [← Siblings.forall_lists_wellPlaced] at hall
  unfold Template.link
  cases hchildren : Siblings.linkAll false {} t.children with
  | error e =>
    rw [hchildren] at hall
    exact hall
  | ok children =>
    rw [hchildren] at hall
    exact ⟨hall.1, rfl, hall.2⟩

/-- A template can be linked exactly when every list of siblings in it obeys the rule of neighbours; every
    refusal says that a directive stands where it cannot apply; and a template that is linked is the
    template it was, with its lists linked at every depth. -/
theorem Template.link_iff_wellPlaced (t : Template) :
    ((∃ linked, t.link = .ok linked) ↔ ∀ ns ∈ t.siblingLists, Siblings.WellPlaced ns) ∧
      (∀ e, t.link = .error e → e.code = "element-was-invalid") ∧
      ∀ linked, t.link = .ok linked →
        linked.span = t.span ∧ Siblings.Linked false t.children linked.children := by
  have hanswers := t.answers_link
  cases hlink : t.link with
  | error e =>
    rw [hlink] at hanswers
    obtain ⟨hbad, hdirective⟩ := hanswers
    refine ⟨⟨?_, fun h => absurd h hbad⟩, ?_, ?_⟩
    · rintro ⟨_, h⟩
      cases h
    · intro e' h
      obtain rfl : e = e' := by simpa using h
      rw [TemplateError.code, if_pos hdirective]
    · intro linked h
      cases h
  | ok linked =>
    rw [hlink] at hanswers
    obtain ⟨hgood, hlinked⟩ := hanswers
    refine ⟨⟨fun _ => hgood, fun _ => ⟨_, rfl⟩⟩, ?_, ?_⟩
    · intro e h
      cases h
    · intro linked' h
      obtain rfl : linked = linked' := by simpa using h
      exact hlinked

end Stencil
