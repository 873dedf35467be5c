import Stencil.Proofs.Template.SiblingLists
/-
  Which directives may stand next to which.

  With blank text and comments left out of account, a tag that goes on with a chain of conditions stands
  directly after a tag that leaves one open, and a tag that is the fallback of a loop directly after a
  loop.  The rule looks at one list of siblings and at two neighbours in it.

  The main statement here turns it into a scan from the left, which remembers the last tag or text seen.
-/

namespace Stencil

namespace Directives

/-- The place in a chain that a condition of its own gives a tag. -/
def place (d : Directives) : Option ChainPlace :=
  match d.conditionKind? with
  | none => none
  | some .ifTrue => some .head
  | some .elseIf => some .link
  | some .otherwise => some .tail

/-- Whether a chain may go on behind a tag: it carries `:if` or `:elseif`. -/
def opensChain (d : Directives) : Bool :=
  d.conditionKind? == some .ifTrue || d.conditionKind? == some .elseIf

/-- Whether a tag goes on with a chain: it carries `:elseif` or `:else`. -/
def joinsChain (d : Directives) : Bool :=
  d.conditionKind? == some .elseIf || d.conditionKind? == some .otherwise

end Directives

namespace Node

/-- Whether a node carries `:if` or `:elseif`. -/
def opensChain (n : Node) : Bool := n.directives?.any Directives.opensChain

/-- Whether a node carries `:elseif` or `:else`. -/
def joinsChain (n : Node) : Bool := n.directives?.any Directives.joinsChain

/-- Whether a node carries `:foreach`. -/
def isLoop (n : Node) : Bool := n.directives?.any fun d => d.foreach?.isSome

/-- Whether a node carries `:forelse`. -/
def isFallback (n : Node) : Bool := n.directives?.any fun d => d.forelse?.isSome

/-- A node that carries directives says something. -/
theorem saysNothing_of_directives?_eq_some {n : Node} {d : Directives} (h : n.directives? = some d) :
    n.saysNothing = false := by
  cases n with
  | element => rfl
  | component => rfl
  | text => cases h
  | expression => cases h
  | comment => cases h
  | slot => cases h

variable {n : Node} {d : Directives}

theorem opensChain_eq (h : n.directives? = some d) : n.opensChain = d.opensChain := by
  rw [opensChain, h]
  rfl

theorem joinsChain_eq (h : n.directives? = some d) : n.joinsChain = d.joinsChain := by
  rw [joinsChain, h]
  rfl

theorem isLoop_eq (h : n.directives? = some d) : n.isLoop = d.foreach?.isSome := by
  rw [isLoop, h]
  rfl

theorem isFallback_eq (h : n.directives? = some d) : n.isFallback = d.forelse?.isSome := by
  rw [isFallback, h]
  rfl

end Node

namespace Siblings

/-- The siblings that say something. -/
def significant (ns : List Node) : List Node := ns.filter fun n => !n.saysNothing

/-- A node may stand directly after another one, or first. -/
structure Follows (p : Option Node) (n : Node) : Prop where
  chain : n.joinsChain = true → ∃ m ∈ p, m.opensChain = true
  pair : n.isFallback = true → ∃ m ∈ p, m.isLoop = true

/-- Every node that says something may stand after the one before it. -/
def WellPlaced (ns : List Node) : Prop :=
  ∀ before n after, significant ns = before ++ n :: after → Follows before.getLast? n

/-- The rule as a scan: `p` is the last node before the list that said something. -/
def PlacedAfter (p : Option Node) : List Node → Prop
  | [] => True
  | n :: ns => if n.saysNothing then PlacedAfter p ns else Follows p n ∧ PlacedAfter (some n) ns

/-- A node without directives may stand anywhere. -/
theorem follows_of_directives?_eq_none {p : Option Node} {n : Node} (h : n.directives? = none) :
    Follows p n := by
  constructor
  · intro hjoins
    rw [Node.joinsChain, h] at hjoins
    cases hjoins
  · intro hfallback
    rw [Node.isFallback, h] at hfallback
    cases hfallback

theorem significant_cons_of_saysNothing {n : Node} {ns : List Node} (h : n.saysNothing = true) :
    significant (n :: ns) = significant ns := by
  rw [significant, List.filter_cons_of_neg (by simp [h])]
  rfl

theorem significant_cons {n : Node} {ns : List Node} (h : n.saysNothing = false) :
    significant (n :: ns) = n :: significant ns := by
  rw [significant, List.filter_cons_of_pos (by simp [h])]
  rfl

theorem getLast?_cons_or (m : Node) (ns : List Node) (p : Option Node) :
    (m :: ns).getLast?.or p = ns.getLast?.or (some m) := by
  rw [List.getLast?_cons]
  cases ns.getLast? <;> rfl

theorem placedAfter_iff {p : Option Node} {ns : List Node} :
    PlacedAfter p ns ↔
      ∀ before n after, significant ns = before ++ n :: after → Follows (before.getLast?.or p) n := by
  induction ns generalizing p with
  | nil => simp [PlacedAfter, significant]
  | cons m ns ih =>
    cases hm : m.saysNothing with
    | true => rw [PlacedAfter, if_pos hm, ih, significant_cons_of_saysNothing hm]
    | false =>
      -- the node is the first that says something, and the last before the rest
      rw [PlacedAfter, if_neg (by simp [hm]), ih, significant_cons hm]
      constructor
      · rintro ⟨hfirst, hrest⟩ before n after heq
        cases before with
        | nil =>
          obtain ⟨rfl, -⟩ := List.cons.inj heq
          exact hfirst
        | cons b before =>
          obtain ⟨rfl, htail⟩ := List.cons.inj heq
          rw [getLast?_cons_or]
          exact hrest before n after htail
      · intro h
        refine ⟨h [] m (significant ns) rfl, ?_⟩
        intro before n after heq
        rw [← getLast?_cons_or]
        exact h (m :: before) n after (by rw [heq]; rfl)

/-- A list obeys the rule when the scan finds nothing wrong from its start. -/
theorem wellPlaced_iff {ns : List Node} : WellPlaced ns ↔ PlacedAfter none ns := by
  rw [placedAfter_iff]
  simp only [Option.or_none]
  rfl

end Siblings

end Stencil
