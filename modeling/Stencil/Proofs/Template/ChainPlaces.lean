import Stencil.Proofs.Template.Linked
/-
  What the lists of a compiled template have in common.

  Linking leaves the directives of every node and drops only nodes that say nothing, so the rule of
  neighbours goes on to hold in the linked lists; and in these each tag knows its place in its chain.
  Together this means that in a compiled template a tag which goes on with a chain stands directly after
  a tag of that chain.
-/

namespace Stencil

/-- The place in a chain that a tag was told. -/
def Node.chainPlace (n : Node) : Option ChainPlace := n.tag?.bind fun tag => tag.links.chain

/-- A tag with new links has the place they say. -/
theorem Node.chainPlace_withLinks {n : Node} {d : Directives} (h : n.directives? = some d)
    (links : Links) : (n.withLinks links).chainPlace = links.chain := by
  cases n with
  | element => rfl
  | component => rfl
  | text => cases h
  | expression => cases h
  | comment => cases h
  | slot => cases h

theorem Node.directives?_withLinks (n : Node) (links : Links) :
    (n.withLinks links).directives? = n.directives? := by
  cases n <;> rfl

theorem Node.saysNothing_withLinks (n : Node) (links : Links) :
    (n.withLinks links).saysNothing = n.saysNothing := by
  cases n <;> rfl

theorem Node.chainPlace_of_directives?_eq_none {n : Node} (h : n.directives? = none) :
    n.chainPlace = none := by
  have htag : n.tag? = none := Option.map_eq_none_iff.1 h
  rw [Node.chainPlace, htag]
  rfl

/-- A node goes on with a chain exactly when its place by its own condition is a link or the tail. -/
theorem Node.joinsChain_iff (n : Node) :
    n.joinsChain = true ↔ n.place = some .link ∨ n.place = some .tail := by
  unfold Node.joinsChain Node.place
  cases n.directives? with
  | none => simp
  | some d =>
    simp only [Option.any_some, Option.bind_some, Directives.joinsChain, Directives.place]
    cases d.conditionKind? with
    | none => simp
    | some kind => cases kind <;> simp

/-- A chain may go on behind a node exactly when its place by its own condition is the head or a link. -/
theorem Node.opensChain_iff (n : Node) :
    n.opensChain = true ↔ n.place = some .head ∨ n.place = some .link := by
  unfold Node.opensChain Node.place
  cases n.directives? with
  | none => simp
  | some d =>
    simp only [Option.any_some, Option.bind_some, Directives.opensChain, Directives.place]
    cases d.conditionKind? with
    | none => simp
    | some kind => cases kind <;> simp

namespace Siblings

/-- The rule of neighbours looks at the directives of the two nodes only. -/
theorem Follows.congr {p p' : Option Node} {n n' : Node}
    (hp : p.bind Node.directives? = p'.bind Node.directives?) (hn : n.directives? = n'.directives?)
    (h : Follows p n) : Follows p' n' := by
  have hlast : ∀ f : Directives → Bool, (∃ m ∈ p, m.directives?.any f = true) →
      ∃ m ∈ p', m.directives?.any f = true := by
    rintro f ⟨m, hm, hf⟩
    rw [Option.mem_def.1 hm, Option.bind_some] at hp
    rw [hp] at hf
    cases p' with
    | none => cases hf
    | some m' => exact ⟨m', rfl, hf⟩
  constructor
  · intro hjoins
    rw [Node.joinsChain, ← hn] at hjoins
    exact hlast _ (h.chain hjoins)
  · intro hfallback
    rw [Node.isFallback, ← hn] at hfallback
    exact hlast _ (h.pair hfallback)

theorem LinkedInside.directives?_withLinks {b : Bool} {n m : Node} (h : LinkedInside b n m)
    (links : Links) : (m.withLinks links).directives? = n.directives? := by
  rw [Node.directives?_withLinks, h.directives?_eq]

/-- The rule of neighbours goes on to hold in a linked list. -/
theorem Linked.placedAfter {b : Bool} {ns linked : List Node} {p p' : Option Node}
    (h : Linked b ns linked) (hp : p.bind Node.directives? = p'.bind Node.directives?)
    (hplaced : PlacedAfter p ns) : PlacedAfter p' linked := by
  induction ns generalizing linked p p' with
  | nil =>
    cases h
    trivial
  | cons n rest ih =>
    rw [PlacedAfter] at hplaced
    cases h with
    | leftOut hn hrest =>
      -- only what says nothing is left out, and the scan passes over it
      rw [if_pos hn.saysNothing] at hplaced
      exact ih hrest hp hplaced
    | @kept _ _ m _ linked hn hm hrest =>
      have hdirectives := hm.directives?_withLinks (linksBefore rest n)
      rw [PlacedAfter, Node.saysNothing_withLinks, hm.saysNothing_eq]
      split at hplaced
      · next hnothing =>
        rw [if_pos hnothing]
        exact ih hrest hp hplaced
      · next hsomething =>
        rw [if_neg hsomething]
        have hlast : (some n).bind Node.directives? =
            (some (m.withLinks (linksBefore rest n))).bind Node.directives? := hdirectives.symm
        exact ⟨hplaced.1.congr hp hdirectives.symm, ih hrest hlast hplaced.2⟩

/-- In a linked list every node was told the place its own condition gives it. -/
theorem Linked.chainPlace_eq {b : Bool} {ns linked : List Node} (h : Linked b ns linked) :
    ∀ n ∈ linked, n.chainPlace = n.place := by
  induction ns generalizing linked with
  | nil =>
    cases h
    simp
  | cons n rest ih =>
    cases h with
    | leftOut hn hrest => exact ih hrest
    | @kept _ _ m _ linked hn hm hrest =>
      intro m' hm'
      rcases List.mem_cons.1 hm' with rfl | hm'
      · have hdirectives := hm.directives?_withLinks (linksBefore rest n)
        have hplace : (m.withLinks (linksBefore rest n)).place = n.place := by
          rw [Node.place, Node.place, hdirectives]
        cases hd : n.directives? with
        | none =>
          rw [Node.chainPlace_of_directives?_eq_none (hdirectives.trans hd), hplace, Node.place, hd]
          rfl
        | some d =>
          rw [Node.chainPlace_withLinks (hm.directives?_eq.trans hd), hplace]
          rfl
      · exact ih hrest m' hm'

theorem inside_withLinks (n : Node) (links : Links) : inside (n.withLinks links) = inside n := by
  cases n <;> rfl

/-- Every list in a linked list is a linked list, if those below it are. -/
theorem linked_of_mem_lists {b : Bool} {ns linked : List Node} (h : Linked b ns linked)
    (hbelow : ∀ l ∈ below linked, ∃ b' k, k ∈ below ns ∧ Linked b' k l) :
    ∀ l ∈ lists linked, ∃ b' k, k ∈ lists ns ∧ Linked b' k l := by
  intro l hl
  rcases List.mem_cons.1 hl with rfl | hl
  · exact ⟨b, ns, mem_lists_self ns, h⟩
  · obtain ⟨b', k, hk, hlinked⟩ := hbelow l hl
    exact ⟨b', k, List.mem_cons_of_mem _ hk, hlinked⟩

mutual

/-- Every list inside a linked node is a linked list. -/
theorem linked_of_mem_inside :
    (n : Node) → {b : Bool} → {m : Node} → LinkedInside b n m →
      ∀ l ∈ inside m, ∃ b' k, k ∈ inside n ∧ Linked b' k l
  | .text .., _, _, .text => fun _ hl => absurd hl List.not_mem_nil
  | .expression .., _, _, .expression => fun _ hl => absurd hl List.not_mem_nil
  | .comment .., _, _, .comment => fun _ hl => absurd hl List.not_mem_nil
  | .element _ _ children _, _, _, .element h => linked_of_mem_lists h (linked_of_mem_below children h)
  | .component _ children slots _, _, _, .component h hslots => by
    intro l hl
    rcases List.mem_append.1 hl with hl | hl
    · obtain ⟨b', k, hk, hlinked⟩ := linked_of_mem_lists h (linked_of_mem_below children h) l hl
      exact ⟨b', k, List.mem_append_left _ hk, hlinked⟩
    · obtain ⟨b', k, hk, hlinked⟩ := linked_of_mem_insideSlots slots hslots l hl
      exact ⟨b', k, List.mem_append_right _ hk, hlinked⟩
  | .slot _ fallback _, _, _, .slot h => linked_of_mem_lists h (linked_of_mem_below fallback h)
termination_by structural n => n

/-- Every list in the nodes of a linked list is a linked list. -/
theorem linked_of_mem_below :
    (ns : List Node) → {b : Bool} → {linked : List Node} → Linked b ns linked →
      ∀ l ∈ below linked, ∃ b' k, k ∈ below ns ∧ Linked b' k l
  | [], _, _, .nil => fun _ hl => absurd hl List.not_mem_nil
  | n :: rest, _, _, .leftOut _ hrest => by
    intro l hl
    obtain ⟨b', k, hk, hlinked⟩ := linked_of_mem_below rest hrest l hl
    exact ⟨b', k, List.mem_append_right _ hk, hlinked⟩
  | n :: rest, _, _, .kept _ hm hrest => by
    intro l hl
    rw [below, inside_withLinks] at hl
    rcases List.mem_append.1 hl with hl | hl
    · obtain ⟨b', k, hk, hlinked⟩ := linked_of_mem_inside n hm l hl
      exact ⟨b', k, List.mem_append_left _ hk, hlinked⟩
    · obtain ⟨b', k, hk, hlinked⟩ := linked_of_mem_below rest hrest l hl
      exact ⟨b', k, List.mem_append_right _ hk, hlinked⟩
termination_by structural ns => ns

/-- Every list in the contents of linked slots is a linked list. -/
theorem linked_of_mem_insideSlots :
    (slots : List (String × List Node)) → {b : Bool} → {linked : List (String × List Node)} →
      LinkedSlots b slots linked →
      ∀ l ∈ insideSlots linked, ∃ b' k, k ∈ insideSlots slots ∧ Linked b' k l
  | [], _, _, .nil => fun _ hl => absurd hl List.not_mem_nil
  | (_, content) :: slots, _, _, .cons h hslots => by
    intro l hl
    rcases List.mem_append.1 hl with hl | hl
    · obtain ⟨b', k, hk, hlinked⟩ := linked_of_mem_lists h (linked_of_mem_below content h) l hl
      exact ⟨b', k, List.mem_append_left _ hk, hlinked⟩
    · obtain ⟨b', k, hk, hlinked⟩ := linked_of_mem_insideSlots slots hslots l hl
      exact ⟨b', k, List.mem_append_right _ hk, hlinked⟩
termination_by structural slots => slots

end

end Siblings

/-- In every list of a compiled template the rule of neighbours holds, and every node was told the place
    its own condition gives it. -/
theorem Template.placed_of_compile {o : Dialect} {source : String} {t : Template}
    (h : Template.compile o source = .ok t) :
    ∀ ns ∈ t.siblingLists, Siblings.PlacedAfter none ns ∧ ∀ n ∈ ns, n.chainPlace = n.place := by
  obtain ⟨t', -, hlink⟩ := Template.Reader.bind_eq_ok h
  have hanswers := t'.answers_link
  rw [hlink] at hanswers
  obtain ⟨hgood, -, hlinked⟩ := hanswers
  intro ns hns
  obtain ⟨b, k, hk, hns⟩ :=
    Siblings.linked_of_mem_lists hlinked (Siblings.linked_of_mem_below _ hlinked) ns hns
  exact ⟨hns.placedAfter rfl (Siblings.wellPlaced_iff.1 (hgood k hk)), hns.chainPlace_eq⟩

end Stencil
