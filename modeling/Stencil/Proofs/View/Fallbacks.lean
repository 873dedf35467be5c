import Stencil.Proofs.View.Visits
import Stencil.Proofs.View.WrittenOrder
/-
  When the fallback of a loop is rendered.

  In a compiled template a fallback stands directly after its loop, and a member of a chain directly after
  another one, down to the head of the chain.  So what was visited before a fallback ends in a visit to its
  loop, and in its own chain if it goes on with one.

  The main statement is that the directives of a fallback are expanded, in the scope of the list, just when
  its own chain has not chosen, and its loop was reached, was not gated, and had no entries.  The loop itself
  is looked at through its directives; that it was reached, through the chain before it.
-/

namespace Stencil

theorem Node.saysNothing_of_tag? {n : Node} {tag : Tag} (h : n.tag? = some tag) :
    n.saysNothing = false := by
  refine Bool.eq_false_iff.2 fun hnothing => ?_
  rw [Render.tag?_eq_none_of_saysNothing hnothing] at h
  cases h

theorem Node.exists_tag_of_any {n : Node} {f : Directives → Bool} (h : n.directives?.any f = true) :
    ∃ tag, n.tag? = some tag ∧ f tag.directives = true := by
  unfold Node.directives? at h
  cases htag : n.tag? with
  | none => simp [htag] at h
  | some tag =>
    rw [htag] at h
    exact ⟨tag, rfl, h⟩

namespace Siblings

theorem saysNothing_of_continues {n : Node} (h : n.Continues) : n.saysNothing = false := by
  obtain ⟨tag, htag, -⟩ := Render.tag?_of_continues h
  exact Node.saysNothing_of_tag? htag

/-! ## What stands before a node -/

/-- A node that says something follows the last one before it that does. -/
theorem follows_of_append {front after : List Node} {n : Node}
    (h : PlacedAfter none (front ++ n :: after)) (hn : n.saysNothing = false) :
    Follows (significant front).getLast? n := by
  have hsplit : significant (front ++ n :: after) = significant front ++ n :: significant after := by
    rw [← significant_cons hn]
    exact List.filter_append ..
  have hfollows := placedAfter_iff.1 h _ _ _ hsplit
  rwa [Option.or_none] at hfollows

/-- The last node that says something has only blanks and comments behind it. -/
theorem split_of_mem_getLast? {front : List Node} {m : Node}
    (h : m ∈ (significant front).getLast?) :
    ∃ before between, front = before ++ m :: between ∧ ∀ k ∈ between, k.saysNothing = true := by
  obtain ⟨init, hinit⟩ := List.getLast?_eq_some_iff.1 h
  obtain ⟨first, last, rfl, -, hlast⟩ := List.filter_eq_append_iff.1 hinit
  obtain ⟨silent, between, rfl, -, -, hbetween⟩ := List.filter_eq_cons_iff.1 hlast
  refine ⟨first ++ silent, between, (List.append_assoc ..).symm, fun k hk => ?_⟩
  simpa using List.filter_eq_nil_iff.1 hbetween k hk

/-- A fallback stands after its loop. -/
theorem exists_loop_before {front after : List Node} {n : Node}
    (h : PlacedAfter none (front ++ n :: after)) (hn : n.saysNothing = false)
    (hfallback : n.isFallback = true) :
    ∃ before m between, front = before ++ m :: between ∧ m.isLoop = true ∧
      ∀ k ∈ between, k.saysNothing = true := by
  obtain ⟨m, hm, hloop⟩ := (follows_of_append h hn).pair hfallback
  obtain ⟨before, between, rfl, hbetween⟩ := split_of_mem_getLast? hm
  exact ⟨before, m, between, rfl, hloop, hbetween⟩

/-- What stands before a node that goes on with a chain ends in that chain. -/
theorem exists_chain_before {front after : List Node} {n : Node}
    (h : PlacedAfter none (front ++ n :: after))
    (htold : ∀ m ∈ front ++ n :: after, m.chainPlace = m.place) (hn : n.saysNothing = false)
    (hcontinues : n.Continues) :
    ∃ outside head members, front = outside ++ head :: members ∧ IsChain head members := by
  -- by the length of what stands before: from each link back to the node it follows, down to the head
  induction hlength : front.length using Nat.strongRecOn generalizing front after n with
  | _ length ih =>
    have hjoins : n.joinsChain = true := by
      refine (Node.joinsChain_iff n).2 ?_
      rwa [← htold n (List.mem_append_right _ List.mem_cons_self)]
    obtain ⟨m, hm, hopens⟩ := (follows_of_append h hn).chain hjoins
    obtain ⟨before, between, rfl, hbetween⟩ := split_of_mem_getLast? hm
    have hmember : m ∈ before ++ m :: between ++ n :: after :=
      List.mem_append_left _ (List.mem_append_right _ List.mem_cons_self)
    rcases (Node.opensChain_iff m).1 hopens with hplace | hplace
    · exact ⟨before, m, between, rfl, (htold m hmember).trans hplace, fun k hk => .inl (hbetween k hk)⟩
    · have hlink : m.Continues := .inl ((htold m hmember).trans hplace)
      rw [List.append_assoc, List.cons_append] at h htold
      obtain ⟨outside, head, members, rfl, hchain⟩ :=
        ih before.length (by rw [← hlength]; simp) h htold (saysNothing_of_continues hlink) hlink rfl
      refine ⟨outside, head, members ++ m :: between, by simp, hchain.head, fun k hk => ?_⟩
      rcases List.mem_append.1 hk with hk | hk
      · exact hchain.members k hk
      · rcases List.mem_cons.1 hk with rfl | hk
        · exact .inr hlink
        · exact .inl (hbetween k hk)

end Siblings

/-! ## What became of a loop -/

namespace Expansion

variable {evaluate : Evaluator} {d : Directives} {loop : Foreach} {scope : Scope}

theorem Loops.fate_eq_empty_iff {filter : Option Condition} {asked : Asked} {bodies : List Scope}
    {outcome : Outcome} (h : Loops evaluate loop scope filter asked bodies (.ok outcome)) :
    outcome.loop = .empty ↔ entries evaluate loop scope = .ok [] := by
  cases h with
  | empty he => simp [he]
  | all he hne => simp [he, hne]
  | filtered he hne => simp [he, hne]

/-- A loop is empty when a condition written before it holds and there are no entries.  A condition
    written after it does not count. -/
theorem fate_eq_empty_iff {outcome : Outcome} (h : (expand evaluate d scope).outcome = .ok outcome)
    (hloop : d.foreach? = some loop) :
    outcome.loop = .empty ↔
      (∀ c ∈ d.condition, c.position < loop.position → holds evaluate c scope = .ok true) ∧
        entries evaluate loop scope = .ok [] := by
  obtain ⟨asked, bodies, result, hexpands⟩ := exists_expands evaluate d scope
  rw [expand_eq_of_expands hexpands] at h
  dsimp only at h
  cases hexpands with
  | plain _ hl => simp [hloop] at hl
  | condition _ hl => simp [hloop] at hl
  | conditionFails => cases h
  | gated hc hl hbefore hheld =>
    obtain rfl := Option.some.inj (hloop.symm.trans hl)
    cases h
    simp [hc, hbefore, hheld]
  | @entered _ _ _ _ result hc hl hbefore hheld hloops =>
    obtain rfl := Option.some.inj (hloop.symm.trans hl)
    cases result with
    | error => cases h
    | ok entered =>
      cases h
      simp [hc, hheld, hloops.fate_eq_empty_iff]
  | loop hc hl hloops =>
    obtain rfl := Option.some.inj (hloop.symm.trans hl)
    cases h
    simp [hc, hloops.fate_eq_empty_iff]
  | eachRound hc hl hafter hloops =>
    obtain rfl := Option.some.inj (hloop.symm.trans hl)
    cases h
    simp [hc, hafter, hloops.fate_eq_empty_iff]

end Expansion

/-! ## When a fallback is rendered -/

namespace Render

open Siblings (PlacedAfter)

/-- A fallback is rendered: its own chain has not chosen, and its loop was reached, by a chain that had not
    chosen either, was not gated by a condition written before it, and had no entries. -/
structure FallsBack (e : Engine) (scope : Scope) (n : Node) (visited : List Visit) (m : Node)
    (d : Directives) (loop : Foreach) (beforeLoop : List Visit) : Prop where
  chain : n.Continues → ¬ ChainChose visited
  reached : m.Continues → ¬ ChainChose beforeLoop
  entered : ∀ c ∈ d.condition, c.position < loop.position →
    Expansion.holds e.evaluator c scope = .ok true
  empty : Expansion.entries e.evaluator loop scope = .ok []

variable {e : Engine} {fillings : List Filling} {nesting : Nat} {scope : Scope}

/-- A tag with a loop is no fallback. -/
theorem isFallback_of_foreach? {m : Node} {tag : Tag} {loop : Foreach} (htag : m.tag? = some tag)
    (hloop : tag.directives.foreach? = some loop) : m.isFallback = false := by
  rw [isFallback_eq htag]
  unfold Directives.foreach? at hloop
  unfold Directives.forelse?
  split at hloop
  · next h => rw [h]; rfl
  · cases hloop

/-- A visit to a loop tells that it was empty just when it was reached, was not gated and had no entries. -/
theorem fate_eq_empty_iff_of_happens {p : Progress} {v : Visit} {tag : Tag} {loop : Foreach}
    (h : Happens e scope p v) (htag : v.node.tag? = some tag)
    (hloop : tag.directives.foreach? = some loop) :
    v.fate = .empty ↔
      ¬ (v.node.Continues ∧ p.chosen = true) ∧
      (∀ c ∈ tag.directives.condition, c.position < loop.position →
        Expansion.holds e.evaluator c scope = .ok true) ∧
      Expansion.entries e.evaluator loop scope = .ok [] := by
  have hskips : p.skips tag = true ↔ v.node.Continues ∧ p.chosen = true := by
    simp [skips_iff htag, isFallback_of_foreach? htag hloop]
  rw [← hskips]
  cases h with
  | untagged hnone => simp [htag] at hnone
  | passedOver htag' hskipped =>
    obtain rfl := Option.some.inj (htag.symm.trans htag')
    simp [Visit.fate, hskipped]
  | expanded htag' hexpanded houtcome =>
    obtain rfl := Option.some.inj (htag.symm.trans htag')
    simp [Visit.fate, hexpanded, Expansion.fate_eq_empty_iff houtcome hloop]

/-- Before a node that goes on with a chain it is known whether that chain has chosen. -/
theorem chosen_iff_of_continues {p : Progress} {front after : List Node} {n : Node} {vs : List Visit}
    (hplaced : PlacedAfter none (front ++ n :: after))
    (htold : ∀ m ∈ front ++ n :: after, m.chainPlace = m.place) (hcontinues : n.Continues)
    (h : History e scope p vs) (hnodes : vs.map Visit.node = front) :
    (vs.foldl Progress.visited p).chosen = true ↔ ChainChose vs := by
  obtain ⟨outside, head, members, rfl, hchain⟩ := Siblings.exists_chain_before hplaced htold
    (Siblings.saysNothing_of_continues hcontinues) hcontinues
  obtain ⟨_, _, rfl, -, hends⟩ := List.map_eq_append_iff.1 hnodes
  obtain ⟨_, _, rfl, rfl, rfl⟩ := List.map_eq_cons_iff.1 hends
  exact chosen_iff_chainChose h rfl hchain

/-- A fallback is passed over just when it is not rendered. -/
theorem skips_eq_false_iff {front before between after : List Node} {n m : Node} {tag loopTag : Tag}
    {loop : Foreach} {vs : List Visit} (hplaced : PlacedAfter none (front ++ n :: after))
    (htold : ∀ m ∈ front ++ n :: after, m.chainPlace = m.place) (htag : n.tag? = some tag)
    (hfallback : n.isFallback = true) (hsplit : front = before ++ m :: between)
    (hbetween : ∀ k ∈ between, k.saysNothing = true) (hm : m.tag? = some loopTag)
    (hloop : loopTag.directives.foreach? = some loop) (h : History e scope {} vs)
    (hnodes : vs.map Visit.node = front) :
    (vs.foldl Progress.visited {}).skips tag = false ↔
      FallsBack e scope n vs m loopTag.directives loop (vs.take before.length) := by
  -- the visits before the loop, to the loop, and behind it
  obtain ⟨visited, rest, rfl, hvisited, hrest⟩ := List.map_eq_append_iff.1 (hnodes.trans hsplit)
  obtain ⟨v, behind, rfl, rfl, hbehind⟩ := List.map_eq_cons_iff.1 hrest
  have htake : (visited ++ v :: behind).take before.length = visited :=
    List.take_left' (by rw [← hvisited, List.length_map])
  obtain ⟨hbefore, hends⟩ := history_append.1 h
  obtain ⟨hhappens, -⟩ := history_cons.1 hends
  -- nothing behind the loop changes what is known
  have hlast : (visited ++ v :: behind).foldl Progress.visited {} =
      (visited.foldl Progress.visited {}).visited v := by
    rw [List.foldl_append, List.foldl_cons, foldl_visited_of_saysNothing]
    intro w hw
    exact hbetween w.node (hbehind ▸ List.mem_map_of_mem hw)
  have hchain (hcontinues : n.Continues) := chosen_iff_of_continues hplaced htold hcontinues h hnodes
  have hreached : v.node.Continues →
      ((visited.foldl Progress.visited {}).chosen = true ↔ ChainChose visited) := by
    intro hcontinues
    rw [hsplit, List.append_assoc, List.cons_append] at hplaced htold
    exact chosen_iff_of_continues hplaced htold hcontinues hbefore hvisited
  have hskips : ((visited ++ v :: behind).foldl Progress.visited {}).skips tag = false ↔
      (n.Continues → ¬ ((visited ++ v :: behind).foldl Progress.visited {}).chosen = true) ∧
        v.fate = .empty := by
    rw [← Bool.not_eq_true, skips_iff htag, hlast, loop_visited hm]
    simp [hfallback]
  rw [hskips, fate_eq_empty_iff_of_happens hhappens hm hloop, htake]
  constructor
  · rintro ⟨hown, hnotPassed, hentered, hempty⟩
    exact ⟨fun hc hchose => hown hc ((hchain hc).2 hchose),
      fun hc hchose => hnotPassed ⟨hc, (hreached hc).2 hchose⟩, hentered, hempty⟩
  · intro hfalls
    exact ⟨fun hc hchosen => hfalls.chain hc ((hchain hc).1 hchosen),
      fun hpassed => hfalls.reached hpassed.1 ((hreached hpassed.1).1 hpassed.2),
      hfalls.entered, hfalls.empty⟩

/-- Once the siblings before it are visited, a tag is rendered or passed over. -/
theorem run_nodes_of_visits {p : Progress} {front : List Node} {n : Node} {tag : Tag}
    {s s' : Store} {first : String} {vs : List Visit} (htag : n.tag? = some tag)
    (h : (visits e fillings nesting scope p front).run s = (.ok (first, vs), s')) (after : List Node) :
    (nodes e fillings nesting scope p (front ++ n :: after)).run s =
      (if (vs.foldl Progress.visited p).skips tag then do
        let more ← nodes e fillings nesting scope ((vs.foldl Progress.visited p).afterSkipped tag) after
        pure (first ++ more)
      else do
        let (text, outcome) ← taggedText e fillings nesting scope tag.directives n
        let more ← nodes e fillings nesting scope ((vs.foldl Progress.visited p).after tag outcome) after
        pure (first ++ (text ++ more))).run s' := by
  rw [nodes_append_visits, Rendering.run_bind, h]
  simp only [nodes_cons, sibling, htag]
  split
  · simp
  · simp

end Render

open Render in
/-- In a compiled template a fallback stands after a loop, with only blanks and comments between the two.
    Its directives are expanded, in the scope of the list, just when its own chain has not chosen, and its
    loop was reached, was not gated and had no entries; otherwise it leaves no trace. -/
theorem Template.fallback_rendered_iff {o : Dialect} {source : String} {t : Template}
    (hcompile : Template.compile o source = .ok t) {front after : List Node} {n : Node} {tag : Tag}
    (hlist : front ++ n :: after ∈ t.siblingLists) (htag : n.tag? = some tag)
    (hfallback : tag.directives.forelse?.isSome = true) :
    ∃ before m between loopTag loop, front = before ++ m :: between ∧
      (∀ k ∈ between, k.saysNothing = true) ∧ m.tag? = some loopTag ∧
      loopTag.directives.foreach? = some loop ∧
      ∀ (e : Engine) (fillings : List Filling) (nesting : Nat) (scope : Scope) (s s' : Store),
        (∀ err, (visits e fillings nesting scope {} front).run s = (.error err, s') →
          (nodes e fillings nesting scope {} (front ++ n :: after)).run s = (.error err, s')) ∧
        ∀ first vs, (visits e fillings nesting scope {} front).run s = (.ok (first, vs), s') →
          vs.map Visit.node = front ∧
          (FallsBack e scope n vs m loopTag.directives loop (vs.take before.length) →
            (nodes e fillings nesting scope {} (front ++ n :: after)).run s = (do
              let (text, outcome) ← taggedText e fillings nesting scope tag.directives n
              let more ← nodes e fillings nesting scope
                ((vs.foldl Progress.visited {}).after tag outcome) after
              pure (first ++ (text ++ more))).run s') ∧
          (¬ FallsBack e scope n vs m loopTag.directives loop (vs.take before.length) →
            (nodes e fillings nesting scope {} (front ++ n :: after)).run s = (do
              let more ← nodes e fillings nesting scope
                ((vs.foldl Progress.visited {}).afterSkipped tag) after
              pure (first ++ more)).run s') := by
  obtain ⟨hplaced, htold⟩ := Template.placed_of_compile hcompile _ hlist
  have hfalls : n.isFallback = true := (isFallback_eq htag).trans hfallback
  obtain ⟨before, m, between, hsplit, hisLoop, hbetween⟩ :=
    Siblings.exists_loop_before hplaced (Node.saysNothing_of_tag? htag) hfalls
  obtain ⟨loopTag, hm, hsome⟩ := Node.exists_tag_of_any hisLoop
  obtain ⟨loop, hloop⟩ := Option.isSome_iff_exists.1 hsome
  refine ⟨before, m, between, loopTag, loop, hsplit, hbetween, hm, hloop, ?_⟩
  intro e fillings nesting scope s s'
  constructor
  · intro err herr
    rw [nodes_append_visits, Rendering.run_bind, herr]
  · intro first vs hrun
    obtain ⟨hnodes, hhistory⟩ := history_of_run hrun
    have hskips := skips_eq_false_iff hplaced htold htag hfalls hsplit hbetween hm hloop hhistory hnodes
    have hnext := run_nodes_of_visits htag hrun after
    refine ⟨hnodes, fun hneeded => ?_, fun hnot => ?_⟩
    · rw [hnext, hskips.2 hneeded]
      rfl
    · have hpassed : (vs.foldl Progress.visited {}).skips tag = true :=
        Bool.not_eq_false _ ▸ mt hskips.1 hnot
      rw [hnext, if_pos hpassed]

theorem Value.eq_null_of_isNull {v : Value} (h : v.isNull = true) : v = .null := by
  cases v <;> first | rfl | cases h

open Render in
/-- A loop over a name that is not bound, and its fallback. -/
theorem Template.fallback_rendered_after_loop_over_null :
    ∃ t m n tag, Template.compile {} "<b :foreach=\"$xs as $x\"></b> <i :forelse></i>" = .ok t ∧
      t.children = [m, n] ∧ n.tag? = some tag ∧
      ∀ s, (nodes { loader := Loader.memory [] } [] 0 (Scope.root []) {} [m, n]).run s =
        (Prod.fst <$> taggedText { loader := Loader.memory [] } [] 0 (Scope.root [])
          tag.directives n).run s := by
  have hshape : (Template.compile {} "<b :foreach=\"$xs as $x\"></b> <i :forelse></i>").toOption.map
      (fun t => t.children.map fun n => (n.chainPlace, n.isFallback,
        (n.directives?.bind Directives.condition).isSome,
        (n.directives?.bind Directives.foreach?).map Foreach.iterable)) =
      some [(none, false, false, some "$xs"), (none, true, false, none)] := by
    decide +kernel
  have hnull : ((Functions.builtin.evaluator "$xs" (Scope.root [])).toOption.map Value.isNull) =
      some true := by
    decide +kernel
  cases hcompile : Template.compile {} "<b :foreach=\"$xs as $x\"></b> <i :forelse></i>" with
  | error e => rw [hcompile] at hshape; cases hshape
  | ok t =>
    rw [hcompile] at hshape
    obtain ⟨m, more, hchildren, hm, hmore⟩ := List.map_eq_cons_iff.1 (Option.some.inj hshape)
    obtain ⟨n, none, rfl, hn, hnone⟩ := List.map_eq_cons_iff.1 hmore
    obtain rfl := List.map_eq_nil_iff.1 hnone
    simp only [Prod.mk.injEq] at hm hn
    obtain ⟨hmPlace, -, hmCondition, hmIterable⟩ := hm
    obtain ⟨hnPlace, hnFallback, -⟩ := hn
    have hlist : [m] ++ n :: [] ∈ t.siblingLists := by
      rw [Template.siblingLists, hchildren]
      exact Siblings.mem_lists_self _
    obtain ⟨tag, htag, hfallback⟩ := Node.exists_tag_of_any hnFallback
    obtain ⟨before, m', between, loopTag, loop, hsplit, -, hm, hloop, hrun⟩ :=
      Template.fallback_rendered_iff hcompile hlist htag hfallback
    obtain ⟨rfl, rfl, rfl⟩ : before = [] ∧ m = m' ∧ between = [] := by
      cases before with
      | nil => simpa using hsplit
      | cons => simp at hsplit
    refine ⟨t, m, n, tag, rfl, hchildren, htag, fun s => ?_⟩
    -- the loop has no condition, and the name is not bound
    have hdirectives : m.directives? = some loopTag.directives := by rw [Node.directives?, hm]; rfl
    have hcondition : loopTag.directives.condition = none := by simpa [hdirectives] using hmCondition
    have hiterable : loop.iterable = "$xs" := by simpa [hdirectives, hloop] using hmIterable
    have hentries : Expansion.entries Functions.builtin.evaluator loop (Scope.root []) = .ok [] := by
      unfold Expansion.entries
      rw [hiterable]
      cases hvalue : Functions.builtin.evaluator "$xs" (Scope.root []) with
      | error err => rw [hvalue] at hnull; cases hnull
      | ok v =>
        rw [hvalue] at hnull
        obtain rfl := Value.eq_null_of_isNull (Option.some.inj hnull)
        rfl
    have hexpand := Expansion.expand_eq_of_expands (.loop hcondition hloop (.empty hentries))
    have hvisits : visits { loader := Loader.memory [] } [] 0 (Scope.root []) {} [m] =
        pure ("", [⟨m, some ⟨false, .empty⟩⟩]) := by
      have hskips : ({} : Progress).skips loopTag = false := by
        rw [← Bool.not_eq_true, skips_iff hm]
        simp [isFallback_of_foreach? hm hloop]
      simp [visits, visit, hm, hskips, taggedText, hexpand, evaluated]
    have hneeded : FallsBack { loader := Loader.memory [] } (Scope.root []) n
        [⟨m, some ⟨false, .empty⟩⟩] m loopTag.directives loop [] := by
      refine ⟨?_, ?_, ?_, hentries⟩
      · simp [Node.Continues, hnPlace]
      · simp [Node.Continues, hmPlace]
      · simp [hcondition]
    obtain ⟨-, hok⟩ := hrun { loader := Loader.memory [] } [] 0 (Scope.root []) s s
    obtain ⟨-, hfalls, -⟩ := hok "" _ (by rw [hvisits]; rfl)
    rw [List.singleton_append] at hfalls
    rw [hfalls hneeded]
    simp [nodes]

end Stencil
