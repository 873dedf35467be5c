import Mathlib.Data.List.MinMax
import Mathlib.Order.Nat
import Stencil.Proofs.View.Calls
/-
  How deep the calls of rendering are nested.

  Two limits are counted where rendering goes deeper: the elements and components that are open, and the
  components whose content is still to be filled in.  A slot marker counts towards neither, and leads out
  of the template it stands in.  But it takes a filling away, or goes into its own fallback; so between two
  tags there are no more markers than slot markers can stand inside each other, for each filling and once
  more.

  Every call has some room, by what it has left to do, and no call takes more from the one below it than that
  one has.  This is the invariant of a step.  The main statement is that rendering ends, and that at every
  moment the two limits are kept and the calls fit into a room which the limits and the greatest nesting of
  slot markers decide.
-/

namespace Stencil

/-! ## Slot markers inside each other -/

namespace Node

mutual

/-- How many slot markers stand inside each other in a node. -/
def slotNesting : Node → Nat
  | .text .. | .expression .. | .comment .. => 0
  | .element _ _ children _ => slotNestingAll children
  | .component _ children slots _ => max (slotNestingAll children) (slotNestingSlots slots)
  | .slot _ fallback _ => slotNestingAll fallback + 1
termination_by structural n => n

/-- How many slot markers stand inside each other in a list of nodes. -/
def slotNestingAll : List Node → Nat
  | [] => 0
  | n :: ns => max (slotNesting n) (slotNestingAll ns)
termination_by structural ns => ns

/-- How many slot markers stand inside each other in the content of a named slot. -/
def slotNestingSlots : List (String × List Node) → Nat
  | [] => 0
  | (_, ns) :: slots => max (slotNestingAll ns) (slotNestingSlots slots)
termination_by structural slots => slots

end

theorem slotNestingAll_le_slots {slots : List (String × List Node)} {slot : String × List Node}
    (h : slot ∈ slots) : slotNestingAll slot.2 ≤ slotNestingSlots slots := by
  induction slots with
  | nil => cases h
  | cons first slots ih =>
    rw [slotNestingSlots]
    rcases List.mem_cons.1 h with rfl | h
    · exact Nat.le_max_left _ _
    · exact Nat.le_trans (ih h) (Nat.le_max_right _ _)

end Node

open Node

/-- The greatest number of slot markers inside each other in a template. -/
def Template.slotNesting (t : Template) : Nat := slotNestingAll t.children

/-- The templates that rendering a template may need: itself, those in the store, and those that registered
    components compile to. -/
def Engine.templatesFor (e : Engine) (t : Template) (s : Store) : List Template :=
  t :: (s.entries.map Prod.snd ++
    e.registry.definitions.filterMap fun d => (e.compileFresh d.source).toOption)

/-- The greatest number of slot markers inside each other in the templates that rendering may need. -/
def Engine.slotNesting (e : Engine) (t : Template) (s : Store) : Nat :=
  ((e.templatesFor t s).map Template.slotNesting).foldr max ⊥

/-! ## What a slot marker is filled with -/

namespace SlotSupply

/-- No more than so many slot markers stand inside each other in the content of a caller. -/
structure Within (depth : Nat) (content : SlotSupply) : Prop where
  default : slotNestingAll content.default ≤ depth
  named : slotNestingSlots content.named ≤ depth

theorem Within.select {depth : Nat} {content : SlotSupply} (h : content.Within depth)
    {name : Option String} {ns : List Node} (hns : content.select name = some ns) :
    slotNestingAll ns ≤ depth := by
  have hfound := (Option.filter_eq_some_iff.1 hns).1
  have hnamed : ∀ name, Ordered.get? content.named name = some ns → slotNestingAll ns ≤ depth :=
    fun name hget => Nat.le_trans (slotNestingAll_le_slots (Ordered.mem_of_get?_eq_some hget)) h.named
  cases name with
  | none =>
    obtain rfl := Option.some.inj hfound
    exact h.default
  | some name =>
    dsimp only at hfound
    split at hfound
    · obtain rfl := Option.some.inj hfound
      exact h.default
    · exact hnamed name hfound

end SlotSupply

/-! ## Room for calls -/

/-- The calls between two tags that are open one inside the other, the second one with its own: the rounds
    and the single tag, the siblings inside it, and slot markers with their siblings. -/
def callsPerTag (maxComponentDepth slotNesting : Nat) : Nat :=
  4 + 2 * slotNesting * (maxComponentDepth + 1)

/-- The number of calls that are nested at most. -/
def callBound (maxDepth maxComponentDepth slotNesting : Nat) : Nat :=
  maxDepth * callsPerTag maxComponentDepth slotNesting + 2 * slotNesting + 3

namespace Call

/-- Whether a call is that of an element or a component that is open. -/
def isTag : Call → Bool
  | .opened .. => true
  | .waiting isTag _ => isTag
  | _ => false

/-- The fillings that a call has. -/
def fillings : Call → List Filling
  | .siblings site .. | .rounds site .. | .single site _ | .opened site _ | .slot site .. => site.fillings
  | .waiting .. => []

/-- How many elements and components are open. -/
def tagsOpen (calls : List Call) : Nat := calls.countP isTag

theorem tagsOpen_cons_of_isTag {call : Call} {below : List Call} (h : call.isTag = true) :
    tagsOpen (call :: below) = tagsOpen below + 1 := List.countP_cons_of_pos h

theorem tagsOpen_cons_of_not_isTag {call : Call} {below : List Call} (h : call.isTag = false) :
    tagsOpen (call :: below) = tagsOpen below := List.countP_cons_of_neg (by simp [h])

end Call

section Room

variable (e : Engine) (depth : Nat)

/-- The calls that open tags may still need, inside those that are open. -/
def Engine.roomForTags (nesting : Nat) : Nat :=
  (e.options.maxDepth - nesting) * callsPerTag e.options.maxComponentDepth depth

/-- So many calls fit on top of others. -/
def Engine.HasRoom (below : List Call) (calls : Nat) : Prop :=
  below.length + calls ≤ callBound e.options.maxDepth e.options.maxComponentDepth depth

/-- A call at a site keeps both limits, and its fillings have no more slot markers inside each other. -/
structure Site.Keeps (nesting : Nat) (site : Site) : Prop where
  nesting_eq : site.nesting = nesting
  nesting_le : site.nesting ≤ e.options.maxDepth
  fillings_le : site.fillings.length ≤ e.options.maxComponentDepth
  within : ∀ filling ∈ site.fillings, filling.content.Within depth

/-- A call keeps the limits on top of others, and has the room that what it has left to do may need. -/
inductive Call.Keeps : Call → List Call → Prop where
  | siblings {site : Site} {p : Progress} {left : List Node} {below : List Call}
      (hsite : site.Keeps e depth (tagsOpen below)) (hleft : slotNestingAll left ≤ depth)
      (hroom : e.HasRoom depth below
        (3 + e.roomForTags depth site.nesting + 2 * depth * site.fillings.length + 2 * slotNestingAll left)) :
      Keeps (.siblings site p left) below
  | rounds {site : Site} {n : Node} {left : List Scope} {outcome : Except EvalError Outcome}
      {below : List Call} (hsite : site.Keeps e depth (tagsOpen below)) (hn : slotNesting n ≤ depth)
      (hroom : e.HasRoom depth below (2 + e.roomForTags depth site.nesting)) :
      Keeps (.rounds site n left outcome) below
  | single {site : Site} {n : Node} {below : List Call} (hsite : site.Keeps e depth (tagsOpen below))
      (hn : slotNesting n ≤ depth) (hroom : e.HasRoom depth below (1 + e.roomForTags depth site.nesting)) :
      Keeps (.single site n) below
  | opened {site : Site} {n : Node} {below : List Call} (hsite : site.Keeps e depth (tagsOpen below + 1))
      (hn : slotNesting n ≤ depth)
      (hroom : e.HasRoom depth below
        (callsPerTag e.options.maxComponentDepth depth + e.roomForTags depth site.nesting)) :
      Keeps (.opened site n) below
  | slot {site : Site} {name : Option String} {fallback : List Node} {below : List Call}
      (hsite : site.Keeps e depth (tagsOpen below)) (hfallback : slotNestingAll fallback ≤ depth)
      (hroom : e.HasRoom depth below
        (4 + e.roomForTags depth site.nesting + 2 * depth * site.fillings.length +
          2 * slotNestingAll fallback)) :
      Keeps (.slot site name fallback) below
  | waiting {isTag : Bool} {closing : String} {below : List Call}
      (hnesting : tagsOpen (.waiting isTag closing :: below) ≤ e.options.maxDepth)
      (hroom : e.HasRoom depth below 1) : Keeps (.waiting isTag closing) below

/-- Every call keeps the limits on top of those below it. -/
inductive Call.Stacked : List Call → Prop where
  | nil : Stacked []
  | cons {call : Call} {below : List Call} (h : call.Keeps e depth below) (hbelow : Stacked below) :
      Stacked (call :: below)

/-- The templates of components have no more slot markers inside each other, whether the store has them or
    they are compiled. -/
structure Engine.Serves (s : Store) : Prop where
  stored : s.All fun _ t => t.slotNesting ≤ depth
  registered : ∀ {name : String} {d : RegisteredComponent} {t : Template},
    e.registry.get? name = some d → e.compileFresh d.source = .ok t → t.slotNesting ≤ depth

/-- Where rendering goes on the calls are stacked, and the store serves. -/
def Phase.Keeps : Phase → Prop
  | .running calls _ s => Call.Stacked e depth calls ∧ e.Serves depth s
  | .ended .. => True

end Room

variable {e : Engine} {depth : Nat}

/-! ## Components -/

/-- A component that is served has no more slot markers inside each other, and leaves a store that serves. -/
theorem Engine.Serves.componentIn {s left : Store} (h : e.Serves depth s) {name : String} {t : Template}
    (ht : e.componentIn name s = (.ok t, left)) : t.slotNesting ≤ depth ∧ e.Serves depth left := by
  unfold Engine.componentIn at ht
  cases hd : e.registry.get? name with
  | none =>
    rw [hd] at ht
    cases ht
  | some d =>
    rw [hd] at ht
    dsimp only at ht
    rcases e.compileUnder_cases (.component d.name) d.source s with
      ⟨kept, -, hget, heq⟩ | ⟨fresh, -, -, hfresh, heq⟩ | ⟨-, heq⟩
    · obtain ⟨hok, rfl⟩ := Prod.mk.inj (heq.symm.trans ht)
      obtain rfl := Except.ok.inj hok
      exact ⟨h.stored _ _ hget, h⟩
    · obtain ⟨hok, rfl⟩ := Prod.mk.inj (heq.symm.trans ht)
      obtain rfl := Except.ok.inj hok
      have hle := h.registered hd hfresh
      exact ⟨hle, h.stored.insert fun _ _ => hle, h.registered⟩
    · obtain ⟨hok, rfl⟩ := Prod.mk.inj (heq.symm.trans ht)
      exact ⟨h.registered hd hok, h⟩

/-- Of a template, the store and the registry nothing has more slot markers inside each other than the
    greatest number of them. -/
theorem Engine.slotNesting_le {t : Template} {s : Store} {t' : Template} (h : t' ∈ e.templatesFor t s) :
    t'.slotNesting ≤ e.slotNesting t s :=
  List.le_max_of_le (List.mem_map_of_mem h) (Nat.le_refl _)

theorem Engine.serves_slotNesting (e : Engine) (t : Template) (s : Store) :
    e.Serves (e.slotNesting t s) s := by
  constructor
  · intro key t' hget
    obtain ⟨entry, hfound, rfl⟩ := Option.map_eq_some_iff.1 hget
    exact slotNesting_le (List.mem_cons_of_mem _ (List.mem_append_left _
      (List.mem_map_of_mem (List.mem_of_find?_eq_some hfound))))
  · intro name d t' hd hfresh
    have hmem : d ∈ e.registry.definitions := List.mem_map_of_mem (Ordered.mem_of_get?_eq_some hd)
    refine slotNesting_le (List.mem_cons_of_mem _ (List.mem_append_right _
      (List.mem_filterMap.2 ⟨d, hmem, ?_⟩)))
    rw [hfresh]
    rfl

/-! ## Steps -/

/-- A tag that may be opened takes its calls from the room that is left for tags. -/
theorem Engine.roomForTags_succ (depth : Nat) {nesting : Nat} (h : nesting < e.options.maxDepth) :
    e.roomForTags depth nesting =
      callsPerTag e.options.maxComponentDepth depth + e.roomForTags depth (nesting + 1) := by
  obtain ⟨more, hmore⟩ : ∃ more, e.options.maxDepth - nesting = more + 1 :=
    ⟨e.options.maxDepth - nesting - 1, by omega⟩
  have hless : e.options.maxDepth - (nesting + 1) = more := by omega
  rw [roomForTags, roomForTags, hmore, hless, Nat.succ_mul, Nat.add_comm]

/-- Siblings and the slot markers inside them need no more than a tag leaves for them. -/
theorem calls_inside_le {fillings maxComponentDepth nested : Nat} (hfillings : fillings ≤ maxComponentDepth)
    (hnested : nested ≤ depth) :
    4 + 2 * depth * fillings + 2 * nested ≤ callsPerTag maxComponentDepth depth := by
  have hmul : 2 * depth * fillings ≤ 2 * depth * maxComponentDepth := Nat.mul_le_mul_left _ hfillings
  rw [callsPerTag, Nat.mul_add]
  omega

/-- A call that is no tag opens none. -/
theorem Site.Keeps.on {site : Site} {call : Call} {below : List Call}
    (h : site.Keeps e depth (Call.tagsOpen below)) (hcall : call.isTag = false) :
    site.Keeps e depth (Call.tagsOpen (call :: below)) := by
  rwa [Call.tagsOpen_cons_of_not_isTag hcall]

theorem Site.Keeps.tagsOpen_le {site : Site} {call : Call} {below : List Call}
    (h : site.Keeps e depth (Call.tagsOpen below)) (hcall : call.isTag = false) :
    Call.tagsOpen (call :: below) ≤ e.options.maxDepth :=
  (h.on hcall).nesting_eq ▸ h.nesting_le

theorem Engine.hasRoom_cons {call : Call} {below : List Call} {calls : Nat} :
    e.HasRoom depth (call :: below) calls ↔ e.HasRoom depth below (1 + calls) := by
  unfold HasRoom
  rw [List.length_cons, Nat.add_assoc]

theorem Engine.HasRoom.mono {below : List Call} {calls fewer : Nat} (h : e.HasRoom depth below calls)
    (hle : fewer ≤ calls) : e.HasRoom depth below fewer :=
  Nat.le_trans (Nat.add_le_add_left hle _) h

namespace Call

open Phase

variable {call : Call} {site : Site} {below : List Call} {written : String} {s : Store} {n : Node}

/-- Siblings that are left of others keep the limits with them. -/
theorem keeps_rest {p q : Progress} {rest : List Node}
    (h : Keeps e depth (.siblings site p (n :: rest)) below) :
    Keeps e depth (.siblings site q rest) below := by
  cases h with
  | siblings hsite hleft hroom =>
    have hrest : slotNestingAll rest ≤ slotNestingAll (n :: rest) := Nat.le_max_right _ _
    exact .siblings hsite (Nat.le_trans hrest hleft) (hroom.mono (by omega))

/-- A tag that siblings have come to leaves the other siblings, and its rounds on top of them. -/
theorem stacked_reached {p : Progress} {tag : Tag} {rest : List Node}
    (h : Keeps e depth (.siblings site p (n :: rest)) below) (hbelow : Stacked e depth below) :
    Stacked e depth (reached e site p tag n rest ++ below) := by
  have hrest := fun q => keeps_rest (q := q) h
  unfold reached
  split
  · exact .cons (hrest _) hbelow
  · refine .cons ?_ (.cons (hrest _) hbelow)
    cases h with
    | siblings hsite hleft hroom =>
      have hn : slotNesting n ≤ slotNestingAll (n :: rest) := Nat.le_max_left _ _
      exact .rounds (hsite.on rfl) (Nat.le_trans hn hleft) (Engine.hasRoom_cons.2 (hroom.mono (by omega)))

/-- What fills a slot marker keeps the limits on top of the call of the marker. -/
theorem keeps_filled {name : Option String} {fallback : List Node}
    (h : Keeps e depth (.slot site name fallback) below) :
    Keeps e depth (filled site name fallback) (.waiting false "" :: below) := by
  cases h with
  | slot hsite hfallback hroom =>
    have hself : Keeps e depth (.siblings site {} fallback) (.waiting false "" :: below) :=
      .siblings (hsite.on rfl) hfallback (Engine.hasRoom_cons.2 (hroom.mono (by omega)))
    unfold filled
    split
    · exact hself
    · next filling outer hfillings =>
      split
      · next content hselect =>
        have hcontent : slotNestingAll content ≤ depth :=
          (hsite.within filling (hfillings ▸ List.mem_cons_self)).select hselect
        have hlength : site.fillings.length = outer.length + 1 := by rw [hfillings, List.length_cons]
        -- one filling less makes room for the slot markers in what it holds
        have hmul : 2 * depth * site.fillings.length = 2 * depth * outer.length + 2 * depth := by
          rw [hlength, Nat.mul_succ]
        refine .siblings ⟨(hsite.on rfl).nesting_eq, hsite.nesting_le, ?_, ?_⟩ hcontent
          (Engine.hasRoom_cons.2 (hroom.mono ?_))
        · have hle := hsite.fillings_le
          dsimp only
          omega
        · exact fun filling hmem => hsite.within filling (hfillings ▸ List.mem_cons_of_mem _ hmem)
        · dsimp only
          omega
      · exact hself

theorem keeps_next_single (h : Keeps e depth (.single site n) below) (hbelow : Stacked e depth below)
    (hs : e.Serves depth s) : Phase.Keeps e depth (next e below written s (.single site n)) := by
  cases h with
  | single hsite hn hroom =>
    rw [next]
    split
    · exact ⟨hbelow, hs⟩
    · split
      · next hnesting =>
        have hopen := hsite.nesting_eq
        have hsucc := Engine.roomForTags_succ depth hnesting
        refine ⟨.cons (.opened ⟨?_, hnesting, hsite.fillings_le, hsite.within⟩ hn ?_) (.cons ?_ hbelow), hs⟩
        · rw [tagsOpen_cons_of_not_isTag rfl]
          exact congrArg (· + 1) hopen
        · exact Engine.hasRoom_cons.2 (hroom.mono (by dsimp only; omega))
        · exact .waiting (hsite.tagsOpen_le rfl) (hroom.mono (by omega))
      · trivial

theorem keeps_next_opened (h : Keeps e depth (.opened site n) below) (hbelow : Stacked e depth below)
    (hs : e.Serves depth s) : Phase.Keeps e depth (next e below written s (.opened site n)) := by
  cases h with
  | opened hsite hn hroom =>
    have hopen : ∀ closing, site.Keeps e depth (tagsOpen (.waiting true closing :: below)) := by
      intro closing
      rwa [tagsOpen_cons_of_isTag rfl]
    have hwaiting : ∀ closing, Stacked e depth (.waiting true closing :: below) := by
      intro closing
      refine .cons (.waiting ?_ (hroom.mono (by rw [callsPerTag]; omega))) hbelow
      exact (hopen closing).nesting_eq ▸ hsite.nesting_le
    cases n with
    | element tag selfClosing children span =>
      rw [next]
      split
      · trivial
      · split
        · exact ⟨hbelow, hs⟩
        · have hinside := calls_inside_le hsite.fillings_le hn
          refine ⟨.cons (.siblings (hopen _) hn ?_) (hwaiting _), hs⟩
          exact Engine.hasRoom_cons.2 (hroom.mono (by rw [slotNesting] at hinside; omega))
    | component tag children slots span =>
      rw [next]
      split
      · next hfillings =>
        split
        · trivial
        · next template left htemplate =>
          obtain ⟨hnested, hs⟩ := hs.componentIn htemplate
          split
          · trivial
          · have hfilled : site.fillings.length + 1 ≤ e.options.maxComponentDepth := hfillings
            have hinside := calls_inside_le hfilled hnested
            refine ⟨.cons (.siblings ⟨(hopen _).nesting_eq, hsite.nesting_le, hfilled, ?_⟩ hnested ?_)
              (hwaiting _), hs⟩
            · refine List.forall_mem_cons.2 ⟨⟨?_, ?_⟩, hsite.within⟩
              · exact Nat.le_trans (Nat.le_max_left _ _) hn
              · exact Nat.le_trans (Nat.le_max_right _ _) hn
            · refine Engine.hasRoom_cons.2 (hroom.mono ?_)
              rw [Template.slotNesting] at hinside
              dsimp only [List.length_cons]
              omega
      · trivial
    | text => exact ⟨hbelow, hs⟩
    | comment => exact ⟨hbelow, hs⟩
    | expression => exact ⟨hbelow, hs⟩
    | slot => exact ⟨hbelow, hs⟩

/-- A step keeps the calls stacked. -/
theorem keeps_next (h : call.Keeps e depth below) (hbelow : Stacked e depth below)
    (hs : e.Serves depth s) : Phase.Keeps e depth (call.next e below written s) := by
  cases call with
  | siblings site p left =>
    cases left with
    | nil => exact ⟨hbelow, hs⟩
    | cons n rest =>
      have hrest : Stacked e depth (.siblings site p rest :: below) := .cons (keeps_rest h) hbelow
      cases n with
      | text => exact ⟨hrest, hs⟩
      | comment => exact ⟨hrest, hs⟩
      | expression source escaped span =>
        rw [next]
        split
        · exact ⟨hrest, hs⟩
        · trivial
      | slot name fallback span =>
        refine ⟨.cons ?_ hrest, hs⟩
        cases h with
        | siblings hsite hleft hroom =>
          have hmarker : slotNestingAll fallback + 1 ≤ slotNestingAll (.slot name fallback span :: rest) :=
            Nat.le_max_left _ _
          exact .slot (hsite.on rfl) (by omega) (Engine.hasRoom_cons.2 (hroom.mono (by omega)))
      | element => exact ⟨stacked_reached h hbelow, hs⟩
      | component => exact ⟨stacked_reached h hbelow, hs⟩
  | rounds site n left outcome =>
    cases left with
    | nil =>
      cases outcome with
      | ok outcome => exact ⟨hbelow, hs⟩
      | error err => trivial
    | cons inner left =>
      cases h with
      | rounds hsite hn hroom =>
        refine ⟨.cons ?_ (.cons (.rounds hsite hn hroom) hbelow), hs⟩
        refine .single ⟨?_, hsite.nesting_le, hsite.fillings_le, hsite.within⟩ hn
          (Engine.hasRoom_cons.2 (hroom.mono (by dsimp only; omega)))
        exact (hsite.on rfl).nesting_eq
  | single site n => exact keeps_next_single h hbelow hs
  | opened site n => exact keeps_next_opened h hbelow hs
  | slot site name fallback =>
    refine ⟨.cons (keeps_filled h) (.cons ?_ hbelow), hs⟩
    cases h with
    | slot hsite hfallback hroom =>
      exact .waiting (hsite.tagsOpen_le rfl) (hroom.mono (by omega))
  | waiting => exact ⟨hbelow, hs⟩

/-! ## Moments -/

/-- At most as many elements and components are open as the limit says. -/
theorem Keeps.tagsOpen_le (h : call.Keeps e depth below) :
    tagsOpen (call :: below) ≤ e.options.maxDepth := by
  cases h with
  | siblings hsite => exact hsite.tagsOpen_le rfl
  | rounds hsite => exact hsite.tagsOpen_le rfl
  | single hsite => exact hsite.tagsOpen_le rfl
  | opened hsite =>
    rw [tagsOpen_cons_of_isTag rfl]
    exact hsite.nesting_eq ▸ hsite.nesting_le
  | slot hsite => exact hsite.tagsOpen_le rfl
  | waiting hnesting => exact hnesting

theorem Keeps.fillings_le (h : call.Keeps e depth below) :
    call.fillings.length ≤ e.options.maxComponentDepth := by
  cases h with
  | siblings hsite => exact hsite.fillings_le
  | rounds hsite => exact hsite.fillings_le
  | single hsite => exact hsite.fillings_le
  | opened hsite => exact hsite.fillings_le
  | slot hsite => exact hsite.fillings_le
  | waiting => exact Nat.zero_le _

/-- Every call has room for itself. -/
theorem Keeps.hasRoom (h : call.Keeps e depth below) : e.HasRoom depth below 1 := by
  cases h with
  | siblings _ _ hroom => exact hroom.mono (by omega)
  | rounds _ _ hroom => exact hroom.mono (by omega)
  | single _ _ hroom => exact hroom.mono (by omega)
  | opened _ _ hroom => exact hroom.mono (by rw [callsPerTag]; omega)
  | slot _ _ hroom => exact hroom.mono (by omega)
  | waiting _ hroom => exact hroom

theorem Stacked.fillings_le {calls : List Call} (h : Stacked e depth calls) :
    ∀ call ∈ calls, call.fillings.length ≤ e.options.maxComponentDepth := by
  induction h with
  | nil => exact fun _ hmem => absurd hmem List.not_mem_nil
  | cons hcall _ ih => exact List.forall_mem_cons.2 ⟨hcall.fillings_le, ih⟩

end Call

namespace Phase

theorem keeps_next {p : Phase} (h : p.Keeps e depth) : (p.next e).Keeps e depth := by
  cases p with
  | ended => trivial
  | running calls written s =>
    obtain ⟨hcalls, hs⟩ := h
    cases hcalls with
    | nil => trivial
    | cons hcall hbelow => exact Call.keeps_next hcall hbelow hs

theorem keeps_iterate {p : Phase} (h : p.Keeps e depth) (k : Nat) : ((next e)^[k] p).Keeps e depth := by
  induction k with
  | zero => exact h
  | succ k ih =>
    rw [Function.iterate_succ_apply']
    exact keeps_next ih

/-- Rendering starts with the siblings of the template, with no tags open and nothing to fill in. -/
theorem keeps_start (e : Engine) (t : Template) (bindings : Bindings) (s : Store) :
    (start t bindings s).Keeps e (e.slotNesting t s) := by
  have hself : slotNestingAll t.children ≤ e.slotNesting t s :=
    Engine.slotNesting_le (List.mem_cons_self)
  refine ⟨.cons (.siblings ⟨rfl, Nat.zero_le _, Nat.zero_le _, ?_⟩ hself ?_) .nil,
    e.serves_slotNesting t s⟩
  · exact fun _ hmem => absurd hmem List.not_mem_nil
  · unfold Engine.HasRoom callBound Engine.roomForTags
    simp only [List.length_nil, Nat.sub_zero, Nat.mul_zero]
    omega

/-- Rendering ends after some steps, with its answer and the store it leaves.  At every moment before that no
    more elements and components are open than the limit allows, no call has more fillings than the limit
    of components, and the nested calls are bounded by a number which only these limits and the greatest
    nesting of slot markers decide. -/
theorem start_ends_within (e : Engine) (t : Template) (bindings : Bindings) (s : Store) :
    (∃ k, (next e)^[k] (start t bindings s) =
      .ended ((Render.template e t bindings).answer s) ((Render.template e t bindings).storeAfter s)) ∧
    ∀ k calls written s', (next e)^[k] (start t bindings s) = .running calls written s' →
      Call.tagsOpen calls ≤ e.options.maxDepth ∧
        (∀ call ∈ calls, call.fillings.length ≤ e.options.maxComponentDepth) ∧
        calls.length ≤
          callBound e.options.maxDepth e.options.maxComponentDepth (e.slotNesting t s) := by
  refine ⟨start_leads e t bindings s, fun k calls written s' hk => ?_⟩
  have hkeeps := keeps_iterate (keeps_start e t bindings s) k
  rw [hk] at hkeeps
  obtain ⟨hcalls, -⟩ := hkeeps
  refine ⟨?_, hcalls.fillings_le, ?_⟩
  · cases hcalls with
    | nil => exact Nat.zero_le _
    | cons hcall _ => exact hcall.tagsOpen_le
  · cases hcalls with
    | nil => exact Nat.zero_le _
    | cons hcall _ => exact hcall.hasRoom

end Phase

end Stencil
