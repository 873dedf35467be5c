import Mathlib.Data.List.Forall2
import Stencil.Template.Parser
/-
  How the attributes of a tag are sorted.

  The attributes are taken in the order in which they are written.  Each is a condition, a loop directive, or
  is kept, by its name; a second condition and a second loop directive are refused.  So the directives of
  a tag can be traced to the attributes they were written as by their positions, and which of two was
  written first is told by comparing these.

  One attribute changes what has been sorted in one of three ways; what holds of the sorted attributes
  holds by going through the attributes from the first to the last.
-/

namespace Stencil

/-- The place of a loop directive among all attributes of its tag. -/
def LoopDirective.position : LoopDirective → Nat
  | .foreach loop => loop.position
  | .forelse fallback => fallback.position

/-- The span of the attribute a loop directive was written as. -/
def LoopDirective.span : LoopDirective → Span
  | .foreach loop => loop.span
  | .forelse fallback => fallback.span

theorem Directives.interplay_eq_conditionBeforeLoop {d : Directives} :
    d.interplay = .conditionBeforeLoop ↔ ∃ c loop, d.condition = some c ∧ d.loop = some (.foreach loop) ∧
      c.position < loop.position := by
  obtain ⟨condition, loop⟩ := d
  rcases condition with _ | c <;> rcases loop with _ | loop | fallback <;>
    simp [Directives.interplay, Directives.foreach?]

namespace Tag

/-- The names of the conditional directives. -/
def conditionNames : List String := [":if", ":elseif", ":else"]

/-- The names of the loop directives. -/
def loopNames : List String := [":foreach", ":forelse"]

/-- The attributes that are no directives, in order. -/
def undirected (written : List WrittenAttribute) : List WrittenAttribute :=
  written.filter fun a => a.name ∉ conditionNames ++ loopNames

/-- An attribute is kept: with one colon of two left out, as an expression with its one colon left out, or
    as it was written. -/
inductive KeptAs (a : WrittenAttribute) : Attribute → Prop where
  | escaped {name : List Char} (hname : a.name.toList = ':' :: ':' :: name) :
      KeptAs a ⟨String.ofList (':' :: name), literalValue a.value, a.span⟩
  | computed {name : List Char} {value : String} (hname : a.name.toList = ':' :: name)
      (hcolon : name.head? ≠ some ':') (hvalue : a.value = some value) :
      KeptAs a ⟨String.ofList name, .expression value, a.span⟩
  | plain (hname : a.name.toList.head? ≠ some ':') : KeptAs a ⟨a.name, literalValue a.value, a.span⟩

/-- An attribute is a condition with this test; the value of `:else` does not count. -/
inductive ConditionFrom (a : WrittenAttribute) : Test → Prop where
  | ifTrue {value : String} (hname : a.name = ":if") (hvalue : a.value = some value) :
      ConditionFrom a (.ifTrue value)
  | elseIf {value : String} (hname : a.name = ":elseif") (hvalue : a.value = some value) :
      ConditionFrom a (.elseIf value)
  | otherwise (hname : a.name = ":else") : ConditionFrom a .otherwise

/-- An attribute at a position is this loop directive. -/
inductive LoopFrom (a : WrittenAttribute) (position : Nat) : LoopDirective → Prop where
  | foreach {value : String} {loop : Foreach} (hname : a.name = ":foreach") (hvalue : a.value = some value)
      (h : Foreach.parse value position a.span = .ok loop) : LoopFrom a position (.foreach loop)
  | forelse (hname : a.name = ":forelse") : LoopFrom a position (.forelse ⟨position, a.span⟩)

theorem ConditionFrom.mem {a : WrittenAttribute} {test : Test} (h : ConditionFrom a test) :
    a.name ∈ conditionNames := by
  cases h with
  | ifTrue hname => rw [hname]; decide
  | elseIf hname => rw [hname]; decide
  | otherwise hname => rw [hname]; decide

theorem LoopFrom.mem {a : WrittenAttribute} {position : Nat} {loop : LoopDirective}
    (h : LoopFrom a position loop) : a.name ∈ loopNames := by
  cases h with
  | foreach hname => rw [hname]; decide
  | forelse hname => rw [hname]; decide

/-- A loop directive has the position and the span of the attribute it was written as. -/
theorem LoopFrom.position_eq {a : WrittenAttribute} {position : Nat} {loop : LoopDirective}
    (h : LoopFrom a position loop) : loop.position = position ∧ loop.span = a.span := by
  cases h with
  | forelse => exact ⟨rfl, rfl⟩
  | foreach _ _ hparse =>
    unfold Foreach.parse at hparse
    split at hparse
    · obtain rfl := Except.ok.inj hparse
      exact ⟨rfl, rfl⟩
    · cases hparse

theorem not_mem_both {name : String} (hcondition : name ∈ conditionNames) : name ∉ loopNames := by
  simp only [conditionNames, List.mem_cons, List.not_mem_nil, or_false] at hcondition
  rcases hcondition with rfl | rfl | rfl <;> decide

/-! ## One attribute -/

theorem required_eq_ok {a : WrittenAttribute} {value : String} (h : required a = .ok value) :
    a.value = some value := by
  unfold required at h
  split at h
  next hsome => rw [hsome, Except.ok.inj h]
  next => cases h

theorem addCondition_eq_ok {s s' : Sorted} {a : WrittenAttribute} {position : Nat}
    {test : Except TemplateError Test} (h : s.addCondition a position test = .ok s') :
    s.directives.condition = none ∧ ∃ t, test = .ok t ∧
      s' = ⟨s.attributes, { s.directives with condition := some ⟨t, position, a.span⟩ }⟩ := by
  unfold Sorted.addCondition at h
  split at h
  · cases h
  · next hnone =>
    cases test with
    | error e => cases h
    | ok t => exact ⟨by simpa using hnone, t, rfl, (Except.ok.inj h).symm⟩

theorem addLoop_eq_ok {s s' : Sorted} {a : WrittenAttribute} {loop : Except TemplateError LoopDirective}
    (h : s.addLoop a loop = .ok s') :
    s.directives.loop = none ∧ ∃ l, loop = .ok l ∧
      s' = ⟨s.attributes, { s.directives with loop := some l }⟩ := by
  unfold Sorted.addLoop at h
  split at h
  · cases h
  · next hnone =>
    cases loop with
    | error e => cases h
    | ok l => exact ⟨by simpa using hnone, l, rfl, (Except.ok.inj h).symm⟩

/-- What one attribute does: it is kept, or becomes the condition, or becomes the loop directive. -/
inductive Added (s : Sorted) (a : WrittenAttribute) (position : Nat) : Sorted → Prop where
  | kept {b : Attribute} (hname : a.name ∉ conditionNames ++ loopNames) (h : KeptAs a b) :
      Added s a position (s.keep b)
  | condition {test : Test} (hnone : s.directives.condition = none) (h : ConditionFrom a test) :
      Added s a position
        ⟨s.attributes, { s.directives with condition := some ⟨test, position, a.span⟩ }⟩
  | loop {l : LoopDirective} (hnone : s.directives.loop = none) (h : LoopFrom a position l) :
      Added s a position ⟨s.attributes, { s.directives with loop := some l }⟩

/-- The names of directives, taken apart. -/
theorem forall_directiveNames {P : List Char → Prop} : (∀ name ∈ conditionNames ++ loopNames, P name.toList) ↔
    P [':', 'i', 'f'] ∧ P [':', 'e', 'l', 's', 'e', 'i', 'f'] ∧ P [':', 'e', 'l', 's', 'e'] ∧
      P [':', 'f', 'o', 'r', 'e', 'a', 'c', 'h'] ∧ P [':', 'f', 'o', 'r', 'e', 'l', 's', 'e'] := by
  simp [conditionNames, loopNames]

theorem not_mem_names {a : WrittenAttribute}
    (h : ∀ name ∈ conditionNames ++ loopNames, a.name.toList ≠ name.toList) :
    a.name ∉ conditionNames ++ loopNames := fun hmem => h _ hmem rfl

theorem added_of_add {s s' : Sorted} {a : WrittenAttribute} {position : Nat}
    (h : s.add a position = .ok s') : Added s a position s' := by
  have hnamed : ∀ name : String, a.name.toList = name.toList → a.name = name := fun _ => String.ext
  have hrequired : ∀ {α : Type} {make : String → α} {b : α}, (required a).map make = .ok b →
      ∃ value, a.value = some value ∧ b = make value := by
    intro α make b hb
    cases hvalue : required a with
    | error e =>
      rw [hvalue] at hb
      cases hb
    | ok value =>
      rw [hvalue] at hb
      exact ⟨value, required_eq_ok hvalue, (Except.ok.inj hb).symm⟩
  unfold Sorted.add at h
  split at h
  next hname =>
    obtain ⟨hnone, t, ht, rfl⟩ := addCondition_eq_ok h
    obtain ⟨value, hvalue, rfl⟩ := hrequired ht
    exact .condition hnone (.ifTrue (hnamed ":if" hname) hvalue)
  next hname =>
    obtain ⟨hnone, t, ht, rfl⟩ := addCondition_eq_ok h
    obtain ⟨value, hvalue, rfl⟩ := hrequired ht
    exact .condition hnone (.elseIf (hnamed ":elseif" hname) hvalue)
  next hname =>
    obtain ⟨hnone, t, ht, rfl⟩ := addCondition_eq_ok h
    obtain rfl := Except.ok.inj ht
    exact .condition hnone (.otherwise (hnamed ":else" hname))
  next hname =>
    obtain ⟨hnone, l, hl, rfl⟩ := addLoop_eq_ok h
    obtain ⟨value, hvalue, hl⟩ := Template.Reader.bind_eq_ok hl
    obtain ⟨loop, hloop, hl⟩ := Template.Reader.bind_eq_ok hl
    obtain rfl := Except.ok.inj hl
    exact .loop hnone (.foreach (hnamed ":foreach" hname) (required_eq_ok hvalue) hloop)
  next hname =>
    obtain ⟨hnone, l, hl, rfl⟩ := addLoop_eq_ok h
    obtain rfl := Except.ok.inj hl
    exact .loop hnone (.forelse (hnamed ":forelse" hname))
  next name hname =>
    obtain rfl := Except.ok.inj h
    refine .kept (not_mem_names (forall_directiveNames.2 ?_)) (.escaped hname)
    rw [hname]
    simp
  next name hif helseif helse hforeach hforelse hcolon hname =>
    obtain ⟨value, hvalue, h⟩ := Template.Reader.bind_eq_ok h
    obtain rfl := Except.ok.inj h
    refine .kept (not_mem_names (forall_directiveNames.2 ?_)) (.computed hname ?_ (required_eq_ok hvalue))
    · rw [hname]
      simpa using ⟨hif, helseif, helse, hforeach, hforelse⟩
    · intro hhead
      obtain ⟨more, hmore⟩ := List.head?_eq_some_iff.1 hhead
      exact hcolon more hmore
  next hif helseif helse hforeach hforelse hcolons hcolon =>
    obtain rfl := Except.ok.inj h
    refine .kept (not_mem_names (forall_directiveNames.2 ⟨hif, helseif, helse, hforeach, hforelse⟩))
      (.plain ?_)
    intro hhead
    obtain ⟨more, hmore⟩ := List.head?_eq_some_iff.1 hhead
    exact hcolon more hmore

/-! ## All attributes -/

/-- The attributes written on a tag are sorted into those that are kept and its directives: what is kept is
    what is no directive, in order, and each directive is the one attribute of its kind, at the position it
    has. -/
structure SortsInto (written : List WrittenAttribute) (attributes : List Attribute) (d : Directives) :
    Prop where
  kept : List.Forall₂ KeptAs (undirected written) attributes
  condition : ∀ c, d.condition = some c →
    ∃ a, written[c.position]? = some a ∧ ConditionFrom a c.test ∧ c.span = a.span
  conditional : ∀ i a, written[i]? = some a → a.name ∈ conditionNames →
    ∃ c, d.condition = some c ∧ c.position = i
  loop : ∀ l, d.loop = some l → ∃ a, written[l.position]? = some a ∧ LoopFrom a l.position l
  looping : ∀ i a, written[i]? = some a → a.name ∈ loopNames → ∃ l, d.loop = some l ∧ l.position = i

theorem getElem?_concat {α : Type} {xs : List α} {x y : α} {i : Nat} :
    (xs ++ [x])[i]? = some y ↔ xs[i]? = some y ∨ i = xs.length ∧ x = y := by
  rw [List.getElem?_append]
  split
  next hlt => simp [Nat.ne_of_lt hlt]
  next hge =>
    rw [List.getElem?_eq_none (Nat.le_of_not_lt hge), List.getElem?_singleton]
    by_cases heq : i = xs.length
    · simp [heq]
    · rw [if_neg (by omega)]
      simp [heq]

theorem SortsInto.nil : SortsInto [] [] {} where
  kept := .nil
  condition _ hc := by cases hc
  conditional _ _ ha := by cases ha
  loop _ hl := by cases hl
  looping _ _ ha := by cases ha

theorem undirected_concat (written : List WrittenAttribute) (a : WrittenAttribute) :
    undirected (written ++ [a])
      = if a.name ∉ conditionNames ++ loopNames then undirected written ++ [a] else undirected written := by
  rw [undirected, List.filter_append, List.filter_singleton]
  by_cases hname : a.name ∈ conditionNames ++ loopNames
  · rw [if_neg (not_not.2 hname), decide_eq_false (not_not.2 hname)]
    exact List.append_nil _
  · rw [if_pos hname, decide_eq_true hname]
    rfl

/-- One more attribute is sorted in. -/
theorem SortsInto.add {written : List WrittenAttribute} {s s' : Sorted} {a : WrittenAttribute}
    (h : SortsInto written s.attributes.reverse s.directives) (hadd : Added s a written.length s') :
    SortsInto (written ++ [a]) s'.attributes.reverse s'.directives := by
  have hold : ∀ {i : Nat} {b : WrittenAttribute}, written[i]? = some b → (written ++ [a])[i]? = some b :=
    fun hb => getElem?_concat.2 (.inl hb)
  have hnew : (written ++ [a])[written.length]? = some a := getElem?_concat.2 (.inr ⟨rfl, rfl⟩)
  have hcondition : ∀ c, s.directives.condition = some c →
      ∃ b, (written ++ [a])[c.position]? = some b ∧ ConditionFrom b c.test ∧ c.span = b.span := by
    intro c hc
    obtain ⟨b, hb, hfrom⟩ := h.condition c hc
    exact ⟨b, hold hb, hfrom⟩
  have hloop : ∀ l, s.directives.loop = some l →
      ∃ b, (written ++ [a])[l.position]? = some b ∧ LoopFrom b l.position l := by
    intro l hl
    obtain ⟨b, hb, hfrom⟩ := h.loop l hl
    exact ⟨b, hold hb, hfrom⟩
  cases hadd with
  | @kept b hname hb =>
    rw [List.mem_append, not_or] at hname
    refine ⟨?_, hcondition, ?_, hloop, ?_⟩
    · rw [undirected_concat, if_pos (by rw [List.mem_append, not_or]; exact hname), Sorted.keep,
        List.reverse_cons]
      exact List.rel_append h.kept (.cons hb .nil)
    · intro i b' hb' hmem
      rcases getElem?_concat.1 hb' with hb' | ⟨-, rfl⟩
      · exact h.conditional i b' hb' hmem
      · exact absurd hmem hname.1
    · intro i b' hb' hmem
      rcases getElem?_concat.1 hb' with hb' | ⟨-, rfl⟩
      · exact h.looping i b' hb' hmem
      · exact absurd hmem hname.2
  | @condition test hnone ha =>
    refine ⟨?_, ?_, ?_, hloop, ?_⟩
    · rw [undirected_concat, if_neg (not_not.2 (List.mem_append_left _ ha.mem))]
      exact h.kept
    · rintro c hc
      obtain rfl := Option.some.inj hc
      exact ⟨a, hnew, ha, rfl⟩
    · intro i b hb hmem
      rcases getElem?_concat.1 hb with hb | ⟨rfl, rfl⟩
      · obtain ⟨c, hc, -⟩ := h.conditional i b hb hmem
        rw [hnone] at hc
        cases hc
      · exact ⟨_, rfl, rfl⟩
    · intro i b hb hmem
      rcases getElem?_concat.1 hb with hb | ⟨-, rfl⟩
      · exact h.looping i b hb hmem
      · exact absurd hmem (not_mem_both ha.mem)
  | @loop l hnone ha =>
    obtain ⟨hposition, -⟩ := ha.position_eq
    refine ⟨?_, hcondition, ?_, ?_, ?_⟩
    · rw [undirected_concat, if_neg (not_not.2 (List.mem_append_right _ ha.mem))]
      exact h.kept
    · intro i b hb hmem
      rcases getElem?_concat.1 hb with hb | ⟨-, rfl⟩
      · exact h.conditional i b hb hmem
      · exact absurd ha.mem (not_mem_both hmem)
    · rintro l' hl'
      obtain rfl := Option.some.inj hl'
      rw [hposition]
      exact ⟨a, hnew, ha⟩
    · intro i b hb hmem
      rcases getElem?_concat.1 hb with hb | ⟨rfl, rfl⟩
      · obtain ⟨l', hl', -⟩ := h.looping i b hb hmem
        rw [hnone] at hl'
        cases hl'
      · exact ⟨l, rfl, hposition⟩

theorem sortsInto_of_sortFrom {done written : List WrittenAttribute} {s s' : Sorted}
    (h : SortsInto done s.attributes.reverse s.directives)
    (hsort : sortFrom s done.length written = .ok s') :
    SortsInto (done ++ written) s'.attributes.reverse s'.directives := by
  induction written generalizing done s with
  | nil =>
    obtain rfl := Except.ok.inj hsort
    rw [List.append_nil]
    exact h
  | cons a written ih =>
    obtain ⟨s₁, hs₁, hsort⟩ := Template.Reader.bind_eq_ok hsort
    have hmore := ih (h.add (added_of_add hs₁)) (by rw [List.length_append]; exact hsort)
    rwa [List.append_assoc] at hmore

/-- The attributes of a tag that is read are sorted into the attributes and the directives it has. -/
theorem sortsInto_of_sort {written : List WrittenAttribute} {attributes : List Attribute} {d : Directives}
    (h : sort written = .ok (attributes, d)) : SortsInto written attributes d := by
  obtain ⟨s, hs, h⟩ := Template.Reader.bind_eq_ok h
  obtain ⟨rfl, rfl⟩ := Prod.mk.inj (Except.ok.inj h)
  have hstart : SortsInto [] (Sorted.mk [] {}).attributes.reverse (Sorted.mk [] {}).directives := .nil
  exact sortsInto_of_sortFrom hstart hs

namespace SortsInto

variable {written : List WrittenAttribute} {attributes : List Attribute} {d : Directives}

/-- At most one attribute is a condition. -/
theorem conditional_unique (h : SortsInto written attributes d) {i j : Nat} {a b : WrittenAttribute}
    (ha : written[i]? = some a) (hb : written[j]? = some b) (hcondition : a.name ∈ conditionNames)
    (hcondition' : b.name ∈ conditionNames) : i = j := by
  obtain ⟨c, hc, rfl⟩ := h.conditional i a ha hcondition
  obtain ⟨c', hc', rfl⟩ := h.conditional j b hb hcondition'
  rw [Option.some.inj (hc.symm.trans hc')]

/-- At most one attribute is a loop directive. -/
theorem looping_unique (h : SortsInto written attributes d) {i j : Nat} {a b : WrittenAttribute}
    (ha : written[i]? = some a) (hb : written[j]? = some b) (hloop : a.name ∈ loopNames)
    (hloop' : b.name ∈ loopNames) : i = j := by
  obtain ⟨l, hl, rfl⟩ := h.looping i a ha hloop
  obtain ⟨l', hl', rfl⟩ := h.looping j b hb hloop'
  rw [Option.some.inj (hl.symm.trans hl')]

/-- The condition gates the loop just when it was written before it. -/
theorem interplay_eq_iff (h : SortsInto written attributes d) : d.interplay = .conditionBeforeLoop ↔
    ∃ (i j : Nat) (a b : WrittenAttribute), i < j ∧ written[i]? = some a ∧ written[j]? = some b ∧
      a.name ∈ conditionNames ∧ b.name = ":foreach" := by
  rw [Directives.interplay_eq_conditionBeforeLoop]
  constructor
  · rintro ⟨c, loop, hc, hloop, hlt⟩
    obtain ⟨a, ha, hcondition, -⟩ := h.condition c hc
    obtain ⟨b, hb, hfrom⟩ := h.loop _ hloop
    cases hfrom with
    | foreach hname => exact ⟨_, _, a, b, hlt, ha, hb, hcondition.mem, hname⟩
  · rintro ⟨i, j, a, b, hlt, ha, hb, hcondition, hforeach⟩
    obtain ⟨c, hc, rfl⟩ := h.conditional i a ha hcondition
    obtain ⟨l, hl, rfl⟩ := h.looping j b hb (by rw [hforeach]; decide)
    obtain ⟨b', hb', hfrom⟩ := h.loop l hl
    obtain rfl := Option.some.inj (hb.symm.trans hb')
    generalize l.position = position at hfrom
    cases hfrom with
    | foreach => exact ⟨c, _, hc, hl, hlt⟩
    | forelse hname =>
      rw [hforeach] at hname
      exact absurd hname (by decide)

end SortsInto

end Tag

end Stencil
