import Stencil.Template.Siblings
/-
  The shapes of trees.

  The shape of a tree is the tree with all its spans left out: what was written, but not where.  A text
  that is read at another place in a source gives a tree of the same shape, and nothing that is done with a
  tree after it was read looks at spans, except to say where an error is.

  The main statements are that putting the children of a component where they belong, making the node of a
  tag, and linking siblings all respect shapes.
-/

namespace Stencil

/-! ## Results -/

section Results

variable {ε α β : Type}

theorem toOption_ok (a : α) : (Except.ok a : Except ε α).toOption = some a := rfl

theorem toOption_eq_some_iff {x : Except ε α} {a : α} : x.toOption = some a ↔ x = .ok a := by
  cases x with
  | ok b => exact ⟨fun h => congrArg Except.ok (Option.some.inj h), fun h => congrArg some (Except.ok.inj h)⟩
  | error err => constructor <;> intro h <;> cases h

theorem toOption_bind (x : Except ε α) (f : α → Except ε β) :
    (x >>= f).toOption = x.toOption.bind fun a => (f a).toOption := by cases x <;> rfl

/-- A fold whose steps do not tell an item from what `f` makes of it. -/
theorem toOption_foldlM_map {step : β → α → Except ε β} {f : α → α}
    (hstep : ∀ b a, (step b (f a)).toOption = (step b a).toOption) (as : List α) (b : β) :
    ((as.map f).foldlM step b).toOption = (as.foldlM step b).toOption := by
  induction as generalizing b with
  | nil => rfl
  | cons a as ih =>
    simp only [List.map_cons, List.foldlM_cons, toOption_bind, hstep, ih]

/-- Of two results that are the same under a function, if they are values at all, both are values or
    neither is. -/
theorem exists_ok_of_toOption_map {x y : Except ε α} {f : α → β}
    (h : y.toOption.map f = x.toOption.map f) {a : α} (hx : x = .ok a) : ∃ b, y = .ok b ∧ f b = f a := by
  subst hx
  cases y with
  | error err => cases h
  | ok b => exact ⟨b, rfl, Option.some.inj h⟩

end Results

/-! ## Tags -/

def Condition.shape (c : Condition) : Condition := { c with span := ⟨0, 0⟩ }

def Foreach.shape (loop : Foreach) : Foreach := { loop with span := ⟨0, 0⟩ }

def Forelse.shape (fallback : Forelse) : Forelse := { fallback with span := ⟨0, 0⟩ }

def LoopDirective.shape : LoopDirective → LoopDirective
  | .foreach loop => .foreach loop.shape
  | .forelse fallback => .forelse fallback.shape

/-- Directives without their spans. -/
def Directives.shape (d : Directives) : Directives :=
  ⟨d.condition.map Condition.shape, d.loop.map LoopDirective.shape⟩

/-- An attribute without its span. -/
def Attribute.shape (a : Attribute) : Attribute := { a with span := ⟨0, 0⟩ }

/-- A tag without its spans. -/
def Tag.shape (tag : Tag) : Tag :=
  { tag with
    attributes := tag.attributes.map Attribute.shape
    directives := tag.directives.shape
    nameSpan := ⟨0, 0⟩ }

namespace Directives

theorem conditionKind?_shape (d : Directives) : d.shape.conditionKind? = d.conditionKind? := by
  unfold conditionKind? shape
  cases d.condition <;> rfl

theorem foreach?_shape (d : Directives) : d.shape.foreach? = d.foreach?.map Foreach.shape := by
  unfold foreach? shape
  cases d.loop with
  | none => rfl
  | some loop => cases loop <;> rfl

theorem isSome_forelse?_shape (d : Directives) : d.shape.forelse?.isSome = d.forelse?.isSome := by
  unfold forelse? shape
  cases d.loop with
  | none => rfl
  | some loop => cases loop <;> rfl

theorem interplay_shape (d : Directives) : d.shape.interplay = d.interplay := by
  unfold interplay
  rw [foreach?_shape]
  unfold shape
  cases d.condition <;> cases d.foreach? <;> rfl

end Directives

/-! ## Nodes -/

namespace Node

mutual

/-- A node without its spans. -/
def shape : Node → Node
  | .text content _ => .text content ⟨0, 0⟩
  | .expression source escaped _ => .expression source escaped ⟨0, 0⟩
  | .comment content _ => .comment content ⟨0, 0⟩
  | .element tag selfClosing children _ => .element tag.shape selfClosing (shapeAll children) ⟨0, 0⟩
  | .component tag children slots _ => .component tag.shape (shapeAll children) (shapeSlots slots) ⟨0, 0⟩
  | .slot name fallback _ => .slot name (shapeAll fallback) ⟨0, 0⟩
termination_by structural n => n

/-- Siblings without their spans. -/
def shapeAll : List Node → List Node
  | [] => []
  | n :: ns => shape n :: shapeAll ns
termination_by structural ns => ns

/-- The content of named slots without its spans. -/
def shapeSlots : List (String × List Node) → List (String × List Node)
  | [] => []
  | (name, ns) :: slots => (name, shapeAll ns) :: shapeSlots slots
termination_by structural slots => slots

end

theorem shapeAll_eq_map (ns : List Node) : shapeAll ns = ns.map shape := by
  induction ns with
  | nil => rfl
  | cons n ns ih => rw [shapeAll, ih, List.map_cons]

theorem shapeAll_reverse (ns : List Node) : shapeAll ns.reverse = (shapeAll ns).reverse := by
  simp only [shapeAll_eq_map, List.map_reverse]

theorem tag?_shape (n : Node) : n.shape.tag? = n.tag?.map Tag.shape := by cases n <;> rfl

theorem directives?_shape (n : Node) : n.shape.directives? = n.directives?.map Directives.shape := by
  cases n <;> rfl

theorem saysNothing_shape (n : Node) : n.shape.saysNothing = n.saysNothing := by cases n <;> rfl

theorem shape_withLinks (links : Links) (n : Node) :
    (n.withLinks links).shape = n.shape.withLinks links := by cases n <;> rfl

/-- Whether a node is a slot marker with a name. -/
def isNamedSlot : Node → Bool
  | .slot (some _) _ _ => true
  | _ => false

/-! A node has the shape of another one only when it is of the same form. -/

variable {n : Node}

theorem shape_eq_text {content : String} {s : Span} (h : n.shape = (text content s).shape) :
    ∃ s', n = .text content s' := by
  cases n <;> cases h
  exact ⟨_, rfl⟩

theorem shape_eq_expression {source : String} {escaped : Bool} {s : Span}
    (h : n.shape = (expression source escaped s).shape) : ∃ s', n = .expression source escaped s' := by
  cases n <;> cases h
  exact ⟨_, rfl⟩

theorem shape_eq_comment {content : String} {s : Span} (h : n.shape = (comment content s).shape) :
    ∃ s', n = .comment content s' := by
  cases n <;> cases h
  exact ⟨_, rfl⟩

theorem shape_eq_element {tag : Tag} {selfClosing : Bool} {children : List Node} {s : Span}
    (h : n.shape = (element tag selfClosing children s).shape) :
    ∃ tag' children' s', n = .element tag' selfClosing children' s' ∧ tag'.shape = tag.shape ∧
      shapeAll children' = shapeAll children := by
  cases n with
  | element tag' selfClosing' children' s' =>
    obtain ⟨htag, rfl, hchildren, -⟩ := Node.element.inj h
    exact ⟨tag', children', s', rfl, htag, hchildren⟩
  | _ => cases h

theorem shape_eq_component {tag : Tag} {children : List Node} {slots : List (String × List Node)} {s : Span}
    (h : n.shape = (component tag children slots s).shape) :
    ∃ tag' children' slots' s', n = .component tag' children' slots' s' ∧ tag'.shape = tag.shape ∧
      shapeAll children' = shapeAll children ∧ shapeSlots slots' = shapeSlots slots := by
  cases n with
  | component tag' children' slots' s' =>
    obtain ⟨htag, hchildren, hslots, -⟩ := Node.component.inj h
    exact ⟨tag', children', slots', s', rfl, htag, hchildren, hslots⟩
  | _ => cases h

theorem shape_eq_slot {name : Option String} {fallback : List Node} {s : Span}
    (h : n.shape = (slot name fallback s).shape) :
    ∃ fallback' s', n = .slot name fallback' s' ∧ shapeAll fallback' = shapeAll fallback := by
  cases n with
  | slot name' fallback' s' =>
    obtain ⟨rfl, hfallback, -⟩ := Node.slot.inj h
    exact ⟨fallback', s', rfl, hfallback⟩
  | _ => cases h

theorem shapeAll_eq_cons {ns rest : List Node} {m : Node} (h : shapeAll ns = shapeAll (m :: rest)) :
    ∃ n ns', ns = n :: ns' ∧ n.shape = m.shape ∧ shapeAll ns' = shapeAll rest := by
  cases ns with
  | nil => cases h
  | cons n ns' =>
    obtain ⟨hn, hns⟩ := List.cons.inj h
    exact ⟨n, ns', rfl, hn, hns⟩

end Node

open Node

/-! ## Attributes -/

/-- An attribute as it is written, without its span. -/
def WrittenAttribute.shape (a : WrittenAttribute) : WrittenAttribute := { a with span := ⟨0, 0⟩ }

/-- Sorted attributes and directives, without their spans. -/
def Tag.Sorted.shape (s : Sorted) : Sorted := ⟨s.attributes.map Attribute.shape, s.directives.shape⟩

theorem Foreach.parse_shape (value : String) (position : Nat) (span : Span) :
    (parse value position ⟨0, 0⟩).toOption = (parse value position span).toOption.map shape := by
  unfold parse
  split <;> rfl

namespace Tag

theorem required_shape (a : WrittenAttribute) : (required a.shape).toOption = (required a).toOption := by
  unfold required WrittenAttribute.shape
  cases a.value <;> rfl

theorem addCondition_shape (s : Sorted) (a : WrittenAttribute) (position : Nat)
    {test test' : Except TemplateError Test} (htest : test'.toOption = test.toOption) :
    (s.shape.addCondition a.shape position test').toOption =
      (s.addCondition a position test).toOption.map Sorted.shape := by
  have hsome : s.shape.directives.condition.isSome = s.directives.condition.isSome := Option.isSome_map
  unfold Sorted.addCondition
  rw [hsome]
  split
  · rfl
  · cases test with
    | error err => cases test' <;> first | rfl | cases htest
    | ok test =>
      cases test' with
      | error err => cases htest
      | ok test' =>
        obtain rfl := Option.some.inj htest
        rfl

theorem addLoop_shape (s : Sorted) (a : WrittenAttribute) {loop loop' : Except TemplateError LoopDirective}
    (hloop : loop'.toOption = loop.toOption.map LoopDirective.shape) :
    (s.shape.addLoop a.shape loop').toOption = (s.addLoop a loop).toOption.map Sorted.shape := by
  have hsome : s.shape.directives.loop.isSome = s.directives.loop.isSome := Option.isSome_map
  unfold Sorted.addLoop
  rw [hsome]
  split
  · rfl
  · cases loop with
    | error err => cases loop' <;> first | rfl | cases hloop
    | ok loop =>
      cases loop' with
      | error err => cases hloop
      | ok loop' =>
        obtain rfl := Option.some.inj hloop
        rfl

/-- How an attribute is sorted is decided by its name and its value. -/
theorem add_shape (s : Sorted) (a : WrittenAttribute) (position : Nat) :
    (s.shape.add a.shape position).toOption = (s.add a position).toOption.map Sorted.shape := by
  have hrequired : ∀ {α : Type} (f : String → α), ((required a.shape).map f).toOption =
      ((required a).map f).toOption := by
    intro α f
    have hsame := required_shape a
    cases hvalue : required a <;> cases hvalue' : required a.shape <;> simp_all [Except.toOption, Except.map]
  unfold Sorted.add
  rw [show a.shape.name = a.name from rfl]
  split
  · exact addCondition_shape s a position (hrequired Test.ifTrue)
  · exact addCondition_shape s a position (hrequired Test.elseIf)
  · exact addCondition_shape s a position rfl
  · refine addLoop_shape s a ?_
    rw [toOption_bind, toOption_bind, required_shape]
    cases required a with
    | error err => rfl
    | ok value =>
      simp only [toOption_ok, Option.bind_some, toOption_bind]
      rw [show a.shape.span = ⟨0, 0⟩ from rfl, Foreach.parse_shape value position a.span]
      cases Foreach.parse value position a.span <;> rfl
  · exact addLoop_shape s a rfl
  · rfl
  · rw [toOption_bind, toOption_bind, required_shape]
    cases required a <;> rfl
  · rfl

theorem sortFrom_shape (s : Sorted) (position : Nat) (written : List WrittenAttribute) :
    (sortFrom s.shape position (written.map WrittenAttribute.shape)).toOption =
      (sortFrom s position written).toOption.map Sorted.shape := by
  induction written generalizing s position with
  | nil => rfl
  | cons a more ih =>
    rw [List.map_cons, sortFrom, sortFrom, toOption_bind, toOption_bind, add_shape]
    cases s.add a position with
    | error err => rfl
    | ok s => exact ih s (position + 1)

theorem sort_shape (written : List WrittenAttribute) :
    (sort (written.map WrittenAttribute.shape)).toOption =
      (sort written).toOption.map fun sorted =>
        (sorted.1.map Attribute.shape, sorted.2.shape) := by
  have hfrom := sortFrom_shape ⟨[], {}⟩ 0 written
  unfold sort
  rw [toOption_bind, toOption_bind]
  show ((sortFrom (Sorted.shape ⟨[], {}⟩) 0 (written.map WrittenAttribute.shape)).toOption.bind _) = _
  rw [hfrom]
  cases sortFrom ⟨[], {}⟩ 0 written with
  | error err => rfl
  | ok s =>
    show some (s.shape.attributes.reverse, s.shape.directives) = _
    rw [Sorted.shape, ← List.map_reverse]
    rfl

end Tag

/-! ## Slots -/

namespace Template

section Map

variable {f : Node → Node}

/-- The content of named slots, with every node changed in one way. -/
def mapSlots (f : Node → Node) (slots : List (String × List Node)) : List (String × List Node) :=
  slots.map fun slot => (slot.1, slot.2.map f)

theorem get?_mapSlots (slots : List (String × List Node)) (name : String) :
    Ordered.get? (mapSlots f slots) name = (Ordered.get? slots name).map (List.map f) := by
  induction slots with
  | nil => rfl
  | cons slot slots ih =>
    obtain ⟨k, ns⟩ := slot
    rw [mapSlots, List.map_cons, Ordered.get?, Ordered.get?]
    split
    · rfl
    · exact ih

theorem put_mapSlots (slots : List (String × List Node)) (name : String) (ns : List Node) :
    Ordered.put (mapSlots f slots) name (ns.map f) = mapSlots f (Ordered.put slots name ns) := by
  induction slots with
  | nil => rfl
  | cons slot slots ih =>
    obtain ⟨k, ms⟩ := slot
    rw [mapSlots, List.map_cons, Ordered.put, Ordered.put]
    split
    · rfl
    · exact congrArg (List.cons (k, ms.map f)) ih

theorem addToSlot_map (slots : List (String × List Node)) (name : String) (content : List Node) :
    addToSlot (mapSlots f slots) name (content.map f) = mapSlots f (addToSlot slots name content) := by
  have hold : ((Ordered.get? slots name).map (List.map f)).getD [] =
      ((Ordered.get? slots name).getD []).map f := by
    cases Ordered.get? slots name <;> rfl
  rw [addToSlot, get?_mapSlots, hold, ← List.map_append, put_mapSlots, addToSlot]

/-- A change of nodes that keeps slot markers, with their names, and makes no others. -/
structure KeepsSlots (f : Node → Node) : Prop where
  slot : ∀ name content s, ∃ s', f (.slot name content s) = .slot name (content.map f) s'
  other : ∀ n, n.isNamedSlot = false → (f n).isNamedSlot = false

/-- What holds no named slot marker stays. -/
theorem placeChild_of_isNamedSlot (placed : List Node × List (String × List Node)) {child : Node}
    (h : child.isNamedSlot = false) : placeChild placed child = (placed.1 ++ [child], placed.2) := by
  cases child with
  | slot name => cases name <;> first | rfl | cases h
  | _ => rfl

theorem KeepsSlots.placeChild_map (hf : KeepsSlots f) (placed : List Node × List (String × List Node))
    (child : Node) :
    placeChild (placed.1.map f, mapSlots f placed.2) (f child) =
      ((placeChild placed child).1.map f, mapSlots f (placeChild placed child).2) := by
  cases hnamed : child.isNamedSlot with
  | false =>
    rw [placeChild_of_isNamedSlot _ (hf.other child hnamed), placeChild_of_isNamedSlot _ hnamed,
      List.map_append]
    rfl
  | true =>
    cases child with
    | slot name content s =>
      obtain ⟨s', hslot⟩ := hf.slot name content s
      cases name with
      | none => cases hnamed
      | some name =>
        rw [hslot, placeChild, placeChild]
        split
        · rw [List.map_append]
        · rw [addToSlot_map]
    | _ => cases hnamed

/-- Children are told apart by their slot markers alone. -/
theorem KeepsSlots.liftSlots_map (hf : KeepsSlots f) (children : List Node) :
    liftSlots (children.map f) = ((liftSlots children).1.map f, mapSlots f (liftSlots children).2) := by
  have hfold : ∀ placed : List Node × List (String × List Node),
      (children.map f).foldl placeChild (placed.1.map f, mapSlots f placed.2) =
        ((children.foldl placeChild placed).1.map f, mapSlots f (children.foldl placeChild placed).2) := by
    induction children with
    | nil => exact fun _ => rfl
    | cons child children ih =>
      intro placed
      rw [List.map_cons, List.foldl_cons, List.foldl_cons, hf.placeChild_map]
      exact ih _
  exact hfold ([], [])

end Map

theorem shapeSlots_eq_mapSlots (slots : List (String × List Node)) :
    shapeSlots slots = mapSlots shape slots := by
  induction slots with
  | nil => rfl
  | cons slot slots ih =>
    rw [shapeSlots, ih, shapeAll_eq_map]
    rfl

theorem keepsSlots_shape : KeepsSlots shape := by
  refine ⟨fun name content s => ⟨⟨0, 0⟩, by rw [shape, shapeAll_eq_map]⟩, fun n hn => ?_⟩
  cases n with
  | slot name => cases name <;> first | rfl | cases hn
  | _ => rfl

theorem liftSlots_shape (children : List Node) :
    liftSlots (shapeAll children) =
      (shapeAll (liftSlots children).1, shapeSlots (liftSlots children).2) := by
  rw [shapeAll_eq_map, shapeAll_eq_map, shapeSlots_eq_mapSlots, keepsSlots_shape.liftSlots_map]

/-- Children without named slot markers all stay. -/
theorem liftSlots_eq_self {children : List Node} (h : ∀ n ∈ children, n.isNamedSlot = false) :
    liftSlots children = (children, []) := by
  have hfold : ∀ kept : List Node, children.foldl placeChild (kept, []) = (kept ++ children, []) := by
    induction children with
    | nil => simp
    | cons child children ih =>
      obtain ⟨hchild, hchildren⟩ := List.forall_mem_cons.1 h
      intro kept
      rw [List.foldl_cons, placeChild_of_isNamedSlot _ hchild, ih hchildren, List.append_assoc, List.singleton_append]
  exact hfold []

theorem slotName_shape (attributes : List Attribute) :
    (slotName (attributes.map Attribute.shape)).toOption = (slotName attributes).toOption := by
  refine toOption_foldlM_map (fun name a => ?_) attributes none
  rw [show a.shape.name = a.name from rfl, show a.shape.value = a.value from rfl]
  split
  · cases a.value <;> rfl
  · rfl

/-- An opening tag without its spans. -/
def Opening.shape (opening : Opening) : Opening := ⟨0, opening.tag.shape, opening.selfClosing, ⟨0, 0⟩⟩

theorem slotNode_shape (tag : Tag) (children : List Node) (s : Span) :
    (slotNode tag.shape (shapeAll children) ⟨0, 0⟩).toOption =
      (slotNode tag children s).toOption.map Node.shape := by
  obtain ⟨name, attributes, ⟨condition, loop⟩, nameSpan, links⟩ := tag
  unfold slotNode slotDirective? Tag.shape Directives.shape
  cases condition with
  | some condition => rfl
  | none =>
    cases loop with
    | some loop => cases loop <;> rfl
    | none =>
      have hname := slotName_shape attributes
      dsimp only [Option.map_none]
      cases hnamed : slotName attributes <;>
        cases hnamed' : slotName (attributes.map Attribute.shape) <;>
        simp_all [Except.toOption, Except.map, shape]

/-- The shape of the node of a tag is decided by the shapes of the tag and the children. -/
theorem tagNode_shape (o : Dialect) (opening : Opening) (children : List Node) (stop : Nat) :
    (tagNode o opening.shape (shapeAll children) 0).toOption =
      (tagNode o opening children stop).toOption.map Node.shape := by
  unfold tagNode
  rw [show opening.shape.tag.name = opening.tag.name from rfl]
  split
  · exact slotNode_shape opening.tag children _
  · split
    · rw [liftSlots_shape]
      rfl
    · rfl

end Template

/-! ## Linking -/

namespace Siblings

theorem chainStep_shape (d : Directives) (chain : Chain) :
    (chainStep d.shape chain).toOption = (chainStep d chain).toOption := by
  unfold chainStep Directives.shape
  cases d.condition with
  | none => rfl
  | some condition =>
    obtain ⟨test, position, s⟩ := condition
    cases test <;> cases chain <;> rfl

theorem pairStep_shape (d : Directives) (pair : Pair) :
    (pairStep d.shape pair).toOption = (pairStep d pair).toOption := by
  unfold pairStep Directives.shape
  cases d.loop with
  | none => rfl
  | some loop =>
    cases loop with
    | foreach => rfl
    | forelse => cases pair <;> rfl

theorem continues_shape (d : Directives) : continues d.shape = continues d := by
  simp only [continues, Directives.conditionKind?_shape, Directives.isSome_forelse?_shape]

/-- A change of nodes that keeps what siblings are linked by: which of them say something, and their
    directives up to spans. -/
structure KeepsLinks (f : Node → Node) : Prop where
  saysNothing : ∀ n, (f n).saysNothing = n.saysNothing
  directives? : ∀ n, (f n).directives?.map Directives.shape = n.directives?.map Directives.shape
  withLinks : ∀ links n, f (n.withLinks links) = (f n).withLinks links

namespace KeepsLinks

variable {f : Node → Node} (hf : KeepsLinks f)

include hf

/-- What holds of the next directives whatever their spans are holds of those of the changed nodes. -/
theorem any_nextDirectives? {p : Directives → Bool} (hp : ∀ d : Directives, p d.shape = p d) (ns : List Node) :
    (nextDirectives? (ns.map f)).any p = (nextDirectives? ns).any p := by
  have hnext : (nextDirectives? (ns.map f)).map Directives.shape =
      (nextDirectives? ns).map Directives.shape := by
    induction ns with
    | nil => rfl
    | cons n ns ih =>
      unfold nextDirectives? at ih ⊢
      rw [List.map_cons, List.find?_cons, List.find?_cons, hf.saysNothing]
      cases n.saysNothing with
      | true => exact ih
      | false => exact hf.directives? n
  have hany : ∀ d? : Option Directives, (d?.map Directives.shape).any p = d?.any p := by
    rintro (_ | d)
    · rfl
    · exact hp d
  rw [← hany, hnext, hany]

/-- One more sibling in front of siblings that are linked alike. -/
theorem linkAll_cons {b : Bool} {n : Node} {rest : List Node}
    (hnode : (linkNode b (f n)).toOption = (linkNode b n).toOption.map f)
    (hrest : ∀ before, (linkAll b before (rest.map f)).toOption =
      (linkAll b before rest).toOption.map (List.map f)) (before : Before) :
    (linkAll b before ((n :: rest).map f)).toOption =
      (linkAll b before (n :: rest)).toOption.map (List.map f) := by
  rw [List.map_cons, linkAll, linkAll, toOption_bind, toOption_bind, hnode]
  cases linkNode b n with
  | error err => rfl
  | ok m =>
    have hdirectives := hf.directives? m
    have hcontinued : isContinued (rest.map f) = isContinued rest := hf.any_nextDirectives? continues_shape rest
    have hfallback : hasFallback (rest.map f) = hasFallback rest :=
      hf.any_nextDirectives? Directives.isSome_forelse?_shape rest
    simp only [toOption_ok, Option.map_some, Option.bind_some, hf.saysNothing]
    cases hd : m.directives? with
    | some d =>
      rw [hd, Option.map_some, Option.map_eq_some_iff] at hdirectives
      obtain ⟨d', hd', hsame⟩ := hdirectives
      -- the steps of the changed node are those of its shape, which is the shape of the node
      have hforeach : d'.foreach?.isSome = d.foreach?.isSome := by
        rw [← Option.isSome_map (f := Foreach.shape), ← Directives.foreach?_shape, hsame,
          Directives.foreach?_shape, Option.isSome_map]
      simp only [hd', toOption_bind, ← chainStep_shape d', ← pairStep_shape d', hsame, chainStep_shape,
        pairStep_shape, hrest, hfallback, hforeach]
      cases chainStep d before.chain with
      | error err => rfl
      | ok found =>
        cases pairStep d before.pair with
        | error err => rfl
        | ok pair =>
          simp only [toOption_ok, Option.bind_some]
          cases linkAll b ⟨found.2, pair⟩ rest with
          | error err => rfl
          | ok linked =>
            simp only [toOption_ok, Option.map_some, Option.bind_some, ← hf.withLinks, List.map_cons]
    | none =>
      rw [hd, Option.map_none, Option.map_eq_none_iff] at hdirectives
      simp only [hdirectives]
      cases m.saysNothing with
      | true =>
        simp only [if_true, toOption_bind, hrest, hcontinued]
        cases linkAll b before rest with
        | error err => rfl
        | ok linked =>
          simp only [toOption_ok, Option.map_some, Option.bind_some]
          split <;> rfl
      | false =>
        simp only [Bool.false_eq_true, if_false, toOption_bind, hrest]
        cases linkAll b {} rest <;> rfl

end KeepsLinks

theorem keepsLinks_shape : KeepsLinks Node.shape where
  saysNothing := saysNothing_shape
  directives? := by
    intro n
    rw [directives?_shape, Option.map_map]
    refine congrArg (fun g => n.directives?.map g) (funext fun d => ?_)
    obtain ⟨condition, loop⟩ := d
    rcases condition with _ | condition <;> rcases loop with _ | (loop | loop) <;> rfl
  withLinks := shape_withLinks

mutual

theorem linkNode_shape (b : Bool) (n : Node) :
    (linkNode b n.shape).toOption = (linkNode b n).toOption.map Node.shape :=
  match n with
  | .text .. => rfl
  | .expression .. => rfl
  | .comment .. => rfl
  | .element tag selfClosing children s => by
    have hchildren := linkAll_shape (b || Element.showsBlanks tag.name) {} children
    rw [shape, linkNode, linkNode, toOption_bind, toOption_bind]
    show (linkAll (b || Element.showsBlanks tag.name) {} (shapeAll children)).toOption.bind _ = _
    rw [hchildren]
    cases linkAll (b || Element.showsBlanks tag.name) {} children <;> rfl
  | .component tag children slots s => by
    have hchildren := linkAll_shape b {} children
    have hslots := linkSlots_shape b slots
    simp only [shape, linkNode, toOption_bind, hchildren, hslots]
    cases linkAll b {} children with
    | error err => rfl
    | ok linked => cases linkSlots b slots <;> rfl
  | .slot name fallback s => by
    have hfallback := linkAll_shape b {} fallback
    rw [shape, linkNode, linkNode, toOption_bind, toOption_bind, hfallback]
    cases linkAll b {} fallback <;> rfl
termination_by structural n

theorem linkAll_shape (b : Bool) (before : Before) (ns : List Node) :
    (linkAll b before (shapeAll ns)).toOption = (linkAll b before ns).toOption.map shapeAll :=
  match ns with
  | [] => rfl
  | n :: rest => by
    have hrest := fun before => linkAll_shape b before rest
    rw [(funext shapeAll_eq_map : shapeAll = List.map Node.shape)] at hrest ⊢
    exact keepsLinks_shape.linkAll_cons (linkNode_shape b n) hrest before
termination_by structural ns

theorem linkSlots_shape (b : Bool) (slots : List (String × List Node)) :
    (linkSlots b (shapeSlots slots)).toOption = (linkSlots b slots).toOption.map shapeSlots :=
  match slots with
  | [] => rfl
  | (name, content) :: slots => by
    have hcontent := linkAll_shape b {} content
    have hslots := linkSlots_shape b slots
    simp only [shapeSlots, linkSlots, toOption_bind, hcontent, hslots]
    cases linkAll b {} content with
    | error err => rfl
    | ok linked => cases linkSlots b slots <;> rfl
termination_by structural slots

end

end Siblings

end Stencil
