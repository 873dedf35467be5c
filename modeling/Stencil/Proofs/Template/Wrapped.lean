import Stencil.Proofs.Template.Inside
import Stencil.Proofs.Template.Linked
/-
  A text between the tags of a component.

  A source that is read as siblings is read as the same siblings, up to spans, wherever it stands before a
  closing tag.  So a source between the tags of a component is read as one reference to that component,
  whose children are these siblings; and since linking respects shapes, it is linked as the
  reference whose children are the linked siblings.  Both hold again of the longer source, however often this
  is done.

  The main statement is about reading and linking: a source that is wrapped so many times becomes as many
  references, one inside the other, around what it becomes alone, unless its elements are nested too deeply.
-/

namespace Stencil

open Node

/-- The text between the tags of a component, so many times. -/
def Template.wrapped : Nat → String → String
  | 0, source => source
  | n + 1, source => "<x-wrap>" ++ wrapped n source ++ "</x-wrap>"

/-- The tag of the component, without attributes. -/
def Tag.wrap : Tag := ⟨"x-wrap", [], {}, ⟨0, 0⟩, {}⟩

/-- A reference to the component. -/
def Node.wrap (ns : List Node) : Node := .component .wrap ns [] ⟨0, 0⟩

theorem Node.tag?_wrap (ns : List Node) : (wrap ns).tag? = some .wrap := rfl

/-- Siblings in so many references, one inside the other. -/
def Node.wrapAll : Nat → List Node → List Node
  | 0, ns => ns
  | n + 1, ns => [wrap (wrapAll n ns)]

/-- Only the siblings themselves may be slot markers with names. -/
theorem Node.isNamedSlot_wrapAll {ns : List Node} (h : ∀ m ∈ ns, m.isNamedSlot = false) (n : Nat) :
    ∀ m ∈ wrapAll n ns, m.isNamedSlot = false := by
  cases n with
  | zero => exact h
  | succ n =>
    intro m hm
    obtain rfl := List.mem_singleton.1 hm
    rfl

namespace Template

open Cursor (IsClosing)

variable {o : Dialect}

/-! ## One pair of tags -/

/-- The opening tag, without its spans. -/
def wrapOpening : Opening := ⟨0, .wrap, false, ⟨0, 0⟩⟩

theorem readOpening_wrap (p : Nat) (more : List Char) :
    ∃ opening, readOpening ⟨p, "<x-wrap>".toList ++ more⟩ = .ok (opening, ⟨p + 8, more⟩) ∧
      opening.shape = wrapOpening.shape := by
  have hread : Tag.readAttributes "x-wrap" p ⟨p + 7, '>' :: more⟩ = ([], .ok ⟨false, ⟨p + 8, more⟩⟩) :=
    Tag.readAttributes_of_close rfl
  exact ⟨_, readOpening_eq_ok_iff.2 ⟨_, _, _, _, _, _, _, rfl, rfl, hread, rfl, rfl, rfl⟩, rfl⟩

theorem tagNode_wrap (hmarker : o.tagMarker = "x-") {opening : Opening} {children ns : List Node}
    (hopening : opening.shape = wrapOpening.shape) (hchildren : shapeAll children = shapeAll ns)
    (hslots : ∀ n ∈ ns, n.isNamedSlot = false) (stop : Nat) :
    ∃ n, tagNode o opening children stop = .ok n ∧ n.shape = (wrap ns).shape := by
  have hslot : (wrapOpening.tag.name == o.slotTag) = false := by
    rw [Dialect.slotTag, hmarker]
    rfl
  have hcomponent : o.isComponent wrapOpening.tag.name = true := by
    rw [Dialect.isComponent, hmarker]
    rfl
  have hwrap : tagNode o wrapOpening ns 0 = .ok (wrap ns) := by
    unfold tagNode
    rw [hslot, hcomponent, liftSlots_eq_self hslots]
    rfl
  exact tagNode_congr hopening hchildren hwrap stop

/-- Where the opening tag comes next, and is read as one, it begins a level, if there may be one more. -/
theorem step_open_wrap (p : Nat) (more : List Char) (siblings : List Node)
    {opened : List (Opening × List Node)} (houter : NoRawText opened) :
    TooDeep o (Reader.step o ⟨⟨p, "<x-wrap>".toList ++ more⟩, siblings, opened⟩) ∨
      ∃ opening, opening.shape = wrapOpening.shape ∧
        Reader.step o ⟨⟨p, "<x-wrap>".toList ++ more⟩, siblings, opened⟩ =
          .ok (.next ⟨⟨p + 8, more⟩, [], (opening, siblings) :: opened⟩) := by
  obtain ⟨opening, hopening, hshape⟩ := readOpening_wrap p more
  have hopen : opening.isOpen = true := Opening.isOpen_congr hshape
  have hraw : Reader.inRawText ⟨⟨p, "<x-wrap>".toList ++ more⟩, siblings, opened⟩ = false :=
    Reader.inRawText_eq_false houter
  rw [Reader.step_of_atNode rfl fun hmark => Bool.noConfusion hmark, Reader.readNode, hraw]
  show TooDeep o (Reader.Step.next <$> Reader.openTag o _) ∨ _
  rw [Reader.openTag, hopening]
  show TooDeep o (Reader.Step.next <$> if opening.isOpen then _ else _) ∨ ∃ opening', _ ∧
    (Reader.Step.next <$> if opening.isOpen then _ else _) = _
  rw [if_pos hopen]
  split
  · exact .inl ⟨_, rfl⟩
  · exact .inr ⟨opening, hshape, rfl⟩

/-- Where the closing tag comes next, what was read inside becomes the reference around it. -/
theorem step_close_wrap (hmarker : o.tagMarker = "x-") (p : Nat) (more : List Char) {opening : Opening}
    (hopening : opening.shape = wrapOpening.shape) {siblings ns : List Node}
    (hsiblings : shapeAll siblings.reverse = shapeAll ns) (hslots : ∀ n ∈ ns, n.isNamedSlot = false)
    (before : List Node) (opened : List (Opening × List Node)) :
    ∃ n, n.shape = (wrap ns).shape ∧
      Reader.step o ⟨⟨p, "</x-wrap>".toList ++ more⟩, siblings, (opening, before) :: opened⟩ =
        .ok (.next ⟨⟨p + 9, more⟩, n :: before, opened⟩) := by
  have hname : opening.tag.name = "x-wrap" := Opening.name_congr hopening
  have hahead : closingAhead opening.tag.name ⟨p, "</x-wrap>".toList ++ more⟩ = true := by
    rw [hname]
    rfl
  have hleft : Cursor.atEnd ⟨p, "</x-wrap>".toList ++ more⟩ = false := rfl
  have hmark : Cursor.startsWith ⟨p, "</x-wrap>".toList ++ more⟩ "</" = true := rfl
  have hstep := Reader.step_of_closing (o := o)
    (r := ⟨⟨p, "</x-wrap>".toList ++ more⟩, siblings, (opening, before) :: opened⟩) hleft hmark rfl hahead
  obtain ⟨n, hn, hshape⟩ := tagNode_wrap hmarker hopening hsiblings hslots (p + 9)
  refine ⟨n, hshape, ?_⟩
  rw [hstep, Reader.closeTag, hname]
  show (Reader.Step.next <$> (tagNode o opening siblings.reverse (p + 9) >>= _)) = _
  rw [hn]
  rfl

/-! ## Reading -/

/-- A text is read as siblings, up to spans, wherever it stands before a closing tag, unless its elements are
    nested too deeply there. -/
def ReadAs (o : Dialect) (cs : List Char) (ns : List Node) : Prop :=
  ∀ (p : Nat) (tail : List Char) (opened : List (Opening × List Node)), IsClosing tail →
    NoRawText opened →
    TooDeep o (Reader.run o ⟨⟨p, cs ++ tail⟩, [], opened⟩) ∨ ∃ q siblings,
      Reader.run o ⟨⟨p, cs ++ tail⟩, [], opened⟩ = Reader.run o ⟨⟨q, tail⟩, siblings, opened⟩ ∧
        shapeAll siblings.reverse = shapeAll ns

/-- What a source is read as alone, it is read as before a closing tag. -/
theorem readAs_of_parse {source : String} {t : Template} (h : parse o source = .ok t) :
    ReadAs o source.toList t.children := by
  intro p tail opened htail houter
  have hinside : Reader.Inside opened tail ⟨Cursor.start source, [], []⟩
      ⟨⟨p, source.toList ++ tail⟩, [], opened⟩ := ⟨rfl, rfl, [], rfl, rfl⟩
  rcases Reader.run_inside hinside htail houter (parse_eq_ok h) with
    hdeep | ⟨⟨⟨q, rest⟩, siblings, levels⟩, hrun, hrest, hsame, hopened⟩
  · exact .inl hdeep
  · subst hrest hopened
    exact .inr ⟨q, siblings, hrun, hsame⟩

/-- A text that is read as siblings is read, between the two tags, as the reference around them. -/
theorem ReadAs.run_wrap (hmarker : o.tagMarker = "x-") {cs : List Char} {ns : List Node}
    (h : ReadAs o cs ns) (hslots : ∀ n ∈ ns, n.isNamedSlot = false) (p : Nat) (more : List Char)
    {opened : List (Opening × List Node)} (houter : NoRawText opened) {r : Reader}
    (hr : r = ⟨⟨p, "<x-wrap>".toList ++ (cs ++ ("</x-wrap>".toList ++ more))⟩, [], opened⟩) :
    TooDeep o (Reader.run o r) ∨ ∃ q n,
      Reader.run o r = Reader.run o ⟨⟨q, more⟩, [n], opened⟩ ∧ n.shape = (wrap ns).shape := by
  subst hr
  rcases step_open_wrap (o := o) p (cs ++ ("</x-wrap>".toList ++ more)) [] houter with
    hdeep | ⟨opening, hopening, hopen⟩
  · exact .inl (Reader.run_of_tooDeep hdeep)
  have hname : opening.tag.name = "x-wrap" := Opening.name_congr hopening
  have houter' : NoRawText ((opening, []) :: opened) := by
    refine List.forall_mem_cons.2 ⟨?_, houter⟩
    rw [hname]
    decide
  rw [Reader.run_of_step hopen]
  rcases h (p + 8) ("</x-wrap>".toList ++ more) ((opening, []) :: opened) ⟨_, rfl⟩ houter' with
    hdeep | ⟨q, siblings, hrun, hsame⟩
  · exact .inl hdeep
  · obtain ⟨n, hn, hclose⟩ := step_close_wrap hmarker q more hopening hsame hslots [] opened
    rw [hrun, Reader.run_of_step hclose]
    exact .inr ⟨q + 9, n, rfl, hn⟩

theorem ReadAs.wrap (hmarker : o.tagMarker = "x-") {cs : List Char} {ns : List Node}
    (h : ReadAs o cs ns) (hslots : ∀ n ∈ ns, n.isNamedSlot = false) :
    ReadAs o ("<x-wrap>".toList ++ cs ++ "</x-wrap>".toList) [Node.wrap ns] := by
  intro p tail opened htail houter
  have hcursor : (⟨p, "<x-wrap>".toList ++ cs ++ "</x-wrap>".toList ++ tail⟩ : Cursor) =
      ⟨p, "<x-wrap>".toList ++ (cs ++ ("</x-wrap>".toList ++ tail))⟩ := by
    simp only [List.append_assoc]
  rcases h.run_wrap hmarker hslots p tail houter (congrArg (Reader.mk · [] opened) hcursor) with
    hdeep | ⟨q, n, hrun, hn⟩
  · exact .inl hdeep
  · refine .inr ⟨q, [n], hrun, ?_⟩
    show [n.shape] = [(Node.wrap ns).shape]
    rw [hn]

theorem ReadAs.wrapped (hmarker : o.tagMarker = "x-") {source : String} {ns : List Node}
    (h : ReadAs o source.toList ns) (hslots : ∀ n ∈ ns, n.isNamedSlot = false) (n : Nat) :
    ReadAs o (wrapped n source).toList (wrapAll n ns) := by
  induction n with
  | zero => exact h
  | succ n ih =>
    rw [Template.wrapped, String.toList_append, String.toList_append]
    exact ih.wrap hmarker (isNamedSlot_wrapAll hslots n)

/-- A source that is read without the tags is read with them, as references around the same siblings. -/
theorem parse_wrapped (hmarker : o.tagMarker = "x-") {source : String} {t : Template}
    (h : parse o source = .ok t) (hslots : ∀ n ∈ t.children, n.isNamedSlot = false) (n : Nat) :
    TooDeep o (parse o (wrapped n source)) ∨ ∃ t', parse o (wrapped n source) = .ok t' ∧
      shapeAll t'.children = shapeAll (wrapAll n t.children) := by
  cases n with
  | zero => exact .inr ⟨t, h, rfl⟩
  | succ n =>
    have hread := (readAs_of_parse h).wrapped hmarker hslots n
    have hcursor : Cursor.start (wrapped (n + 1) source) =
        ⟨0, "<x-wrap>".toList ++ ((wrapped n source).toList ++ ("</x-wrap>".toList ++ []))⟩ := by
      rw [Cursor.start, wrapped, String.toList_append, String.toList_append, List.append_nil,
        List.append_assoc]
    unfold parse
    rcases hread.run_wrap hmarker (isNamedSlot_wrapAll hslots n) 0 [] (fun _ h => by cases h)
      (congrArg (Reader.mk · [] []) hcursor) with hdeep | ⟨q, m, hrun, hm⟩
    · exact .inl hdeep.map
    · rw [hrun, Reader.run_atEnd]
      refine .inr ⟨_, rfl, ?_⟩
      show [m.shape] = [(Node.wrap (wrapAll n t.children)).shape]
      rw [hm]

end Template

/-! ## Linking -/

namespace Siblings

/-- Linking inside a node, and telling it of its neighbours, leaves the name of a slot marker. -/
theorem LinkedInside.isNamedSlot_eq {b : Bool} {n m : Node} (h : LinkedInside b n m) (links : Links) :
    (m.withLinks links).isNamedSlot = n.isNamedSlot := by
  cases h with
  | @slot _ name => cases name <;> rfl
  | _ => rfl

/-- A slot marker with a name is not left out. -/
theorem Linked.isNamedSlot {b : Bool} {ns linked : List Node} (h : Linked b ns linked)
    (hlinked : ∀ m ∈ linked, m.isNamedSlot = false) : ∀ n ∈ ns, n.isNamedSlot = false := by
  induction ns generalizing linked with
  | nil => simp
  | cons n ns ih =>
    cases h with
    | leftOut hn h =>
      refine List.forall_mem_cons.2 ⟨?_, ih h hlinked⟩
      have hnothing := hn.saysNothing
      cases n <;> first | rfl | cases hnothing
    | kept hn hm h =>
      obtain ⟨hfirst, hrest⟩ := List.forall_mem_cons.1 hlinked
      rw [hm.isNamedSlot_eq] at hfirst
      exact List.forall_mem_cons.2 ⟨hfirst, ih h hrest⟩

theorem linkAll_wrapAll {b : Bool} {ns linked : List Node} (h : linkAll b {} ns = .ok linked) (n : Nat) :
    linkAll b {} (wrapAll n ns) = .ok (wrapAll n linked) := by
  induction n with
  | zero => exact h
  | succ n ih =>
    rw [wrapAll, linkAll, Node.wrap, linkNode, ih]
    rfl

end Siblings

namespace Template

/-- Read siblings and link them to each other, where blanks show or do not. -/
def compileInside (o : Dialect) (blanksShow : Bool) (source : String) :
    Except TemplateError (List Node) := do
  let t ← parse o source
  Siblings.linkAll blanksShow {} t.children

/-- A template is compiled where blanks do not show. -/
theorem compileInside_false (o : Dialect) (source : String) :
    compileInside o false source = (compile o source).map Template.children := by
  unfold compileInside compile
  cases parse o source with
  | error err => rfl
  | ok t =>
    show Siblings.linkAll false {} t.children = t.link.map Template.children
    unfold link
    cases Siblings.linkAll false {} t.children <;> rfl

/-- A source that compiles without the tags compiles with them, to references around the same siblings,
    unless its elements are nested too deeply. -/
theorem compile_wrapped {o : Dialect} (hmarker : o.tagMarker = "x-") {b : Bool} {source : String}
    {ns : List Node} (h : compileInside o b source = .ok ns) (hslots : ∀ n ∈ ns, n.isNamedSlot = false)
    (n : Nat) :
    TooDeep o (compileInside o b (wrapped n source)) ∨ ∃ ms,
      compileInside o b (wrapped n source) = .ok ms ∧ shapeAll ms = shapeAll (wrapAll n ns) := by
  obtain ⟨t, hparse, hlink⟩ := Reader.bind_eq_ok h
  have hlinked : Siblings.Linked b t.children ns := by
    have hanswer := Siblings.answers_linkAll b t.children Siblings.remembers_none
    rw [hlink] at hanswer
    exact hanswer.2
  unfold compileInside
  rcases parse_wrapped hmarker hparse (hlinked.isNamedSlot hslots) n with hdeep | ⟨t', hparse', hshape⟩
  · exact .inl hdeep.bind
  · rw [hparse']
    have hsame := Siblings.linkAll_shape b {} t'.children
    rw [hshape, Siblings.linkAll_shape] at hsame
    exact .inr (exists_ok_of_toOption_map hsame.symm (Siblings.linkAll_wrapAll hlink n))

end Template

end Stencil
