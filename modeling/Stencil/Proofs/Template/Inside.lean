import Stencil.Proofs.Template.Locality
/-
  Reading a source inside open elements.

  A reader that has other elements open, and a closing tag behind the source, goes through the same steps as a
  reader that has the source alone: it is inside when it has the same siblings and the same open elements,
  up to spans, and then the others.  The only thing that may happen on the way is that the elements are
  nested too deeply.

  The main statement is about the whole source: where the first reader hands out its siblings, the second
  one stands before the closing tag with the same siblings.
-/

namespace Stencil.Template

open Node
open Cursor (Longer IsClosing)

/-- An open element, and the siblings before it, without their spans. -/
def levelShape (level : Opening × List Node) : Opening × List Node := (level.1.shape, shapeAll level.2)

/-- A source is refused because its elements are nested too deeply. -/
def TooDeep (o : Dialect) {α : Type} (x : Except TemplateError α) : Prop :=
  ∃ s, x = .error ⟨.nestedTooDeeply o.maxDepth, s⟩

theorem TooDeep.bind {o : Dialect} {α β : Type} {x : Except TemplateError α}
    {f : α → Except TemplateError β} (h : TooDeep o x) : TooDeep o (x >>= f) := by
  obtain ⟨s, rfl⟩ := h
  exact ⟨s, rfl⟩

theorem TooDeep.map {o : Dialect} {α β : Type} {x : Except TemplateError α} {f : α → β}
    (h : TooDeep o x) : TooDeep o (f <$> x) := by
  obtain ⟨s, rfl⟩ := h
  exact ⟨s, rfl⟩

theorem Opening.isOpen_congr {opening opening' : Opening} (h : opening'.shape = opening.shape) :
    opening'.isOpen = opening.isOpen := by
  have hname : opening'.tag.name = opening.tag.name := congrArg (fun shape => shape.tag.name) h
  have hclosing : opening'.selfClosing = opening.selfClosing :=
    congrArg (fun shape => shape.selfClosing) h
  rw [Opening.isOpen, Opening.isOpen, hname, hclosing]

theorem Opening.name_congr {opening opening' : Opening} (h : opening'.shape = opening.shape) :
    opening'.tag.name = opening.tag.name :=
  congrArg (fun shape => shape.tag.name) h

/-- Tags and children of the same shape make nodes of the same shape. -/
theorem tagNode_congr {o : Dialect} {opening opening' : Opening} {children children' : List Node}
    (hopening : opening'.shape = opening.shape) (hchildren : shapeAll children' = shapeAll children)
    {stop : Nat} {n : Node} (h : tagNode o opening children stop = .ok n) (stop' : Nat) :
    ∃ n', tagNode o opening' children' stop' = .ok n' ∧ n'.shape = n.shape := by
  have hsame := tagNode_shape o opening' children' stop'
  rw [hopening, hchildren, tagNode_shape o opening children stop] at hsame
  exact exists_ok_of_toOption_map hsame.symm h

/-- Nothing that is compared with the name of an element of raw text begins a tag in it. -/
theorem Element.not_mem_of_isRawText {tag : String} (h : Element.isRawText tag = true) :
    '<' ∉ tag.toList.map Char.toLower := by
  have hname : Text.lowerAscii tag = "script" ∨ Text.lowerAscii tag = "style" := by
    simpa [Element.isRawText] using h
  have hletters : tag.toList.map Char.toLower = (Text.lowerAscii tag).toList :=
    (String.toList_ofList).symm
  rw [hletters]
  rcases hname with hname | hname <;> rw [hname] <;> decide

/-- None of the open elements holds raw text. -/
def NoRawText (opened : List (Opening × List Node)) : Prop :=
  ∀ level ∈ opened, Element.isRawText level.1.tag.name = false

namespace Reader

theorem inRawText_eq_false {r : Reader} (h : NoRawText r.opened) : r.inRawText = false := by
  unfold inRawText
  cases hr : r.opened with
  | nil => rfl
  | cons level levels =>
    rw [hr] at h
    exact h level List.mem_cons_self

/-- The second reader has the source of the first one, and then a text, and it reads inside other open
    elements. -/
structure Inside (outer : List (Opening × List Node)) (tail : List Char) (r r' : Reader) : Prop where
  cursor : Longer tail r.cursor r'.cursor
  siblings : shapeAll r'.siblings = shapeAll r.siblings
  opened : ∃ inner, r'.opened = inner ++ outer ∧ inner.map levelShape = r.opened.map levelShape

variable {o : Dialect} {outer : List (Opening × List Node)} {tail : List Char} {r r' q : Reader}

/-- One more sibling. -/
theorem Inside.push (h : Inside outer tail r r') {n n' : Node} {c c' : Cursor}
    (hcursor : Longer tail c c') (hn : n'.shape = n.shape) :
    Inside outer tail ⟨c, n :: r.siblings, r.opened⟩ ⟨c', n' :: r'.siblings, r'.opened⟩ := by
  refine ⟨hcursor, ?_, h.opened⟩
  show n'.shape :: shapeAll r'.siblings = n.shape :: shapeAll r.siblings
  rw [hn, h.siblings]

/-- The innermost open elements are the same. -/
theorem Inside.opened_cons (h : Inside outer tail r r') {opening : Opening} {before : List Node}
    {levels : List (Opening × List Node)} (hopened : r.opened = (opening, before) :: levels) :
    ∃ opening' before' inner, r'.opened = (opening', before') :: (inner ++ outer) ∧
      levelShape (opening', before') = levelShape (opening, before) ∧
      inner.map levelShape = levels.map levelShape := by
  obtain ⟨inner, hopened', hinner⟩ := h.opened
  rw [hopened] at hinner
  cases inner with
  | nil => cases hinner
  | cons level inner =>
    obtain ⟨hlevel, hlevels⟩ := List.cons.inj hinner
    exact ⟨level.1, level.2, inner, hopened', hlevel, hlevels⟩

theorem Inside.opened_nil (h : Inside outer tail r r') (hopened : r.opened = []) : r'.opened = outer := by
  obtain ⟨inner, hopened', hinner⟩ := h.opened
  rw [hopened, List.map_nil, List.map_eq_nil_iff] at hinner
  rw [hopened', hinner, List.nil_append]

theorem Inside.inRawText (h : Inside outer tail r r')
    (houter : NoRawText outer) :
    r'.inRawText = r.inRawText := by
  cases hr : r.opened with
  | nil =>
    have hout : NoRawText r'.opened := by
      rw [h.opened_nil hr]
      exact houter
    rw [inRawText_eq_false hout, Reader.inRawText, hr]
  | cons level levels =>
    obtain ⟨opening', before', inner, hopened', hlevel, -⟩ := h.opened_cons hr
    rw [Reader.inRawText, Reader.inRawText, hr, hopened']
    exact congrArg Element.isRawText (Opening.name_congr (congrArg Prod.fst hlevel))

/-! ## The steps -/

theorem openTag_inside (h : Inside outer tail r r') (htail : IsClosing tail)
    (hr : openTag o r = .ok q) :
    TooDeep o (openTag o r') ∨ ∃ q', openTag o r' = .ok q' ∧ Inside outer tail q q' := by
  obtain ⟨opening, after, hopening, hcases⟩ := openTag_cases hr
  obtain ⟨opening', after', hopening', hshape, hafter⟩ := readOpening_longer h.cursor htail.breaksOff hopening
  unfold openTag
  rw [hopening']
  show TooDeep o (if opening'.isOpen then _ else _) ∨ ∃ q', (if opening'.isOpen then _ else _) = _ ∧ _
  rw [Opening.isOpen_congr hshape]
  rcases hcases with ⟨hopen, -, rfl⟩ | ⟨hclosed, n, hn, rfl⟩
  · rw [if_pos hopen]
    split
    · exact .inl ⟨_, rfl⟩
    · refine .inr ⟨_, rfl, hafter, rfl, ?_⟩
      obtain ⟨inner, hopened, hinner⟩ := h.opened
      refine ⟨(opening', r'.siblings) :: inner, by rw [hopened, List.cons_append], ?_⟩
      rw [List.map_cons, List.map_cons, hinner, levelShape, levelShape, hshape, h.siblings]
  · obtain ⟨n', hn', hsame⟩ := tagNode_congr hshape (rfl : shapeAll [] = shapeAll []) hn after'.position
    rw [hclosed, if_neg Bool.false_ne_true, hn']
    exact .inr ⟨_, rfl, h.push hafter hsame⟩

theorem closeTag_inside (h : Inside outer tail r r') (htail : IsClosing tail) {opening opening' : Opening}
    {before before' : List Node} {levels inner : List (Opening × List Node)}
    (hlevel : levelShape (opening', before') = levelShape (opening, before))
    (hlevels : inner.map levelShape = levels.map levelShape)
    (hr : closeTag o r opening before levels = .ok q) :
    ∃ q', closeTag o r' opening' before' (inner ++ outer) = .ok q' ∧ Inside outer tail q q' := by
  obtain ⟨hopening, hbefore⟩ := Prod.mk.inj hlevel
  obtain ⟨after, n, hafter, hn, rfl⟩ := closeTag_eq_ok hr
  obtain ⟨after', hafter', hlonger⟩ := readClosing_longer h.cursor htail.breaksOff hafter
  have hsiblings : shapeAll r'.siblings.reverse = shapeAll r.siblings.reverse := by
    rw [shapeAll_reverse, shapeAll_reverse, h.siblings]
  obtain ⟨n', hn', hsame⟩ := tagNode_congr hopening hsiblings hn after'.position
  refine ⟨⟨after', n' :: before', inner ++ outer⟩, ?_, hlonger, ?_, inner, rfl, hlevels⟩
  · unfold closeTag
    rw [Opening.name_congr hopening, hafter']
    show (tagNode o opening' r'.siblings.reverse after'.position >>= _) = _
    rw [hn']
    rfl
  · show n'.shape :: shapeAll before' = n.shape :: shapeAll before
    rw [hsame, show shapeAll before' = shapeAll before from hbefore]

theorem readNode_inside (h : Inside outer tail r r') (htail : IsClosing tail)
    (houter : NoRawText outer) (hleft : 0 < r.cursor.left)
    (hr : readNode o r = .ok q) :
    TooDeep o (readNode o r') ∨ ∃ q', readNode o r' = .ok q' ∧ Inside outer tail q q' := by
  have hform : formAt r'.inRawText r'.cursor = formAt r.inRawText r.cursor := by
    rw [h.inRawText houter, formAt_longer h.cursor htail.breaksOff hleft]
  unfold readNode at hr ⊢
  rw [hform]
  cases hcase : formAt r.inRawText r.cursor with
  | between opening closing make =>
    rw [hcase] at hr
    obtain ⟨⟨n, after⟩, hn, hr⟩ := bind_eq_ok hr
    obtain rfl := Except.ok.inj hr
    obtain ⟨hclosing, hmake⟩ := between_of_formAt hcase
    obtain ⟨n', after', hn', hsame, hlonger⟩ := readBetween_longer h.cursor hclosing hmake hn
    dsimp only
    rw [hn']
    exact .inr ⟨_, rfl, h.push hlonger hsame⟩
  | plain =>
    rw [hcase] at hr
    obtain rfl := Except.ok.inj hr
    obtain ⟨hsame, hlonger⟩ := readText_longer h.cursor htail.breaksOff hleft
      (plainText_of_isClosing r'.inRawText htail)
    rw [h.inRawText houter] at hsame hlonger
    refine .inr ⟨_, rfl, h.push ?_ ?_⟩
    · rw [h.inRawText houter]
      exact hlonger
    · rw [h.inRawText houter]
      exact hsame
  | tag =>
    rw [hcase] at hr
    exact openTag_inside h htail hr

/-- A reader that stands before a node: at no closing tag, or at one that is raw text. -/
def AtNode (r : Reader) : Prop :=
  r.cursor.startsWith "</" = true → ∃ opening before levels, r.opened = (opening, before) :: levels ∧
    closingAhead opening.tag.name r.cursor = false ∧ Element.isRawText opening.tag.name = true

theorem atNode_of_startsWith_eq_false (h : r.cursor.startsWith "</" = false) : r.AtNode := by
  intro hmark
  rw [h] at hmark
  cases hmark

theorem step_of_atNode (hleft : r.cursor.atEnd = false) (h : r.AtNode) :
    step o r = .next <$> readNode o r := by
  unfold step
  rw [hleft, if_neg (by decide)]
  split
  · next hmark =>
    obtain ⟨opening, before, levels, hopened, hahead, hraw⟩ := h hmark
    simp only [hopened, hahead, hraw, Bool.false_eq_true, if_false, if_true]
  · rfl

theorem step_of_closing (hleft : r.cursor.atEnd = false) (hmark : r.cursor.startsWith "</" = true)
    {opening : Opening} {before : List Node} {levels : List (Opening × List Node)}
    (hopened : r.opened = (opening, before) :: levels)
    (hahead : closingAhead opening.tag.name r.cursor = true) :
    step o r = .next <$> closeTag o r opening before levels := by
  unfold step
  rw [hleft, if_neg (by decide), if_pos hmark]
  simp only [hopened, hahead, if_true]

/-- Before the end of a source a step reads a closing tag, or a node where no closing tag is. -/
theorem step_eq_next {q : Reader} (h : step o r = .ok (.next q)) :
    r.cursor.atEnd = false ∧
      ((∃ opening before levels, r.opened = (opening, before) :: levels ∧
          r.cursor.startsWith "</" = true ∧ closingAhead opening.tag.name r.cursor = true ∧
          closeTag o r opening before levels = .ok q) ∨
        r.AtNode ∧ readNode o r = .ok q) := by
  obtain ⟨hend, hclosing | hnode⟩ := step_next_cases h
  · exact ⟨hend, .inl hclosing⟩
  by_cases hat : r.AtNode
  · exact ⟨hend, .inr ⟨hat, hnode⟩⟩
  -- anything else at a closing tag is that closing tag
  unfold step at h
  rw [hend, if_neg (by decide)] at h
  simp only [AtNode, Classical.not_imp] at hat
  obtain ⟨hmark, hraw⟩ := hat
  rw [if_pos hmark] at h
  split at h
  · cases h
  · next opening before levels hopened =>
    split at h
    · next hahead => exact ⟨hend, .inl ⟨opening, before, levels, hopened, hmark, hahead, map_next_eq_ok h⟩⟩
    · next hahead =>
      split at h
      · next hrawText =>
        exact absurd ⟨opening, before, levels, hopened, by simpa using hahead, hrawText⟩ hraw
      · cases h

theorem AtNode.of_inside (h : Inside outer tail r r') (htail : IsClosing tail) (hleft : 0 < r.cursor.left)
    (hr : r.AtNode) : r'.AtNode := by
  intro hmark
  rw [Longer.startsWith h.cursor htail.breaksOff hleft (by decide)] at hmark
  obtain ⟨opening, before, levels, hopened, hahead, hraw⟩ := hr hmark
  obtain ⟨opening', before', inner, hopened', hlevel, -⟩ := h.opened_cons hopened
  have hname : opening'.tag.name = opening.tag.name := Opening.name_congr (congrArg Prod.fst hlevel)
  refine ⟨opening', before', inner ++ outer, hopened', ?_, by rw [hname, hraw]⟩
  rw [hname]
  exact closingAhead_longer_eq_false h.cursor htail.breaksOff hleft (Element.not_mem_of_isRawText hraw)
    hahead

/-- A step of the reader inside is the same step, or the elements are nested too deeply there. -/
theorem step_inside (h : Inside outer tail r r') (htail : IsClosing tail)
    (houter : NoRawText outer)
    (hr : step o r = .ok (.next q)) :
    TooDeep o (step o r') ∨ ∃ q', step o r' = .ok (.next q') ∧ Inside outer tail q q' := by
  have hleft : 0 < r.cursor.left := Nat.zero_lt_of_lt (left_of_step hr)
  have hend : r'.cursor.atEnd = false := Longer.atEnd h.cursor hleft
  obtain ⟨-, ⟨opening, before, levels, hopened, hmark, hahead, hclose⟩ | ⟨hat, hnode⟩⟩ := step_eq_next hr
  · right
    obtain ⟨opening', before', inner, hopened', hlevel, hlevels⟩ := h.opened_cons hopened
    obtain ⟨q', hq', hinside⟩ := closeTag_inside h htail hlevel hlevels hclose
    have hmark' : r'.cursor.startsWith "</" = true := by
      rw [Longer.startsWith h.cursor htail.breaksOff hleft (by decide), hmark]
    have hahead' : closingAhead opening'.tag.name r'.cursor = true := by
      rw [Opening.name_congr (congrArg Prod.fst hlevel)]
      exact closingAhead_longer h.cursor hahead
    refine ⟨q', ?_, hinside⟩
    rw [step_of_closing hend hmark' hopened' hahead', hq']
    rfl
  · rw [step_of_atNode hend (hat.of_inside h htail hleft)]
    rcases readNode_inside h htail houter hleft hnode with hdeep | ⟨q', hq', hinside⟩
    · exact .inl hdeep.map
    · refine .inr ⟨q', ?_, hinside⟩
      rw [hq']
      rfl

/-! ## The run -/

theorem run_of_step (h : step o r = .ok (.next q)) : run o r = run o q := by
  rw [run]
  split
  · next hstep => rw [h] at hstep; cases hstep
  · next hstep => rw [h] at hstep; cases hstep
  · next hstep =>
    rw [h] at hstep
    obtain rfl := Step.next.inj (Except.ok.inj hstep)
    rfl

/-- A run that succeeds is at the end, or goes on after a step. -/
theorem run_eq_ok {nodes : List Node} (h : run o r = .ok nodes) :
    step o r = .ok (.done nodes) ∨ ∃ q, step o r = .ok (.next q) ∧ run o q = .ok nodes := by
  rw [run] at h
  split at h
  · cases h
  · next hstep =>
    obtain rfl := Except.ok.inj h
    exact .inl hstep
  · next q hstep => exact .inr ⟨q, hstep, h⟩

/-- At the end of the source, outside all elements, the siblings are handed out. -/
theorem run_atEnd (p : Nat) (siblings : List Node) : run o ⟨⟨p, []⟩, siblings, []⟩ = .ok siblings.reverse := by
  rw [run]
  rfl

theorem run_of_tooDeep (h : TooDeep o (step o r)) : TooDeep o (run o r) := by
  obtain ⟨s, hs⟩ := h
  refine ⟨s, ?_⟩
  rw [run]
  split
  · next hstep => rw [hs] at hstep; rw [Except.error.inj hstep]
  · next hstep => rw [hs] at hstep; cases hstep
  · next hstep => rw [hs] at hstep; cases hstep

/-- Where a reader of the source alone hands out its siblings, the reader inside stands before the closing
    tag, with the same siblings and only the outer elements open. -/
theorem run_inside (h : Inside outer tail r r') (htail : IsClosing tail)
    (houter : NoRawText outer) {nodes : List Node}
    (hr : run o r = .ok nodes) :
    TooDeep o (run o r') ∨ ∃ last : Reader, run o r' = run o last ∧ last.cursor.rest = tail ∧
      shapeAll last.siblings.reverse = shapeAll nodes ∧ last.opened = outer := by
  fun_induction run o r generalizing r' with
  | case1 r e hlast => cases hr
  | case2 r nodes' hlast =>
    obtain rfl := Except.ok.inj hr
    obtain ⟨hend, hopened, hsiblings⟩ := step_done hlast
    refine .inr ⟨r', rfl, ?_, ?_, h.opened_nil hopened⟩
    · rw [h.cursor, List.isEmpty_iff.1 hend, List.nil_append]
    · rw [shapeAll_reverse, h.siblings, ← shapeAll_reverse, hsiblings]
  | case3 r q hnext _ ih =>
    rcases step_inside h htail houter hnext with hdeep | ⟨q', hq', hinside⟩
    · exact .inl (run_of_tooDeep hdeep)
    · rw [run_of_step hq']
      exact ih hinside hr

end Reader

end Stencil.Template
