import Stencil.Proofs.Template.Exchange
import Stencil.Proofs.Template.Paired
/-
  Reading alongside.

  Two readers are alongside each other when the same is left of their sources, and their siblings and open
  elements have the same outlines.  They may have come there by different sources: where they stand in these,
  and how the tags behind them were closed, does not matter to anything that is still to be read.

  The main statement is that of two such readers one hands out siblings if the other does, and of the same
  outline.
-/

namespace Stencil.Template

open Node
open Cursor (Longer BreaksOff)

/-- An open element without its spans, and the outline of the siblings before it. -/
def levelOutline (level : Opening × List Node) : Opening × List Node := (level.1.shape, outlineAll level.2)

namespace Reader

/-- The same is left to both readers, and they have read the same, up to spans and how tags were closed. -/
structure Alongside (r r' : Reader) : Prop where
  rest : r'.cursor.rest = r.cursor.rest
  siblings : outlineAll r'.siblings = outlineAll r.siblings
  opened : r'.opened.map levelOutline = r.opened.map levelOutline

variable {o : Dialect} {r r' q : Reader}

/-- Nothing stands behind what is left. -/
theorem Alongside.longer (h : Alongside r r') : Longer [] r.cursor r'.cursor := by
  rw [Longer, h.rest, List.append_nil]

theorem breaksOff_nil : BreaksOff [] := fun _ hc => by cases hc

/-- One more sibling. -/
theorem Alongside.push (h : Alongside r r') {n n' : Node} {c c' : Cursor} (hcursor : Longer [] c c')
    (hn : n'.outline = n.outline) :
    Alongside ⟨c, n :: r.siblings, r.opened⟩ ⟨c', n' :: r'.siblings, r'.opened⟩ := by
  refine ⟨?_, ?_, h.opened⟩
  · exact hcursor.trans (List.append_nil _)
  · show outlineAll (n' :: r'.siblings) = outlineAll (n :: r.siblings)
    rw [outlineAll_cons, outlineAll_cons, hn, h.siblings]

theorem Alongside.opened_length (h : Alongside r r') : r'.opened.length = r.opened.length := by
  have hlength := congrArg List.length h.opened
  rwa [List.length_map, List.length_map] at hlength

/-- The innermost open elements are the same. -/
theorem Alongside.opened_cons (h : Alongside r r') {opening : Opening} {before : List Node}
    {levels : List (Opening × List Node)} (hopened : r.opened = (opening, before) :: levels) :
    ∃ opening' before' levels', r'.opened = (opening', before') :: levels' ∧ opening'.shape = opening.shape ∧
      outlineAll before' = outlineAll before ∧ levels'.map levelOutline = levels.map levelOutline := by
  have hmap := h.opened
  rw [hopened, List.map_cons] at hmap
  obtain ⟨⟨opening', before'⟩, levels', hopened', hlevel, hlevels⟩ := List.map_eq_cons_iff.1 hmap
  obtain ⟨hopening, hbefore⟩ := Prod.mk.inj hlevel
  exact ⟨opening', before', levels', hopened', hopening, hbefore, hlevels⟩

theorem Alongside.opened_nil (h : Alongside r r') (hopened : r.opened = []) : r'.opened = [] := by
  have hmap := h.opened
  rwa [hopened, List.map_nil, List.map_eq_nil_iff] at hmap

theorem Alongside.inRawText_eq (h : Alongside r r') : r'.inRawText = r.inRawText := by
  unfold inRawText
  cases hopened : r.opened with
  | nil => rw [h.opened_nil hopened]
  | cons level levels =>
    obtain ⟨opening', before', levels', hopened', hopening, -⟩ := h.opened_cons hopened
    rw [hopened']
    exact congrArg Element.isRawText (Opening.name_congr hopening)

/-! ## The steps -/

theorem openTag_alongside (h : Alongside r r') (hr : openTag o r = .ok q) :
    ∃ q', openTag o r' = .ok q' ∧ Alongside q q' := by
  obtain ⟨opening, after, hopening, hcases⟩ := openTag_cases hr
  obtain ⟨opening', after', hopening', hshape, hafter⟩ := readOpening_longer h.longer breaksOff_nil hopening
  unfold openTag
  rw [hopening']
  show ∃ q', (if opening'.isOpen then _ else _) = _ ∧ _
  rw [Opening.isOpen_congr hshape]
  rcases hcases with ⟨hopen, hdepth, rfl⟩ | ⟨hclosed, n, hn, rfl⟩
  · have hroom : ¬ r'.opened.length ≥ o.maxDepth := by
      rw [h.opened_length]
      exact Nat.not_le_of_lt hdepth
    rw [if_pos hopen, if_neg hroom]
    refine ⟨_, rfl, hafter.trans (List.append_nil _), rfl, ?_⟩
    rw [List.map_cons, List.map_cons, h.opened, levelOutline, levelOutline, hshape, h.siblings]
  · have hpaired : opening'.paired.shape = opening.paired.shape := congrArg Opening.paired hshape
    obtain ⟨n', hn', hsame⟩ := tagNode_outline hpaired (rfl : outlineAll [] = outlineAll []) hn
      after'.position
    rw [hclosed, if_neg Bool.false_ne_true, hn']
    exact ⟨_, rfl, h.push hafter hsame⟩

theorem closeTag_alongside (h : Alongside r r') {opening opening' : Opening} {before before' : List Node}
    {levels levels' : List (Opening × List Node)} (hopening : opening'.shape = opening.shape)
    (hbefore : outlineAll before' = outlineAll before)
    (hlevels : levels'.map levelOutline = levels.map levelOutline)
    (hr : closeTag o r opening before levels = .ok q) :
    ∃ q', closeTag o r' opening' before' levels' = .ok q' ∧ Alongside q q' := by
  obtain ⟨after, n, hafter, hn, rfl⟩ := closeTag_eq_ok hr
  obtain ⟨after', hafter', hlonger⟩ := readClosing_longer h.longer breaksOff_nil hafter
  have hsiblings : outlineAll r'.siblings.reverse = outlineAll r.siblings.reverse := by
    rw [outlineAll_reverse, outlineAll_reverse, h.siblings]
  have hpaired : opening'.paired.shape = opening.paired.shape := congrArg Opening.paired hopening
  obtain ⟨n', hn', hsame⟩ := tagNode_outline hpaired hsiblings hn after'.position
  refine ⟨⟨after', n' :: before', levels'⟩, ?_, hlonger.trans (List.append_nil _), ?_, hlevels⟩
  · unfold closeTag
    rw [Opening.name_congr hopening, hafter']
    show (tagNode o opening' r'.siblings.reverse after'.position >>= _) = _
    rw [hn']
    rfl
  · rw [outlineAll_cons, outlineAll_cons, hsame, hbefore]

theorem readNode_alongside (h : Alongside r r') (hleft : 0 < r.cursor.left) (hr : readNode o r = .ok q) :
    ∃ q', readNode o r' = .ok q' ∧ Alongside q q' := by
  have hform : formAt r'.inRawText r'.cursor = formAt r.inRawText r.cursor := by
    rw [h.inRawText_eq, formAt_longer h.longer breaksOff_nil hleft]
  unfold readNode at hr ⊢
  rw [hform]
  cases hcase : formAt r.inRawText r.cursor with
  | between opening closing make =>
    rw [hcase] at hr
    obtain ⟨⟨n, after⟩, hn, hr⟩ := bind_eq_ok hr
    obtain rfl := Except.ok.inj hr
    obtain ⟨hclosing, hmake⟩ := between_of_formAt hcase
    obtain ⟨n', after', hn', hsame, hlonger⟩ := readBetween_longer h.longer hclosing hmake hn
    dsimp only
    rw [hn']
    exact ⟨_, rfl, h.push hlonger (outline_congr hsame)⟩
  | plain =>
    rw [hcase] at hr
    obtain rfl := Except.ok.inj hr
    have hends : plainText r.inRawText [] = [] := rfl
    obtain ⟨hsame, hlonger⟩ := readText_longer h.longer breaksOff_nil hleft hends
    rw [h.inRawText_eq]
    exact ⟨_, rfl, h.push hlonger (outline_congr hsame)⟩
  | tag =>
    rw [hcase] at hr
    exact openTag_alongside h hr

/-- A step of one reader is a step of the other one. -/
theorem step_alongside (h : Alongside r r') (hr : step o r = .ok (.next q)) :
    ∃ q', step o r' = .ok (.next q') ∧ Alongside q q' := by
  have hahead : ∀ tag, closingAhead tag r'.cursor = closingAhead tag r.cursor := fun tag => by
    simp only [closingAhead, Cursor.afterIgnoringCase?, h.rest]
  have hmarks : r'.cursor.startsWith "</" = r.cursor.startsWith "</" := by
    simp only [Cursor.startsWith, h.rest]
  obtain ⟨hend, hcases⟩ := step_eq_next hr
  have hend' : r'.cursor.atEnd = false := by rwa [Cursor.atEnd, h.rest]
  rcases hcases with ⟨opening, before, levels, hopened, hmark, hclosing, hclose⟩ | ⟨hat, hnode⟩
  · obtain ⟨opening', before', levels', hopened', hopening, hbefore, hlevels⟩ := h.opened_cons hopened
    obtain ⟨q', hq', halong⟩ := closeTag_alongside h hopening hbefore hlevels hclose
    have hclosing' : closingAhead opening'.tag.name r'.cursor = true := by
      rw [Opening.name_congr hopening, hahead, hclosing]
    refine ⟨q', ?_, halong⟩
    rw [step_of_closing hend' (hmarks.trans hmark) hopened' hclosing', hq']
    rfl
  · obtain ⟨q', hq', halong⟩ := readNode_alongside h (Nat.zero_lt_of_lt (left_of_step hr)) hnode
    have hat' : r'.AtNode := by
      intro hmark
      obtain ⟨opening, before, levels, hopened, hclosing, hraw⟩ := hat (hmarks.symm.trans hmark)
      obtain ⟨opening', before', levels', hopened', hopening, -⟩ := h.opened_cons hopened
      have hname := Opening.name_congr hopening
      exact ⟨opening', before', levels', hopened', by rw [hname, hahead, hclosing], by rw [hname, hraw]⟩
    refine ⟨q', ?_, halong⟩
    rw [step_of_atNode hend' hat', hq']
    rfl

/-- Where one reader hands out its siblings, the other one hands out siblings of the same outline. -/
theorem run_alongside (h : Alongside r r') {nodes : List Node} (hr : run o r = .ok nodes) :
    ∃ nodes', run o r' = .ok nodes' ∧ outlineAll nodes' = outlineAll nodes := by
  fun_induction run o r generalizing r' with
  | case1 r e hlast => cases hr
  | case2 r nodes' hlast =>
    obtain rfl := Except.ok.inj hr
    obtain ⟨hend, hopened, rfl⟩ := step_done hlast
    obtain ⟨⟨p, rest⟩, siblings, opened⟩ := r'
    obtain rfl : rest = [] := h.rest.trans (List.isEmpty_iff.1 hend)
    obtain rfl : opened = [] := h.opened_nil hopened
    exact ⟨_, run_atEnd p siblings, by rw [outlineAll_reverse, outlineAll_reverse, h.siblings]⟩
  | case3 r q hnext _ ih =>
    obtain ⟨q', hq', halong⟩ := step_alongside h hnext
    rw [run_of_step hq']
    exact ih halong hr

end Reader

end Stencil.Template
