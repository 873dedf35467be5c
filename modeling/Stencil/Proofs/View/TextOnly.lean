import Stencil.Proofs.Template.Faithful
import Stencil.Proofs.Template.Undirected
import Stencil.Proofs.Template.Inside
import Stencil.Proofs.View.OneStore
/-
  Templates of text and expressions alone.

  A text without tags and remarks is taken apart in two places: the reader makes nodes of it when it is a
  template, and the text of an attribute is split where it is rendered.  Both cut the text at the first
  opening mark, and from there at the first closing mark of its kind; the reader only has no nodes for
  literals that are empty, and refuses an expression that is not closed.

  The main statement is that a text which compiles has the same pieces on both ways, so rendering the
  template gives what its expressions are replaced by in an attribute, or the same error.
-/

namespace Stencil

/-! ## The pieces of a text -/

namespace Interpolation

/-- No opening mark begins in a text where `rest` comes after it. -/
def Unopened (text rest : List Char) : Prop :=
  ∀ before after, text = before ++ after → after ≠ [] → ∀ escaped more,
    after ++ rest ≠ opening escaped ++ more

/-- A text is cut into pieces: literals, between which there are expressions.  An expression begins at the
    first opening mark, and ends at the first closing mark of its kind; it is what stands between them, but
    for blanks at either end. -/
inductive Cut : List Char → List Piece → Prop where
  | last {text : List Char} (htext : Unopened text []) : Cut text [.literal (String.ofList text)]
  | more {text content rest : List Char} {escaped : Bool} {pieces : List Piece}
      (htext : Unopened text (opening escaped ++ content ++ closing escaped ++ rest))
      (hcontent : Text.EndsFirst content (closing escaped)) (h : Cut rest pieces) :
      Cut (text ++ opening escaped ++ content ++ closing escaped ++ rest)
        (.literal (String.ofList text) :: .expression (String.ofList (Text.trim content)) escaped :: pieces)

/-- Whether a piece is more than an empty literal. -/
def Piece.nonempty : Piece → Bool
  | .literal text => !text.toList.isEmpty
  | .expression .. => true

/-- What comes next is an opening mark, or it is not. -/
theorem findOpening_cons_cases (c : Char) (cs : List Char) :
    (∃ escaped rest, c :: cs = opening escaped ++ rest ∧
      findOpening (c :: cs) = some ([], escaped, rest)) ∨
    (∀ escaped rest, c :: cs ≠ opening escaped ++ rest) ∧
      findOpening (c :: cs) = (findOpening cs).map fun (before, found) => (c :: before, found) := by
  rw [findOpening]
  split
  · next rest hraw => exact .inl ⟨false, rest, Text.afterMark_eq_some_iff.1 hraw, rfl⟩
  · next rest _ hescaped => exact .inl ⟨true, rest, Text.afterMark_eq_some_iff.1 hescaped, rfl⟩
  · next hraw hescaped =>
    refine .inr ⟨fun escaped rest heq => ?_, rfl⟩
    rw [← Text.afterMark_eq_some_iff] at heq
    cases escaped with
    | true => rw [hescaped] at heq; cases heq
    | false => rw [hraw] at heq; cases heq

/-- In front of an opening mark one more character is free of them. -/
theorem Unopened.cons {c : Char} {text rest : List Char} (h : Unopened text rest)
    (hc : ∀ escaped more, c :: text ++ rest ≠ opening escaped ++ more) : Unopened (c :: text) rest := by
  intro before after htext hne escaped more heq
  cases before with
  | nil =>
    obtain rfl : c :: text = after := htext
    exact hc escaped more heq
  | cons b before =>
    obtain ⟨-, htext⟩ := List.cons.inj htext
    exact h before after htext hne escaped more heq

theorem unopened_nil (rest : List Char) : Unopened [] rest := by
  intro before after htext hne
  exact absurd (List.append_eq_nil_iff.1 htext.symm).2 hne

/-- The opening mark that is found is the first one. -/
theorem unopened_of_findOpening {cs before inner : List Char} {escaped : Bool}
    (h : findOpening cs = some (before, escaped, inner)) :
    Unopened before (opening escaped ++ inner) := by
  induction cs generalizing before with
  | nil => cases h
  | cons c cs ih =>
    rcases findOpening_cons_cases c cs with ⟨escaped', rest, -, hfound⟩ | ⟨hnone, hfound⟩
    · rw [hfound] at h
      obtain ⟨rfl, -⟩ := Prod.mk.inj (Option.some.inj h)
      exact unopened_nil _
    · rw [hfound] at h
      obtain ⟨⟨front, found⟩, hrest, heq⟩ := Option.map_eq_some_iff.1 h
      obtain ⟨rfl, rfl⟩ := Prod.mk.inj heq
      refine (ih hrest).cons fun escaped' more heq => hnone escaped' more ?_
      rw [← heq, findOpening_eq_some hrest, List.cons_append, List.append_assoc]

theorem unopened_of_findOpening_eq_none {cs : List Char} (h : findOpening cs = none) : Unopened cs [] := by
  induction cs with
  | nil => exact unopened_nil _
  | cons c cs ih =>
    rcases findOpening_cons_cases c cs with ⟨_, _, -, hfound⟩ | ⟨hnone, hfound⟩
    · rw [hfound] at h
      cases h
    · rw [hfound, Option.map_eq_none_iff] at h
      refine (ih h).cons fun escaped more heq => hnone escaped more ?_
      rw [← heq, List.append_nil]

theorem split_of_findOpening_eq_none {cs : List Char} (h : findOpening cs = none) :
    split cs = [.literal (String.ofList cs)] := by
  rw [split]
  split <;> simp_all

theorem split_of_findOpening {cs before inner content after : List Char} {escaped : Bool}
    (h : findOpening cs = some (before, escaped, inner))
    (hc : Text.splitAtFirst (closing escaped) inner = some (content, after)) :
    split cs = .literal (String.ofList before) ::
      .expression (String.ofList (Text.trim content)) escaped :: split after := by
  rw [split]
  split
  · simp_all
  · next found =>
    rw [h] at found
    cases found
    split <;> simp_all

/-- Empty literals leave no trace. -/
theorem renderAll_filter_nonempty (evaluate : Evaluator) (scope : Scope) (pieces : List Piece) :
    renderAll evaluate scope (pieces.filter Piece.nonempty) = renderAll evaluate scope pieces := by
  induction pieces with
  | nil => rfl
  | cons piece pieces ih =>
    by_cases hnonempty : piece.nonempty = true
    · rw [List.filter_cons_of_pos hnonempty, renderAll, renderAll, ih]
    · rw [List.filter_cons_of_neg hnonempty, ih, renderAll]
      cases piece with
      | expression => exact absurd rfl hnonempty
      | literal text =>
        obtain rfl : text = "" := by simpa [Piece.nonempty] using hnonempty
        show _ = (renderAll evaluate scope pieces >>= fun more => Except.ok ("" ++ more))
        cases renderAll evaluate scope pieces with
        | error err => rfl
        | ok more => simp [bind, Except.bind]

end Interpolation

/-- The piece of a text that a node stands for. -/
def Node.piece? : Node → Option Interpolation.Piece
  | .text content _ => some (.literal content)
  | .expression source escaped _ => some (.expression source escaped)
  | _ => none

/-! ## Reading -/

namespace Template

open Interpolation

/-- Without tags the only marks are those that open an expression. -/
theorem markupAhead_iff {c : Char} {cs : List Char} (hc : c ≠ '<') :
    markupAhead false (c :: cs) = true ↔ ∃ escaped rest, c :: cs = opening escaped ++ rest := by
  constructor
  · intro h
    unfold markupAhead at h
    split at h
    · next rest heq => exact ⟨true, rest, heq⟩
    · next rest heq => exact ⟨false, rest, heq⟩
    · next heq => exact absurd (List.cons.inj heq).1 hc
    · next heq => exact absurd (List.cons.inj heq).1 hc
    · cases h
  · rintro ⟨escaped, rest, heq⟩
    rw [heq]
    cases escaped <;> rfl

/-- Plain text goes on to the first opening mark. -/
theorem plainText_of_unopened {text rest : List Char} (hangle : '<' ∉ text) (h : Unopened text rest)
    (hrest : plainText false rest = []) : plainText false (text ++ rest) = text := by
  induction text with
  | nil => exact hrest
  | cons c text ih =>
    obtain ⟨hc, htext⟩ := not_or.1 (mt List.mem_cons.2 hangle)
    have htail : Unopened text rest := fun before after heq =>
      h (c :: before) after (congrArg (c :: ·) heq)
    rw [List.cons_append, plainText, if_neg fun hmark => ?_, ih htext htail]
    obtain ⟨escaped, more, heq⟩ := (markupAhead_iff (Ne.symm hc)).1 hmark
    exact h [] (c :: text) rfl (List.cons_ne_nil _ _) escaped more heq

/-- A text without tags and remarks. -/
structure TextOnly (cs : List Char) : Prop where
  tags : '<' ∉ cs
  remarks : ¬ "\x7b\x7b--".toList <:+: cs

theorem TextOnly.of_append {front cs : List Char} (h : TextOnly (front ++ cs)) : TextOnly cs :=
  ⟨fun hmem => h.tags (List.mem_append_right _ hmem),
    fun hpart => h.remarks (hpart.trans (List.suffix_append front cs).isInfix)⟩

/-- The marks of an expression are those it is read between. -/
theorem toList_expressionMarks (escaped : Bool) :
    (expressionMarks escaped).1.toList = opening escaped ∧
      (expressionMarks escaped).2.toList = closing escaped := by
  cases escaped <;> exact ⟨rfl, rfl⟩

theorem formAt_of_unopened {p : Nat} {c : Char} {cs : List Char} (hc : c ≠ '<')
    (hnone : ∀ escaped rest, c :: cs ≠ opening escaped ++ rest) :
    formAt false ⟨p, c :: cs⟩ = .plain := by
  have hbrace : ∀ rest, c :: cs ≠ '\x7b' :: '\x7b' :: rest := fun rest => hnone true rest
  have hremark : Cursor.startsWith ⟨p, c :: cs⟩ "\x7b\x7b--" = false :=
    Cursor.startsWith_eq_false fun rest => hbrace ('-' :: '-' :: rest)
  have hraw : Cursor.startsWith ⟨p, c :: cs⟩ "\x7b!!" = false :=
    Cursor.startsWith_eq_false fun rest => hnone false rest
  have hescaped : Cursor.startsWith ⟨p, c :: cs⟩ "\x7b\x7b" = false :=
    Cursor.startsWith_eq_false hbrace
  have htag : ∀ mark : String, mark.toList.head? = some '<' →
      Cursor.startsWith ⟨p, c :: cs⟩ mark = false := fun mark hmark =>
    Cursor.startsWith_eq_false_of_head hmark fun heq => hc (Option.some.inj heq)
  have hopening : openingAhead (c :: cs) = false := by simp [openingAhead, hc]
  simp [formAt, hremark, hraw, hescaped, htag "<!--" rfl, htag "<!" rfl, htag "<?" rfl, hopening]

theorem formAt_opening {p : Nat} {escaped : Bool} {inner : List Char}
    (h : TextOnly (opening escaped ++ inner)) :
    formAt false ⟨p, opening escaped ++ inner⟩ =
      expressionForm (expressionMarks escaped).1 (expressionMarks escaped).2 escaped := by
  have hremark : Cursor.startsWith ⟨p, opening escaped ++ inner⟩ "\x7b\x7b--" = false :=
    Cursor.startsWith_eq_false fun rest heq => h.remarks ⟨[], rest, heq.symm⟩
  unfold formAt
  rw [hremark]
  cases escaped <;> rfl

namespace Reader

variable {o : Dialect} {p : Nat} {siblings nodes : List Node}

/-- Outside all elements, and where no tag is, a node comes next. -/
theorem step_outside {c : Char} {cs : List Char} (hc : c ≠ '<') :
    step o ⟨⟨p, c :: cs⟩, siblings, []⟩ = .next <$> readNode o ⟨⟨p, c :: cs⟩, siblings, []⟩ := by
  have hmark : Cursor.startsWith ⟨p, c :: cs⟩ "</" = false :=
    Cursor.startsWith_eq_false_of_head rfl fun heq => hc (Option.some.inj heq)
  exact step_of_atNode rfl (atNode_of_startsWith_eq_false hmark)

/-- What stands in front of the first opening mark becomes one node, if it is not empty. -/
theorem run_literal (o : Dialect) (p : Nat) (siblings : List Node) {text rest : List Char}
    (hangle : '<' ∉ text) (h : Unopened text rest) (hrest : plainText false rest = []) :
    ∃ (p' : Nat) (front : List Node), run o ⟨⟨p, text ++ rest⟩, siblings, []⟩ =
        run o ⟨⟨p', rest⟩, front.reverse ++ siblings, []⟩ ∧
      front.map Node.piece? = ([.literal (String.ofList text)].filter Piece.nonempty).map some := by
  cases text with
  | nil => exact ⟨p, [], rfl, rfl⟩
  | cons c text =>
    have hc : c ≠ '<' := fun heq => hangle (heq ▸ List.mem_cons_self)
    have hplain : plainText false (text ++ rest) = text :=
      plainText_of_unopened (fun hmem => hangle (List.mem_cons_of_mem _ hmem))
        (fun before after heq => h (c :: before) after (congrArg (c :: ·) heq)) hrest
    have hread : readNode o ⟨⟨p, c :: (text ++ rest)⟩, siblings, []⟩ =
        .ok ⟨⟨p + Text.byteLength (c :: text), rest⟩,
          .text (String.ofList (c :: text)) ⟨p, p + Text.byteLength (c :: text)⟩ :: siblings, []⟩ := by
      have hraw : inRawText ⟨⟨p, c :: (text ++ rest)⟩, siblings, []⟩ = false := rfl
      have hform : formAt false ⟨p, c :: (text ++ rest)⟩ = .plain :=
        formAt_of_unopened hc (h [] (c :: text) rfl (List.cons_ne_nil _ _))
      rw [readNode, hraw]
      simp [hform, readText, hplain, Cursor.spanFrom]
    have hstep : step o ⟨⟨p, c :: (text ++ rest)⟩, siblings, []⟩ = .next <$> readNode o _ := step_outside hc
    rw [hread] at hstep
    refine ⟨_, [.text (String.ofList (c :: text)) ⟨p, p + Text.byteLength (c :: text)⟩],
      run_of_step hstep, ?_⟩
    rw [List.filter_cons_of_pos (by simp [Piece.nonempty])]
    rfl

/-- An opening mark is read with the first closing mark behind it. -/
theorem run_expression {escaped : Bool} {inner : List Char} (honly : TextOnly (opening escaped ++ inner))
    (h : run o ⟨⟨p, opening escaped ++ inner⟩, siblings, []⟩ = .ok nodes) :
    ∃ content after p' s, Text.splitAtFirst (closing escaped) inner = some (content, after) ∧
      run o ⟨⟨p', after⟩, .expression (String.ofList (Text.trim content)) escaped s :: siblings, []⟩ =
        .ok nodes := by
  obtain ⟨hopening, hclosing⟩ := toList_expressionMarks escaped
  have hstep : step o ⟨⟨p, opening escaped ++ inner⟩, siblings, []⟩ =
      .next <$> readNode o ⟨⟨p, opening escaped ++ inner⟩, siblings, []⟩ := by
    cases escaped <;> exact step_outside (by decide)
  have hconsume : Cursor.consume? ⟨p, opening escaped ++ inner⟩ (expressionMarks escaped).1 =
      some ⟨p + Text.byteLength (opening escaped), inner⟩ := by
    rw [Cursor.consume?, hopening, Text.afterMark_eq_some_iff.2 rfl]
    rfl
  rw [readNode, show inRawText ⟨⟨p, opening escaped ++ inner⟩, siblings, []⟩ = false from rfl,
    formAt_opening honly, expressionForm] at hstep
  dsimp only at hstep
  rw [readBetween, hconsume, Option.bind_some, Cursor.through?, hclosing] at hstep
  cases hsplit : Text.splitAtFirst (closing escaped) inner with
  | none =>
    rw [hsplit] at hstep
    rcases run_eq_ok h with hdone | ⟨q, hnext, -⟩
    · rw [hstep] at hdone
      cases hdone
    · rw [hstep] at hnext
      cases hnext
  | some found =>
    obtain ⟨content, after⟩ := found
    rw [hsplit] at hstep
    rw [run_of_step hstep] at h
    exact ⟨content, after, _, _, rfl, h⟩

/-- A text that is read to its end is read as its pieces, but for empty literals. -/
theorem pieces_of_run {cs : List Char} (honly : TextOnly cs)
    (h : run o ⟨⟨p, cs⟩, siblings, []⟩ = .ok nodes) :
    Cut cs (split cs) ∧ ∃ ns, nodes = siblings.reverse ++ ns ∧
      ns.map Node.piece? = ((split cs).filter Piece.nonempty).map some := by
  -- by the length of the text: an expression and the literal in front of it are read at a time
  induction hlength : cs.length using Nat.strongRecOn generalizing cs p siblings with
  | ind n ih =>
    subst hlength
    cases hfind : findOpening cs with
    | none =>
      have hunopened := unopened_of_findOpening_eq_none hfind
      obtain ⟨p', front, hrun, hfront⟩ :=
        run_literal o p siblings honly.tags hunopened rfl
      rw [List.append_nil] at hrun
      rw [hrun, run_atEnd] at h
      rw [split_of_findOpening_eq_none hfind]
      refine ⟨.last hunopened, front, ?_, hfront⟩
      rw [← Except.ok.inj h, List.reverse_append, List.reverse_reverse]
    | some found =>
      obtain ⟨before, escaped, inner⟩ := found
      have hunopened := unopened_of_findOpening hfind
      obtain rfl := findOpening_eq_some hfind
      rw [List.append_assoc] at honly h
      have hopens : plainText false (opening escaped ++ inner) = [] := by cases escaped <;> rfl
      obtain ⟨p', front, hrun, hfront⟩ := run_literal o p siblings
        (fun hmem => honly.tags (List.mem_append_left _ hmem)) hunopened hopens
      rw [hrun] at h
      obtain ⟨content, after, p'', s, hsplit, hrest⟩ := run_expression honly.of_append h
      obtain rfl := Text.splitAtFirst_eq_some hsplit
      have hafter : TextOnly after := by
        have hmarked := honly.of_append.of_append
        exact hmarked.of_append
      obtain ⟨hcut, ns, rfl, hns⟩ := ih after.length (length_after_lt hfind hsplit) hafter hrest rfl
      rw [split_of_findOpening hfind hsplit]
      refine ⟨?_, front ++ .expression (String.ofList (Text.trim content)) escaped s :: ns, ?_, ?_⟩
      · have hmore : Cut (before ++ opening escaped ++ content ++ closing escaped ++ after) _ :=
          .more (by simpa only [List.append_assoc] using hunopened)
            (Text.endsFirst_of_splitAtFirst hsplit) hcut
        simpa only [List.append_assoc] using hmore
      · simp
      · rw [List.map_append, hfront, List.map_cons, hns, ← List.singleton_append (l := _ :: _),
          List.filter_append, List.map_append]
        rfl

end Reader

/-! ## Linking -/

theorem tag?_of_piece? {n : Node} {piece : Piece} (h : n.piece? = some piece) : n.tag? = none := by
  cases n with
  | text => rfl
  | expression => rfl
  | comment => cases h
  | element => cases h
  | component => cases h
  | slot => cases h

theorem inside_of_piece? {n : Node} {piece : Piece} (h : n.piece? = some piece) :
    Siblings.inside n = [] := by
  cases n with
  | text => rfl
  | expression => rfl
  | comment => cases h
  | element => cases h
  | component => cases h
  | slot => cases h

/-- Text and expressions have no directives, and nothing inside. -/
theorem undirected_of_pieces {ns : List Node} {pieces : List Piece}
    (h : ns.map Node.piece? = pieces.map some) :
    ∀ n ∈ ns, Siblings.Throughout Node.Undirected n := by
  intro n hn
  obtain ⟨piece, -, hpiece⟩ := List.mem_map.1 (h ▸ List.mem_map_of_mem hn)
  refine ⟨Node.undirected_of_tag?_eq_none (tag?_of_piece? hpiece.symm), ?_⟩
  rw [inside_of_piece? hpiece.symm]
  exact fun _ hl => absurd hl List.not_mem_nil

/-- The nodes of a text that compiles are its pieces, but for empty literals. -/
theorem pieces_of_compile {o : Dialect} {source : String} {t : Template}
    (honly : TextOnly source.toList) (h : compile o source = .ok t) :
    Cut source.toList (split source.toList) ∧
      t.children.map Node.piece? = ((split source.toList).filter Piece.nonempty).map some := by
  obtain ⟨written, hwritten, hlink⟩ := Reader.bind_eq_ok h
  obtain ⟨hcut, ns, hchildren, hns⟩ := Reader.pieces_of_run honly (parse_eq_ok hwritten)
  obtain rfl : written.children = ns := hchildren
  have hlinked : written.link = .ok written :=
    link_of_undirected (Siblings.forall_mem_lists.2 (undirected_of_pieces hns))
  obtain rfl := Except.ok.inj (hlinked.symm.trans hlink)
  exact ⟨hcut, hns⟩

end Template

/-! ## Rendering -/

namespace Render

open Interpolation

/-- Text and expressions are rendered as the pieces they stand for, and ask for no component. -/
theorem run_nodes_of_pieces {e : Engine} {fillings : List Filling} {nesting : Nat} {scope : Scope}
    {p : Progress} {ns : List Node} {pieces : List Piece}
    (h : ns.map Node.piece? = pieces.map some) (s : Store) :
    (nodes e fillings nesting scope p ns).run s =
      ((renderAll e.evaluator scope pieces).mapError .expression, s) := by
  induction ns generalizing pieces with
  | nil =>
    cases pieces with
    | nil =>
      rw [nodes]
      rfl
    | cons piece pieces => cases h
  | cons n ns ih =>
    cases pieces with
    | nil => cases h
    | cons piece pieces =>
      obtain ⟨hn, hns⟩ := List.cons.inj h
      cases n with
      | text content span =>
        obtain rfl := Option.some.inj hn
        rw [nodes, Rendering.run_bind, ih hns, renderAll]
        cases renderAll e.evaluator scope pieces <;> rfl
      | expression source escaped span =>
        obtain rfl := Option.some.inj hn
        rw [nodes, Rendering.run_bind, renderAll, Piece.render]
        cases e.evaluator source scope with
        | error err => rfl
        | ok v =>
          show (nodes e fillings nesting scope p ns >>= _).run s = _
          rw [Rendering.run_bind, ih hns]
          cases renderAll e.evaluator scope pieces <;> rfl
      | comment => cases hn
      | element => cases hn
      | component => cases hn
      | slot => cases hn

end Render

end Stencil
