import Stencil.Proofs.Expression.VariableNames
import Stencil.Proofs.View.TextOnly
/-
  Every closed expression of a text.

  An opening mark is closed when a closing mark of its kind comes after it.  A text is read from left to
  right, and wherever a closed expression begins it is taken out; all else, opening marks that are not
  closed among it, is literal.  This is a relation between a text and its pieces, and every text has
  exactly one list of pieces.

  The splitter of texts looks for opening marks instead, and stops at the first one that is not closed.  The
  main statement is that it finds these pieces where no such mark stands in front of a closed expression.
-/

namespace Stencil

namespace Interpolation

/-! ## Reading from left to right -/

/-- A closed expression begins here: an opening mark, and later a closing mark of its kind. -/
def ClosedAhead (cs : List Char) : Prop :=
  ∃ escaped content rest, cs = opening escaped ++ content ++ closing escaped ++ rest

/-- No closed expression begins in a text where `rest` comes after it. -/
def Bare (text rest : List Char) : Prop :=
  ∀ before after, text = before ++ after → after ≠ [] → ¬ ClosedAhead (after ++ rest)

/-- The pieces of a text: its closed expressions, each up to the first closing mark of its kind, and the
    literals around them. -/
inductive Scanned : List Char → List Piece → Prop where
  | last {text : List Char} (htext : Bare text []) : Scanned text [.literal (String.ofList text)]
  | more {text content rest : List Char} {escaped : Bool} {pieces : List Piece}
      (htext : Bare text (opening escaped ++ content ++ closing escaped ++ rest))
      (hcontent : Text.EndsFirst content (closing escaped)) (h : Scanned rest pieces) :
      Scanned (text ++ (opening escaped ++ content ++ closing escaped ++ rest))
        (.literal (String.ofList text) :: .expression (String.ofList (Text.trim content)) escaped :: pieces)

theorem bare_nil (rest : List Char) : Bare [] rest := by
  intro before after htext hne
  exact absurd (List.append_eq_nil_iff.1 htext.symm).2 hne

theorem bare_cons_iff {c : Char} {text rest : List Char} :
    Bare (c :: text) rest ↔ ¬ ClosedAhead (c :: text ++ rest) ∧ Bare text rest := by
  constructor
  · intro h
    exact ⟨h [] (c :: text) rfl (List.cons_ne_nil _ _),
      fun before after htext => h (c :: before) after (congrArg (c :: ·) htext)⟩
  · rintro ⟨hc, h⟩ before after htext hne
    cases before with
    | nil =>
      obtain rfl : c :: text = after := htext
      exact hc
    | cons b before => exact h before after (List.cons.inj htext).2 hne

/-- What follows the opening mark at the front of a text is split at the closing mark, if there is one. -/
theorem closedAhead_iff {cs : List Char} : ClosedAhead cs ↔
    ∃ escaped, ((Text.afterMark (opening escaped) cs).bind (Text.splitAtFirst (closing escaped))).isSome := by
  constructor
  · rintro ⟨escaped, before, after, rfl⟩
    obtain ⟨content, rest, hsplit⟩ := Text.exists_splitAtFirst (closing escaped) before after
    have hmark : Text.afterMark (opening escaped) (opening escaped ++ before ++ closing escaped ++ after) =
        some (before ++ closing escaped ++ after) :=
      Text.afterMark_eq_some_iff.2 (by simp only [List.append_assoc])
    exact ⟨escaped, by rw [hmark, Option.bind_some, hsplit]; rfl⟩
  · rintro ⟨escaped, hsome⟩
    obtain ⟨⟨content, rest⟩, hbind⟩ := Option.isSome_iff_exists.1 hsome
    obtain ⟨inner, hmark, hsplit⟩ := Option.bind_eq_some_iff.1 hbind
    refine ⟨escaped, content, rest, ?_⟩
    rw [Text.afterMark_eq_some_iff.1 hmark, Text.splitAtFirst_eq_some hsplit]
    simp only [List.append_assoc]

instance (cs : List Char) : Decidable (ClosedAhead cs) := decidable_of_iff _ closedAhead_iff.symm

instance decidableBare : (text rest : List Char) → Decidable (Bare text rest)
  | [], rest => .isTrue (bare_nil rest)
  | c :: text, rest =>
    have := decidableBare text rest
    decidable_of_iff (¬ ClosedAhead (c :: text ++ rest) ∧ Bare text rest) bare_cons_iff.symm

/-- Two texts in front of closed expressions end at the same place, as neither has one in it. -/
theorem Bare.eq_of_append {text other rest others : List Char} (htext : Bare text rest)
    (hother : Bare other others) (hrest : ClosedAhead rest) (hothers : ClosedAhead others)
    (h : text ++ rest = other ++ others) : text = other ∧ rest = others := by
  rcases List.append_eq_append_iff.1 h with ⟨between, rfl, hbetween⟩ | ⟨between, rfl, hbetween⟩
  · cases between with
    | nil => exact ⟨(List.append_nil text).symm, hbetween⟩
    | cons b between => exact absurd (hbetween ▸ hrest) (hother text _ rfl (List.cons_ne_nil _ _))
  · cases between with
    | nil => exact ⟨List.append_nil other, hbetween.symm⟩
    | cons b between => exact absurd (hbetween ▸ hothers) (htext other _ rfl (List.cons_ne_nil _ _))

/-- The kind, the content and the rest of a closed expression are read off the text. -/
theorem eq_of_closed {escaped escaped' : Bool} {content content' rest rest' : List Char}
    (hcontent : Text.EndsFirst content (closing escaped))
    (hcontent' : Text.EndsFirst content' (closing escaped'))
    (h : opening escaped ++ content ++ closing escaped ++ rest =
      opening escaped' ++ content' ++ closing escaped' ++ rest') :
    escaped = escaped' ∧ content = content' ∧ rest = rest' := by
  have hkind : escaped = escaped' := by
    cases escaped <;> cases escaped' <;> simp [opening] at h ⊢
  subst hkind
  refine ⟨rfl, ?_⟩
  simp only [List.append_assoc, List.append_cancel_left_eq] at h
  have hclosing : closing escaped ≠ [] := by cases escaped <;> exact List.cons_ne_nil _ _
  have hsplit := Text.splitAtFirst_of_endsFirst hcontent hclosing rest
  rw [List.append_assoc, h, ← List.append_assoc, Text.splitAtFirst_of_endsFirst hcontent' hclosing] at hsplit
  obtain ⟨hc, hr⟩ := Prod.mk.inj (Option.some.inj hsplit)
  exact ⟨hc.symm, hr.symm⟩

theorem closedAhead_mk (escaped : Bool) (content rest : List Char) :
    ClosedAhead (opening escaped ++ content ++ closing escaped ++ rest) := ⟨escaped, content, rest, rfl⟩

/-- A text is bare to its end, or has a first closed expression. -/
theorem scanned_cases {cs : List Char} {pieces : List Piece} (h : Scanned cs pieces) :
    (Bare cs [] ∧ pieces = [.literal (String.ofList cs)]) ∨
    ∃ text content rest escaped more,
      cs = text ++ (opening escaped ++ content ++ closing escaped ++ rest) ∧
      Bare text (opening escaped ++ content ++ closing escaped ++ rest) ∧
      Text.EndsFirst content (closing escaped) ∧ Scanned rest more ∧
      pieces = .literal (String.ofList text) :: .expression (String.ofList (Text.trim content)) escaped ::
        more := by
  cases h with
  | last htext => exact .inl ⟨htext, rfl⟩
  | more htext hcontent h => exact .inr ⟨_, _, _, _, _, rfl, htext, hcontent, h, rfl⟩

/-- No text that goes on with a closed expression is bare to its end. -/
theorem not_bare_append {text rest : List Char} (hrest : ClosedAhead rest) (hne : rest ≠ []) :
    ¬ Bare (text ++ rest) [] := by
  intro hbare
  refine hbare text rest rfl hne ?_
  rw [List.append_nil]
  exact hrest

theorem closed_ne_nil (escaped : Bool) (content rest : List Char) :
    opening escaped ++ content ++ closing escaped ++ rest ≠ [] := by
  cases escaped <;> exact List.cons_ne_nil _ _

/-- A text has only one list of pieces. -/
theorem Scanned.unique {cs : List Char} {pieces others : List Piece} (h : Scanned cs pieces)
    (h' : Scanned cs others) : pieces = others := by
  induction h generalizing others with
  | @last text htext =>
    rcases scanned_cases h' with ⟨-, rfl⟩ | ⟨_, content, rest, escaped, _, rfl, -⟩
    · rfl
    · exact absurd htext (not_bare_append (closedAhead_mk escaped content rest) (closed_ne_nil _ _ _))
  | @more text content rest escaped pieces htext hcontent _ ih =>
    rcases scanned_cases h' with ⟨hbare, -⟩ | ⟨text', content', rest', escaped', more, heq, htext',
      hcontent', hmore, rfl⟩
    · exact absurd hbare (not_bare_append (closedAhead_mk escaped content rest) (closed_ne_nil _ _ _))
    · obtain ⟨rfl, hclosed⟩ := htext.eq_of_append htext' (closedAhead_mk escaped content rest)
        (closedAhead_mk escaped' content' rest') heq
      obtain ⟨rfl, rfl, rfl⟩ := eq_of_closed hcontent hcontent' hclosed
      rw [ih hmore]

/-- The first closed expression of a text, if there is one. -/
theorem bare_or_closed (cs : List Char) :
    Bare cs [] ∨ ∃ text content rest escaped,
      cs = text ++ (opening escaped ++ content ++ closing escaped ++ rest) ∧
      Bare text (opening escaped ++ content ++ closing escaped ++ rest) ∧
      Text.EndsFirst content (closing escaped) := by
  induction cs with
  | nil => exact .inl (bare_nil _)
  | cons c cs ih =>
    by_cases hclosed : ClosedAhead (c :: cs)
    · obtain ⟨escaped, before, after, heq⟩ := hclosed
      obtain ⟨content, rest, hsplit⟩ := Text.exists_splitAtFirst (closing escaped) before after
      refine .inr ⟨[], content, rest, escaped, ?_, bare_nil _, Text.endsFirst_of_splitAtFirst hsplit⟩
      rw [heq, List.nil_append, List.append_assoc, List.append_assoc, List.append_assoc,
        List.append_assoc, ← List.append_assoc before, Text.splitAtFirst_eq_some hsplit, List.append_assoc]
    · rcases ih with hbare | ⟨text, content, rest, escaped, rfl, htext, hcontent⟩
      · refine .inl (bare_cons_iff.2 ⟨?_, hbare⟩)
        rw [List.append_nil]
        exact hclosed
      · exact .inr ⟨c :: text, content, rest, escaped, rfl, bare_cons_iff.2 ⟨hclosed, htext⟩, hcontent⟩

/-- Every text has pieces. -/
theorem exists_scanned (cs : List Char) : ∃ pieces, Scanned cs pieces := by
  induction hlength : cs.length using Nat.strongRecOn generalizing cs with
  | ind n ih =>
    rcases bare_or_closed cs with hbare | ⟨text, content, rest, escaped, rfl, htext, hcontent⟩
    · exact ⟨_, .last hbare⟩
    · have hlt : rest.length < n := by
        cases escaped <;> simp [opening, closing] at hlength <;> omega
      obtain ⟨pieces, hpieces⟩ := ih rest.length hlt rest rfl
      exact ⟨_, .more htext hcontent hpieces⟩

/-! ## Where the splitter finds them -/

/-- A text in which an opening mark that is not closed has no closed expression behind it: outside of
    expressions, every opening mark with a closed expression to come is closed itself. -/
inductive Orderly : List Char → Prop where
  | last {text : List Char} (htext : Bare text []) : Orderly text
  | more {text content rest : List Char} {escaped : Bool}
      (htext : Unopened text (opening escaped ++ content ++ closing escaped ++ rest))
      (hcontent : Text.EndsFirst content (closing escaped)) (h : Orderly rest) :
      Orderly (text ++ (opening escaped ++ content ++ closing escaped ++ rest))

/-- A closed expression begins with an opening mark. -/
theorem Unopened.bare {text rest : List Char} (h : Unopened text rest) : Bare text rest := by
  rintro before after htext hne ⟨escaped, content, more, heq⟩
  refine h before after htext hne escaped (content ++ closing escaped ++ more) ?_
  rw [heq, List.append_assoc, List.append_assoc, List.append_assoc]

/-- The first opening mark is found. -/
theorem findOpening_of_unopened {text more : List Char} {escaped : Bool}
    (h : Unopened text (opening escaped ++ more)) :
    findOpening (text ++ (opening escaped ++ more)) = some (text, escaped, more) := by
  induction text with
  | nil => cases escaped <;> rfl
  | cons c text ih =>
    have htail : Unopened text (opening escaped ++ more) := fun before after heq =>
      h (c :: before) after (congrArg (c :: ·) heq)
    rcases findOpening_cons_cases c (text ++ (opening escaped ++ more)) with
      ⟨escaped', rest, heq, -⟩ | ⟨-, hfound⟩
    · exact absurd heq (h [] (c :: text) rfl (List.cons_ne_nil _ _) escaped' rest)
    · rw [List.cons_append, hfound, ih htail]
      rfl

theorem split_of_unclosed {cs before inner : List Char} {escaped : Bool}
    (h : findOpening cs = some (before, escaped, inner))
    (hc : Text.splitAtFirst (closing escaped) inner = none) : split cs = [.literal (String.ofList cs)] := by
  rw [split]
  split
  · simp_all
  · next found =>
    rw [h] at found
    cases found
    split <;> simp_all

theorem eq_of_found {cs before inner content rest : List Char} {escaped : Bool}
    (h : findOpening cs = some (before, escaped, inner))
    (hc : Text.splitAtFirst (closing escaped) inner = some (content, rest)) :
    cs = before ++ (opening escaped ++ content ++ closing escaped ++ rest) := by
  rw [findOpening_eq_some h, Text.splitAtFirst_eq_some hc]
  simp only [List.append_assoc]

/-- A text without a closed expression is one literal. -/
theorem split_of_bare {cs : List Char} (h : Bare cs []) : split cs = [.literal (String.ofList cs)] := by
  cases hfound : findOpening cs with
  | none => exact split_of_findOpening_eq_none hfound
  | some found =>
    obtain ⟨before, escaped, inner⟩ := found
    cases hsplit : Text.splitAtFirst (closing escaped) inner with
    | none => exact split_of_unclosed hfound hsplit
    | some parts =>
      obtain ⟨content, rest⟩ := parts
      rw [eq_of_found hfound hsplit] at h
      exact absurd h (not_bare_append (closedAhead_mk escaped content rest) (closed_ne_nil _ _ _))

/-- The splitter goes on behind a closed expression in front of which no other mark opens. -/
theorem split_of_unopened {text content rest : List Char} {escaped : Bool}
    (htext : Unopened text (opening escaped ++ content ++ closing escaped ++ rest))
    (hcontent : Text.EndsFirst content (closing escaped)) :
    split (text ++ (opening escaped ++ content ++ closing escaped ++ rest)) =
      .literal (String.ofList text) :: .expression (String.ofList (Text.trim content)) escaped ::
        split rest := by
  have hclosing : closing escaped ≠ [] := by cases escaped <;> exact List.cons_ne_nil _ _
  have hassoc : opening escaped ++ content ++ closing escaped ++ rest =
      opening escaped ++ (content ++ closing escaped ++ rest) := by simp only [List.append_assoc]
  rw [hassoc] at htext ⊢
  exact split_of_findOpening (findOpening_of_unopened htext)
    (Text.splitAtFirst_of_endsFirst hcontent hclosing rest)

/-- What the splitter makes of a text: one literal, or a literal up to the first opening mark, its
    expression, and what it makes of the rest. -/
theorem split_cases (cs : List Char) :
    split cs = [.literal (String.ofList cs)] ∨
    ∃ text content rest escaped,
      cs = text ++ (opening escaped ++ content ++ closing escaped ++ rest) ∧
      Unopened text (opening escaped ++ content ++ closing escaped ++ rest) ∧
      Text.EndsFirst content (closing escaped) := by
  cases hfound : findOpening cs with
  | none => exact .inl (split_of_findOpening_eq_none hfound)
  | some found =>
    obtain ⟨before, escaped, inner⟩ := found
    cases hsplit : Text.splitAtFirst (closing escaped) inner with
    | none => exact .inl (split_of_unclosed hfound hsplit)
    | some parts =>
      obtain ⟨content, rest⟩ := parts
      refine .inr ⟨before, content, rest, escaped, eq_of_found hfound hsplit, ?_,
        Text.endsFirst_of_splitAtFirst hsplit⟩
      have hopened := unopened_of_findOpening hfound
      rw [Text.splitAtFirst_eq_some hsplit] at hopened
      simpa only [List.append_assoc] using hopened

/-- In an orderly text the splitter finds the closed expressions, and only in such a text. -/
theorem orderly_iff {cs : List Char} : Orderly cs ↔ Scanned cs (split cs) := by
  constructor
  · intro h
    induction h with
    | last htext =>
      rw [split_of_bare htext]
      exact .last htext
    | more htext hcontent _ ih =>
      rw [split_of_unopened htext hcontent]
      exact .more htext.bare hcontent ih
  · intro h
    generalize hpieces : split cs = pieces at h
    induction h with
    | last htext => exact .last htext
    | @more text content rest escaped pieces htext hcontent _ ih =>
      rcases split_cases (text ++ (opening escaped ++ content ++ closing escaped ++ rest)) with
        hone | ⟨text', content', rest', escaped', heq, htext', hcontent'⟩
      · rw [hone] at hpieces
        exact absurd (List.cons.inj hpieces).2.symm (List.cons_ne_nil _ _)
      · obtain ⟨rfl, hclosed⟩ := htext.eq_of_append htext'.bare (closedAhead_mk escaped content rest)
          (closedAhead_mk escaped' content' rest') heq
        obtain ⟨rfl, rfl, rfl⟩ := eq_of_closed hcontent hcontent' hclosed
        rw [split_of_unopened htext' hcontent'] at hpieces
        exact .more htext' hcontent' (ih (List.cons.inj (List.cons.inj hpieces).2).2)

/-- Every text has exactly one list of pieces, and an orderly text is rendered as the texts of these. -/
theorem interpolate_of_orderly (evaluate : Evaluator) (scope : Scope) (text : String)
    (h : Orderly text.toList) :
    ∃ pieces, Scanned text.toList pieces ∧ (∀ others, Scanned text.toList others → others = pieces) ∧
      interpolate evaluate scope text = renderAll evaluate scope pieces :=
  ⟨split text.toList, orderly_iff.1 h, fun _ hothers => hothers.unique (orderly_iff.1 h), rfl⟩

/-- Two closed expressions and, at the end, a mark that is not closed. -/
theorem interpolate_of_orderly_both :
    interpolate (fun source _ => .ok (.text source)) (Scope.root [])
      "\x7b\x7b <a> \x7d\x7d, \x7b!! <b> !!\x7d \x7b\x7b c" = .ok "&lt;a&gt;, <b> \x7b\x7b c" := by
  have hsplit : Text.splitAtFirst (closing true) " <a> \x7d\x7d".toList =
    some ([' ', '<', 'a', '>', ' '], []) := rfl
  have hsplit' : Text.splitAtFirst (closing false) " <b> !!\x7d".toList =
    some ([' ', '<', 'b', '>', ' '], []) := rfl
  have hfound : findOpening ", \x7b!! <b> !!\x7d \x7b\x7b c".toList =
    some ([',', ' '], false, " <b> !!\x7d \x7b\x7b c".toList) := rfl
  have hfirst := Text.endsFirst_of_splitAtFirst hsplit
  have hsecond := Text.endsFirst_of_splitAtFirst hsplit'
  have hcomma : Unopened [',', ' '] "\x7b!! <b> !!\x7d \x7b\x7b c".toList := unopened_of_findOpening hfound
  have hend : Bare " \x7b\x7b c".toList [] := by decide
  obtain ⟨pieces, -, hunique, heq⟩ := interpolate_of_orderly (fun source _ => .ok (.text source))
    (Scope.root []) "\x7b\x7b <a> \x7d\x7d, \x7b!! <b> !!\x7d \x7b\x7b c"
    (.more (unopened_nil _) hfirst (.more hcomma hsecond (.last hend)))
  obtain rfl := hunique _ (.more (bare_nil _) hfirst (.more hcomma.bare hsecond (.last hend)))
  exact heq.trans rfl

/-- A mark that is not closed keeps the splitter from a closed expression of the other kind. -/
theorem interpolate_behind_unclosed :
    interpolate Functions.builtin.evaluator (Scope.root [("x", .text "b")])
      "\x7b\x7b a \x7b!! $x !!\x7d" = .ok "\x7b\x7b a \x7b!! $x !!\x7d" ∧
    ∃ pieces, Scanned "\x7b\x7b a \x7b!! $x !!\x7d".toList pieces ∧
      renderAll Functions.builtin.evaluator (Scope.root [("x", .text "b")]) pieces =
        .ok "\x7b\x7b a b" := by
  have hsplit : Text.splitAtFirst (closing false) " $x !!\x7d".toList = some ([' ', '$', 'x', ' '], []) :=
    rfl
  have hfound : findOpening "\x7b\x7b a \x7b!! $x !!\x7d".toList =
    some ([], true, " a \x7b!! $x !!\x7d".toList) := rfl
  have hunclosed : Text.splitAtFirst (closing true) " a \x7b!! $x !!\x7d".toList = none := rfl
  have hbare : Bare "\x7b\x7b a ".toList "\x7b!! $x !!\x7d".toList := by decide
  have hscanned : Scanned "\x7b\x7b a \x7b!! $x !!\x7d".toList
      [.literal "\x7b\x7b a ", .expression "$x" false, .literal ""] :=
    .more hbare (Text.endsFirst_of_splitAtFirst hsplit) (.last (bare_nil _))
  have hparse : Expr.parse "$x" = .ok (.variable "x") := by cbv
  have hvalue : Functions.builtin.evaluator "$x" (Scope.root [("x", .text "b")]) = .ok (.text "b") :=
    Functions.evaluator_of_parse hparse _
  refine ⟨?_, _, hscanned, ?_⟩
  · rw [interpolate, split_of_unclosed hfound hunclosed]
    rfl
  · simp only [renderAll, Piece.render, hvalue]
    rfl

end Interpolation

end Stencil
