import Stencil.Proofs.Template.Alongside
import Stencil.Proofs.View.CopiedText
import Stencil.Proofs.View.PairedRendering
/-
  A tag that closes itself is an abbreviation.

  Where a source has a tag that ends with `/>`, another source may have the tag with `>` and its closing tag.
  The reader takes one step over the first and two steps over the second, and comes to the same rest of the
  source with nodes of one outline.  Up to the tag it has read the same in both sources, and from there on it
  reads alongside, so the two trees have one outline.  What the tag is called and what it stands in does not
  matter.

  There is one condition.  A slash right in front of `/>` would end a tag that closes itself when `/>` is
  replaced by `>`, and then the closing tag is one too many.

  The main statement is that the two sources compile or fail to compile together, and render the same.
-/

namespace Stencil.Template

open Node
open Tag (IsTagName)
open Text (NotAhead)

/-- The source in which `>` and the closing tag of this name stand where `/>` ended a tag: what is in front of
    the `/>`, and what is behind it. -/
def closedApart (front : List Char) (name : String) (behind : List Char) : String :=
  String.ofList (front ++ '>' :: (closingTag name.toList ++ behind))

/-! ## The tag -/

/-- An opening tag that closes itself is read with `>` in the place of `/>` as well, to its span and how it is
    closed. -/
theorem readOpening_reopened {c after : Cursor} {opening : Opening} (hahead : openingAhead c.rest = true)
    (h : readOpening c = .ok (opening, after)) (hself : opening.selfClosing = true) :
    ∃ ch cs, ch.isAlpha = true ∧ c.rest = '<' :: ch :: cs ++ '/' :: '>' :: after.rest ∧
      IsTagName opening.tag.name.toList ∧
      (cs.getLast? ≠ some '/' → ∀ next, ∃ s,
        readOpening ⟨c.position, '<' :: ch :: cs ++ '>' :: next⟩ =
          .ok ({ opening with selfClosing := false, span := s }, ⟨s.stop, next⟩)) := by
  obtain ⟨more, written, hreads, hname, hmore, hwritten, hsort, -⟩ := written_of_readOpening hahead h
  obtain ⟨front, rfl, hreopened⟩ := hwritten.reopened hself
  obtain ⟨ch, cs, hfirst, hch⟩ := hname.first
  refine ⟨ch, cs ++ front, hch, ?_, hname, fun hslash next => ?_⟩
  · rw [hreads.rest_eq, hfirst]
    simp
  -- all but the end of the tag is what it was
  have hlast : front.getLast? ≠ some '/' := by
    intro hlast
    rw [List.getLast?_append, hlast] at hslash
    exact hslash rfl
  have hmore' : NotAhead Cursor.isTagChar (front ++ ['>']) := by
    cases front with
    | nil =>
      intro c hc
      obtain rfl := Option.some.inj hc
      rfl
    | cons d front => exact hmore
  have hrest : c = ⟨c.position, '<' :: opening.tag.name.toList ++ (front ++ ['/', '>']) ++ after.rest⟩ := by
    rw [← hreads.rest_eq]
  have hagain := readOpening_eq hname hmore hwritten hsort after.rest
  rw [← hrest, h] at hagain
  obtain ⟨hopening, -⟩ := Prod.mk.inj (Except.ok.inj hagain)
  have hreopening := readOpening_eq hname hmore' (hreopened hlast) hsort next
  have htext : '<' :: ch :: (cs ++ front) ++ '>' :: next =
      '<' :: opening.tag.name.toList ++ (front ++ ['>']) ++ next := by
    rw [hfirst]
    simp
  rw [htext]
  generalize c.position + 1 + Text.byteLength opening.tag.name.toList + Text.byteLength (front ++ ['>']) =
    stop at hreopening
  exact ⟨⟨c.position, stop⟩, hreopening.trans (congrArg (fun opening : Opening => Except.ok
    (({ opening with selfClosing := false, span := ⟨c.position, stop⟩ } : Opening), Cursor.mk stop next))
    hopening.symm)⟩

namespace Reader

variable {o : Dialect} {r : Reader} {opening : Opening} {after : Cursor}

/-- Where an opening tag begins, neither the source nor an element ends, and the tag is read. -/
theorem step_of_tag (htag : formAt r.inRawText r.cursor = .tag) :
    r.cursor.atEnd = false ∧ step o r = .next <$> openTag o r := by
  have hahead := openingAhead_of_formAt htag
  obtain ⟨⟨p, rest⟩, siblings, opened⟩ := r
  unfold openingAhead at hahead
  split at hahead
  · next c cs hrest =>
    obtain rfl : rest = '<' :: c :: cs := hrest
    have hat : AtNode ⟨⟨p, '<' :: c :: cs⟩, siblings, opened⟩ := by
      refine atNode_of_startsWith_eq_false (Cursor.startsWith_eq_false fun more heq => ?_)
      obtain rfl : c = '/' := (List.cons.inj (List.cons.inj heq).2).1
      cases hahead
    refine ⟨rfl, ?_⟩
    rw [step_of_atNode rfl hat, readNode, htag]
  · cases hahead

/-- A reader that gets past a tag that closes itself has made a node of it. -/
theorem run_selfClosed (htag : formAt r.inRawText r.cursor = .tag)
    (hopening : readOpening r.cursor = .ok (opening, after)) (hself : opening.selfClosing = true)
    {nodes : List Node} (hrun : run o r = .ok nodes) :
    ∃ n, tagNode o opening [] after.position = .ok n ∧
      run o ⟨after, n :: r.siblings, r.opened⟩ = .ok nodes := by
  obtain ⟨hend, hstep⟩ := step_of_tag (o := o) htag
  rcases run_eq_ok hrun with hdone | ⟨q, hnext, hrest⟩
  · rw [(step_done hdone).1] at hend
    cases hend
  · rw [hstep] at hnext
    obtain ⟨opening', after', hopening', hcases⟩ := openTag_cases (map_next_eq_ok hnext)
    obtain ⟨rfl, rfl⟩ := Prod.mk.inj (Except.ok.inj (hopening.symm.trans hopening'))
    rcases hcases with ⟨hopen, -⟩ | ⟨-, n, hn, rfl⟩
    · rw [Opening.isOpen, hself] at hopen
      cases hopen
    · exact ⟨n, hn, hrest⟩

/-- A tag that waits for its closing tag begins a level, where there may be one more. -/
theorem step_of_isOpen (htag : formAt r.inRawText r.cursor = .tag)
    (hopening : readOpening r.cursor = .ok (opening, after)) (hopen : opening.isOpen = true)
    (hdepth : r.opened.length < o.maxDepth) :
    step o r = .ok (.next ⟨after, [], (opening, r.siblings) :: r.opened⟩) := by
  have hroom : ¬ r.opened.length ≥ o.maxDepth := Nat.not_le_of_lt hdepth
  rw [(step_of_tag htag).2, openTag, hopening]
  show (Step.next <$> if opening.isOpen then _ else _) = _
  rw [if_pos hopen, if_neg hroom]
  rfl

/-- The closing tag of the innermost element, without blanks, ends its level. -/
theorem step_closingTag (hname : IsTagName opening.tag.name.toList) (p : Nat) (next : List Char)
    {siblings before : List Node} (opened : List (Opening × List Node)) {n : Node}
    (hn : tagNode o opening siblings.reverse (p + Text.byteLength (closingTag opening.tag.name.toList)) = .ok n) :
    step o ⟨⟨p, closingTag opening.tag.name.toList ++ next⟩, siblings, (opening, before) :: opened⟩ =
      .ok (.next ⟨⟨p + Text.byteLength (closingTag opening.tag.name.toList), next⟩, n :: before, opened⟩) := by
  have hclosing := readClosing_eq hname (closingText_closingTag _) p next
  rw [step_of_closing rfl rfl rfl (closingAhead_closingTag opening.tag.name p next), closeTag]
  dsimp only
  rw [hclosing]
  show (Step.next <$> (tagNode o opening siblings.reverse _ >>= _)) = _
  rw [hn]
  rfl

/-- The tag with its closing tag is read in two steps, to a node of the outline of the tag that closes
    itself. -/
theorem reaches_closedApart {p : Nat} {front behind : List Char} {s : Span}
    (htag : formAt r.inRawText ⟨p, front ++ '>' :: (closingTag opening.tag.name.toList ++ behind)⟩ = .tag)
    (hreopened : readOpening ⟨p, front ++ '>' :: (closingTag opening.tag.name.toList ++ behind)⟩ =
      .ok ({ opening with selfClosing := false, span := s },
        ⟨s.stop, closingTag opening.tag.name.toList ++ behind⟩))
    (hname : IsTagName opening.tag.name.toList) (hvoid : Element.isVoid opening.tag.name = false)
    (hdepth : r.opened.length < o.maxDepth) {n : Node} {stop : Nat} (hn : tagNode o opening [] stop = .ok n) :
    ∃ q n', n'.outline = n.outline ∧
      Reaches o ⟨⟨p, front ++ '>' :: (closingTag opening.tag.name.toList ++ behind)⟩, r.siblings, r.opened⟩
        ⟨⟨q, behind⟩, n' :: r.siblings, r.opened⟩ := by
  generalize hopening' : { opening with selfClosing := false, span := s } = opening' at hreopened
  have hopen : opening'.isOpen = true := by
    rw [← hopening', Opening.isOpen, hvoid]
    rfl
  have hshape : opening'.paired.shape = opening.paired.shape := by
    rw [← hopening']
    rfl
  have hnamed : opening'.tag.name = opening.tag.name := by rw [← hopening']
  rw [← hnamed] at hname htag hreopened ⊢
  have hfirst := step_of_isOpen
    (r := ⟨⟨p, front ++ '>' :: (closingTag opening'.tag.name.toList ++ behind)⟩, r.siblings, r.opened⟩)
    htag hreopened hopen hdepth
  obtain ⟨n', hn', hsame⟩ := tagNode_outline hshape (rfl : outlineAll [] = outlineAll []) hn
    (s.stop + Text.byteLength (closingTag opening'.tag.name.toList))
  exact ⟨_, n', hsame, .tail (.single hfirst) (step_closingTag hname s.stop behind r.opened hn')⟩

end Reader

/-! ## The whole source -/

theorem standsFor_of_isAlpha {ch : Char} (hch : ch.isAlpha = true) (cs cs' : List Char) :
    StandsFor ('<' :: ch :: cs') ('<' :: ch :: cs) := by
  refine ⟨fun c hc => (Option.some.inj hc).symm, fun c hc => (Option.some.inj hc).symm, fun rawText hplain => ?_⟩
  cases rawText with
  | false => rw [plainText, if_pos (markupAhead_of_isAlpha hch cs')]
  | true =>
    -- in raw text, plain text goes on over the tag
    have hmark : markupAhead true ('<' :: ch :: cs) = false := by
      by_cases hslash : ch = '/'
      · rw [hslash] at hch
        cases hch
      · simp [markupAhead]
    rw [plainText, hmark] at hplain
    cases hplain

variable {o : Dialect} {source : String} {t : Template}

/-- Nodes that are handed out at the end of a source are those of its template. -/
theorem exists_parse_eq_ok {nodes : List Node} (h : Reader.run o ⟨Cursor.start source, [], []⟩ = .ok nodes) :
    ∃ t, parse o source = .ok t ∧ t.children = nodes := by
  rw [parse, h]
  exact ⟨_, rfl, rfl⟩

/-- A source with the tag closed apart is read to a tree of the same outline. -/
theorem parse_closedApart (hparse : parse o source = .ok t) {r : Reader}
    (hr : Reader.Reaches o ⟨Cursor.start source, [], []⟩ r) (htag : formAt r.inRawText r.cursor = .tag)
    {opening : Opening} {after : Cursor} (hopening : readOpening r.cursor = .ok (opening, after))
    (hself : opening.selfClosing = true) (hvoid : Element.isVoid opening.tag.name = false)
    (hdepth : r.opened.length < o.maxDepth) :
    ∃ front, source.toList = front ++ '/' :: '>' :: after.rest ∧
      (front.getLast? ≠ some '/' →
        ∃ t', parse o (closedApart front opening.tag.name after.rest) = .ok t' ∧
          outlineAll t'.children = outlineAll t.children) := by
  obtain ⟨before, hsource, -⟩ := (hr.invariant (Reader.invariant_start o source)).on
  obtain ⟨ch, cs, hch, htext, hname, hreopened⟩ :=
    readOpening_reopened (Reader.openingAhead_of_formAt htag) hopening hself
  refine ⟨before ++ '<' :: ch :: cs, by rw [hsource, htext, List.append_assoc], fun hslash => ?_⟩
  rw [List.getLast?_append, List.getLast?_cons_cons, List.getLast?_cons] at hslash
  have hlast : cs.getLast? ≠ some '/' := by
    intro hlast
    rw [hlast] at hslash
    exact hslash rfl
  obtain ⟨s, hopening'⟩ := hreopened hlast (closingTag opening.tag.name.toList ++ after.rest)
  generalize hfront : '<' :: ch :: cs = front at *
  generalize htail : front ++ '>' :: (closingTag opening.tag.name.toList ++ after.rest) = tail at *
  -- up to the tag the two sources are read the same
  have hstands : StandsFor tail r.cursor.rest := by
    rw [htext, ← htail, ← hfront]
    exact standsFor_of_isAlpha hch _ _
  have hfirst := hr.exchange hsource hstands
  -- the tag is passed in one step, and the two tags in two
  obtain ⟨n, hn, hrest⟩ := Reader.run_selfClosed htag hopening hself (hr.run_eq.symm.trans (parse_eq_ok hparse))
  have htag' : formAt r.inRawText ⟨r.cursor.position, tail⟩ = .tag := by
    rw [inRawText_of_formAt htag, ← htail, ← hfront]
    exact formAt_of_isAlpha hch _ _
  obtain ⟨q, n', hsame, hpair⟩ := Reader.reaches_closedApart (htail ▸ htag') (htail ▸ hopening') hname hvoid hdepth hn
  rw [htail] at hpair
  -- from there on they are read alongside
  have halong : Reader.Alongside ⟨after, n :: r.siblings, r.opened⟩
      ⟨⟨q, after.rest⟩, n' :: r.siblings, r.opened⟩ := by
    refine ⟨rfl, ?_, rfl⟩
    rw [outlineAll_cons, outlineAll_cons, hsame]
  obtain ⟨nodes, hnodes, houtline⟩ := Reader.run_alongside halong hrest
  have hread := (Reader.Reaches.run_eq (hfirst.trans hpair)).trans hnodes
  obtain ⟨t', hparse', rfl⟩ := exists_parse_eq_ok hread
  refine ⟨t', ?_, houtline⟩
  rw [closedApart, List.append_assoc, htail]
  exact hparse'

/-- Sources that are read to trees of one outline compile to trees of one outline. -/
theorem compile_outline {source' : String} {t' u : Template} (hparse : parse o source = .ok t)
    (hparse' : parse o source' = .ok t') (h : outlineAll t'.children = outlineAll t.children)
    (hu : compile o source = .ok u) :
    ∃ u', compile o source' = .ok u' ∧ outlineAll u'.children = outlineAll u.children := by
  unfold compile at hu ⊢
  rw [hparse] at hu
  rw [hparse']
  exact link_outline h hu

end Stencil.Template
