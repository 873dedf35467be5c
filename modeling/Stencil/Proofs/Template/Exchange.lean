import Stencil.Proofs.Template.Inside
import Stencil.Proofs.Template.Lossless
import Stencil.Proofs.Template.TagsReadBack
/-
  Reading before one text and before another.

  What a reader has read up to some place in a source says nothing about what stands behind that place: with
  any other text there it would have read the same, as long as no mark goes on into the text, and plain
  text stops in front of the other one as well.  Since all that is read can be read again from the text that
  was used up, each reading is exactly the same, with all its spans.

  The main statement is about so many steps: two readers that differ in the end of their sources take the same
  steps up to that end.
-/

namespace Stencil

namespace Cursor

/-- A cursor with more behind what it has. -/
def followedBy (c : Cursor) (next : List Char) : Cursor := ⟨c.position, c.rest ++ next⟩

theorem longer_followedBy (c : Cursor) (next : List Char) : Longer next c (c.followedBy next) := rfl

/-- What is read in front of a text is read from what stands there. -/
theorem Reads.of_followedBy {c d : Cursor} {w tail : List Char} (h : (c.followedBy tail).Reads w d)
    (hleft : tail.length ≤ d.left) : ∃ c' : Cursor, d = c'.followedBy tail ∧ c.Reads w c' := by
  have hsame : c.rest ++ tail = w ++ d.rest := h.rest_eq
  obtain ⟨position, rest⟩ := d
  rcases List.append_eq_append_iff.1 hsame with ⟨as, rfl, htail⟩ | ⟨bs, hrest, rfl⟩
  · -- there is no room for what would be left of the text
    have hlength := congrArg List.length htail
    have hle : tail.length ≤ rest.length := hleft
    rw [List.length_append] at hlength
    dsimp only at hlength
    obtain rfl : as = [] := List.length_eq_zero_iff.1 (by omega)
    refine ⟨⟨position, []⟩, by rw [htail]; rfl, ?_, h.position_eq⟩
    rw [List.append_nil, List.append_nil]
  · exact ⟨⟨position, bs⟩, rfl, hrest, h.position_eq⟩

end Cursor

namespace Template

open Cursor (BreaksOff)
open Tag (IsTagName)

/-- One text may stand for another one: no mark goes on into either, and plain text that stops in front of
    the first stops in front of the second. -/
structure StandsFor (tail' tail : List Char) : Prop where
  breaksOff : BreaksOff tail
  breaksOff' : BreaksOff tail'
  plain : ∀ rawText, plainText rawText tail = [] → plainText rawText tail' = []

variable {tail tail' : List Char} {c d : Cursor}

/-! ## Pieces -/

theorem StandsFor.formAt_eq (h : StandsFor tail' tail) (hleft : 0 < c.left) (rawText : Bool) :
    formAt rawText (c.followedBy tail') = formAt rawText (c.followedBy tail) :=
  (formAt_longer (c.longer_followedBy tail') h.breaksOff' hleft rawText).trans
    (formAt_longer (c.longer_followedBy tail) h.breaksOff hleft rawText).symm

theorem StandsFor.startsWith_eq (h : StandsFor tail' tail) (hleft : 0 < c.left) {mark : String}
    (hmark : '<' ∉ mark.toList.tail) :
    (c.followedBy tail').startsWith mark = (c.followedBy tail).startsWith mark :=
  ((c.longer_followedBy tail').startsWith h.breaksOff' hleft hmark).trans
    ((c.longer_followedBy tail).startsWith h.breaksOff hleft hmark).symm

theorem closingAhead_followedBy (htail : BreaksOff tail) (hleft : 0 < c.left) {tag : String}
    (hname : IsTagName tag.toList) : closingAhead tag (c.followedBy tail) = closingAhead tag c := by
  have hangle : '<' ∉ tag.toList.map Char.toLower := by
    intro hmem
    obtain ⟨ch, hch, hlower⟩ := List.mem_map.1 hmem
    have hchar := hname.chars ch hch
    rw [← Tag.isTagChar_toLower, hlower] at hchar
    cases hchar
  cases hahead : closingAhead tag c with
  | true => exact closingAhead_longer (c.longer_followedBy tail) hahead
  | false => exact closingAhead_longer_eq_false (c.longer_followedBy tail) htail hleft hangle hahead

theorem StandsFor.closingAhead_eq (h : StandsFor tail' tail) (hleft : 0 < c.left) {tag : String}
    (hname : IsTagName tag.toList) :
    closingAhead tag (c.followedBy tail') = closingAhead tag (c.followedBy tail) :=
  (closingAhead_followedBy h.breaksOff' hleft hname).trans
    (closingAhead_followedBy h.breaksOff hleft hname).symm

/-- Plain text that stops somewhere in front of a text stops there whatever the text is. -/
theorem StandsFor.plainText_eq (h : StandsFor tail' tail) (rawText : Bool) {cs : List Char}
    (hends : (plainText rawText (cs ++ tail)).length ≤ cs.length) :
    plainText rawText (cs ++ tail') = plainText rawText (cs ++ tail) := by
  induction cs with
  | nil =>
    have hnone : plainText rawText tail = [] := List.length_eq_zero_iff.1 (Nat.le_zero.1 hends)
    rw [List.nil_append, List.nil_append, hnone, h.plain rawText hnone]
  | cons ch cs ih =>
    have hread : ∀ {next : List Char}, BreaksOff next → plainText rawText (ch :: cs ++ next) =
        if markupAhead rawText (ch :: cs) then [] else ch :: plainText rawText (cs ++ next) := by
      intro next hnext
      rw [List.cons_append, plainText, ← List.cons_append, markupAhead_longer rawText ch cs hnext]
    rw [hread h.breaksOff] at hends ⊢
    rw [hread h.breaksOff']
    split
    · rfl
    · next hmark =>
      rw [if_neg hmark] at hends
      rw [ih (Nat.le_of_succ_le_succ hends)]

theorem readText_followedBy (h : StandsFor tail' tail) (hleft : 0 < c.left) (rawText : Bool) {n : Node}
    (hc : readText rawText (c.followedBy tail) = (n, d)) (hd : tail.length ≤ d.left) :
    ∃ c' : Cursor, d = c'.followedBy tail ∧ readText rawText (c.followedBy tail') = (n, c'.followedBy tail') := by
  obtain ⟨p, rest⟩ := c
  obtain ⟨ch, cs, rfl⟩ := List.exists_cons_of_ne_nil (Cursor.rest_ne_nil hleft)
  have hread : ∀ next, readText rawText (Cursor.followedBy ⟨p, ch :: cs⟩ next) =
      (.text (String.ofList (ch :: plainText rawText (cs ++ next)))
          ⟨p, p + Text.byteLength (ch :: plainText rawText (cs ++ next))⟩,
        ⟨p + Text.byteLength (ch :: plainText rawText (cs ++ next)),
          (cs ++ next).drop (plainText rawText (cs ++ next)).length⟩) := fun _ => rfl
  rw [hread] at hc
  obtain ⟨rfl, rfl⟩ := Prod.mk.inj hc
  have hends : (plainText rawText (cs ++ tail)).length ≤ cs.length := by
    have hsplit := congrArg List.length (plainText_append_drop rawText (cs ++ tail))
    simp only [Cursor.left] at hd
    simp only [List.length_append] at hsplit
    omega
  have hplain := h.plainText_eq rawText hends
  refine ⟨⟨p + Text.byteLength (ch :: plainText rawText (cs ++ tail)),
    cs.drop (plainText rawText (cs ++ tail)).length⟩, ?_, ?_⟩
  · rw [Cursor.followedBy, List.drop_append_of_le_length hends]
  · rw [hread, hplain, Cursor.followedBy, List.drop_append_of_le_length hends]

theorem readBetween_followedBy {opening closing : String} {make : List Char → Span → Node}
    (hclosing : closing.toList ≠ []) {n : Node}
    (hc : readBetween opening closing make (c.followedBy tail) = .ok (n, d)) (hd : tail.length ≤ d.left)
    (tail' : List Char) :
    ∃ c' : Cursor, d = c'.followedBy tail ∧
      readBetween opening closing make (c.followedBy tail') = .ok (n, c'.followedBy tail') := by
  obtain ⟨body, hreads, hbody, rfl⟩ := reads_of_readBetween hc
  obtain ⟨c', rfl, hread⟩ := hreads.of_followedBy hd
  refine ⟨c', rfl, ?_⟩
  rw [Cursor.followedBy, hread.rest_eq, List.append_assoc, readBetween_eq opening make hclosing hbody,
    ← hread.position_eq]
  rfl

theorem readOpening_followedBy {opening : Opening} (hahead : openingAhead (c.followedBy tail).rest = true)
    (hc : readOpening (c.followedBy tail) = .ok (opening, d)) (hd : tail.length ≤ d.left)
    (tail' : List Char) :
    ∃ c' : Cursor, d = c'.followedBy tail ∧ readOpening (c.followedBy tail') = .ok (opening, c'.followedBy tail') := by
  obtain ⟨more, written, hreads, hname, hmore, hwritten, hsort, -⟩ := written_of_readOpening hahead hc
  obtain ⟨c', rfl, hread⟩ := hreads.of_followedBy hd
  refine ⟨c', rfl, ?_⟩
  -- the tag is read again from its text, with either text behind it
  have hagain := readOpening_eq hname hmore hwritten hsort
  have hcursor : ∀ next, c.followedBy next =
      ⟨c.position, '<' :: opening.tag.name.toList ++ more ++ (c'.rest ++ next)⟩ := by
    intro next
    rw [Cursor.followedBy, hread.rest_eq, List.append_assoc]
  rw [hcursor] at hc ⊢
  obtain ⟨hopening, hafter⟩ := Prod.mk.inj (Except.ok.inj ((hagain (c'.rest ++ tail)).symm.trans hc))
  refine (hagain (c'.rest ++ tail')).trans ?_
  exact congrArg₂ (fun opening p => Except.ok (opening, Cursor.mk p (c'.rest ++ tail'))) hopening
    (congrArg Cursor.position hafter)

theorem readClosing_followedBy {tag : String} (hname : IsTagName tag.toList)
    (hmark : (c.followedBy tail).startsWith "</" = true)
    (hahead : closingAhead tag (c.followedBy tail) = true)
    (hc : readClosing tag (c.followedBy tail) = .ok d) (hd : tail.length ≤ d.left) (tail' : List Char) :
    ∃ c' : Cursor, d = c'.followedBy tail ∧ readClosing tag (c.followedBy tail') = .ok (c'.followedBy tail') := by
  obtain ⟨text, hreads, htext⟩ := closingText_of_readClosing hname hmark hahead hc
  obtain ⟨c', rfl, hread⟩ := hreads.of_followedBy hd
  refine ⟨c', rfl, ?_⟩
  rw [Cursor.followedBy, hread.rest_eq, List.append_assoc, readClosing_eq hname htext, ← hread.position_eq]
  rfl

namespace Reader

/-! ## Steps -/

/-- A reader with more of a source behind what it has. -/
def followedBy (r : Reader) (next : List Char) : Reader := { r with cursor := r.cursor.followedBy next }

variable {o : Dialect} {r q : Reader}

theorem openTag_followedBy (hahead : openingAhead (r.followedBy tail).cursor.rest = true)
    (h : openTag o (r.followedBy tail) = .ok q) (hq : tail.length ≤ q.cursor.left) (tail' : List Char) :
    ∃ q' : Reader, q = q'.followedBy tail ∧ openTag o (r.followedBy tail') = .ok (q'.followedBy tail') := by
  obtain ⟨opening, after, hopening, hcases⟩ := openTag_cases h
  have hafter : tail.length ≤ after.left := by
    rcases hcases with ⟨-, -, rfl⟩ | ⟨-, n, -, rfl⟩ <;> exact hq
  obtain ⟨c', rfl, hopening'⟩ := readOpening_followedBy hahead hopening hafter tail'
  unfold openTag
  rw [show (r.followedBy tail').cursor = r.cursor.followedBy tail' from rfl, hopening']
  show ∃ q' : Reader, _ ∧ (if opening.isOpen then _ else _) = _
  rcases hcases with ⟨hopen, hdepth, rfl⟩ | ⟨hclosed, n, hn, rfl⟩
  · have hroom : ¬ (r.followedBy tail').opened.length ≥ o.maxDepth := Nat.not_le_of_lt hdepth
    refine ⟨⟨c', [], (opening, r.siblings) :: r.opened⟩, rfl, ?_⟩
    rw [if_pos hopen, if_neg hroom]
    rfl
  · have hn' : tagNode o opening [] (c'.followedBy tail').position = .ok n := hn
    refine ⟨⟨c', n :: r.siblings, r.opened⟩, rfl, ?_⟩
    rw [if_neg (by simp [hclosed]), hn']
    rfl

theorem closeTag_followedBy {opening : Opening} (hname : IsTagName opening.tag.name.toList)
    {before : List Node} {outer : List (Opening × List Node)}
    (hmark : (r.followedBy tail).cursor.startsWith "</" = true)
    (hahead : closingAhead opening.tag.name (r.followedBy tail).cursor = true)
    (h : closeTag o (r.followedBy tail) opening before outer = .ok q) (hq : tail.length ≤ q.cursor.left)
    (tail' : List Char) :
    ∃ q' : Reader, q = q'.followedBy tail ∧
      closeTag o (r.followedBy tail') opening before outer = .ok (q'.followedBy tail') := by
  obtain ⟨after, n, hclosing, hn, rfl⟩ := closeTag_eq_ok h
  obtain ⟨c', rfl, hclosing'⟩ := readClosing_followedBy hname hmark hahead hclosing hq tail'
  have hn' : tagNode o opening r.siblings.reverse (c'.followedBy tail').position = .ok n := hn
  refine ⟨⟨c', n :: before, outer⟩, rfl, ?_⟩
  unfold closeTag
  rw [show (r.followedBy tail').cursor = r.cursor.followedBy tail' from rfl, hclosing']
  show (tagNode o opening r.siblings.reverse (c'.followedBy tail').position >>= _) = _
  rw [hn']
  rfl

theorem readNode_followedBy (hstands : StandsFor tail' tail) (hleft : 0 < r.cursor.left)
    (h : readNode o (r.followedBy tail) = .ok q) (hq : tail.length ≤ q.cursor.left) :
    ∃ q' : Reader, q = q'.followedBy tail ∧ readNode o (r.followedBy tail') = .ok (q'.followedBy tail') := by
  have hform : formAt (r.followedBy tail').inRawText (r.followedBy tail').cursor =
      formAt (r.followedBy tail).inRawText (r.followedBy tail).cursor := hstands.formAt_eq hleft r.inRawText
  unfold readNode at h ⊢
  rw [hform]
  cases hcase : formAt (r.followedBy tail).inRawText (r.followedBy tail).cursor with
  | between opening closing make =>
    rw [hcase] at h
    obtain ⟨⟨n, after⟩, hn, h⟩ := bind_eq_ok h
    obtain rfl := Except.ok.inj h
    obtain ⟨c', rfl, hn'⟩ := readBetween_followedBy (between_of_formAt hcase).1 hn hq tail'
    refine ⟨⟨c', n :: r.siblings, r.opened⟩, rfl, ?_⟩
    dsimp only
    rw [show (r.followedBy tail').cursor = r.cursor.followedBy tail' from rfl, hn']
    rfl
  | plain =>
    rw [hcase] at h
    obtain rfl := Except.ok.inj h
    obtain ⟨c', hafter, htext⟩ := readText_followedBy hstands hleft r.inRawText rfl hq
    refine ⟨⟨c', (readText r.inRawText (r.cursor.followedBy tail)).1 :: r.siblings, r.opened⟩, ?_, ?_⟩
    · exact congrArg (fun d => Reader.mk d _ r.opened) hafter
    · exact congrArg (fun found : Node × Cursor => Except.ok (Reader.mk found.2 (found.1 :: r.siblings) r.opened))
        htext
  | tag =>
    rw [hcase] at h
    exact openTag_followedBy (openingAhead_of_formAt hcase) h hq tail'

/-- The innermost open element has a name, if there is one. -/
def Named (r : Reader) : Prop := ∀ level ∈ r.opened.head?, IsTagName level.1.tag.name.toList

theorem Invariant.named {source : String} (h : Invariant o source r) : r.Named := by
  intro level hlevel
  obtain ⟨levels, hopened⟩ := List.head?_eq_some_iff.1 hlevel
  have hlevels := h.levels
  rw [hopened] at hlevels
  cases hlevels with
  | inner hopening =>
    obtain ⟨text, -, htext⟩ := hopening.text
    exact htext.1

/-- A step that stops in front of a text is the same step in front of another one. -/
theorem step_followedBy (hstands : StandsFor tail' tail) (hnamed : r.Named)
    (h : step o (r.followedBy tail) = .ok (.next q)) (hq : tail.length ≤ q.cursor.left) :
    ∃ q' : Reader, q = q'.followedBy tail ∧ step o (r.followedBy tail') = .ok (.next (q'.followedBy tail')) := by
  have hleft : 0 < r.cursor.left := by
    have hused := left_of_step h
    have hlength : (r.followedBy tail).cursor.left = r.cursor.left + tail.length := List.length_append
    omega
  have hend : (r.followedBy tail').cursor.atEnd = false := (r.cursor.longer_followedBy tail').atEnd hleft
  have hmarks : (r.followedBy tail').cursor.startsWith "</" = (r.followedBy tail).cursor.startsWith "</" :=
    hstands.startsWith_eq hleft (by decide)
  have hnamed' : ∀ {opening before levels}, r.opened = (opening, before) :: levels →
      IsTagName opening.tag.name.toList := fun hopened => hnamed _ (by rw [hopened]; rfl)
  obtain ⟨-, ⟨opening, before, levels, hopened, hmark, hahead, hclose⟩ | ⟨hat, hnode⟩⟩ := step_eq_next h
  · have hname := hnamed' hopened
    obtain ⟨q', rfl, hclose'⟩ := closeTag_followedBy hname hmark hahead hclose hq tail'
    have hahead' : closingAhead opening.tag.name (r.followedBy tail').cursor = true :=
      (hstands.closingAhead_eq hleft hname).trans hahead
    refine ⟨q', rfl, ?_⟩
    rw [step_of_closing hend (hmarks.trans hmark) hopened hahead', hclose']
    rfl
  · obtain ⟨q', rfl, hnode'⟩ := readNode_followedBy hstands hleft hnode hq
    have hat' : (r.followedBy tail').AtNode := by
      intro hmark
      obtain ⟨opening, before, levels, hopened, hahead, hraw⟩ := hat (hmarks.symm.trans hmark)
      exact ⟨opening, before, levels, hopened,
        (hstands.closingAhead_eq hleft (hnamed' hopened)).trans hahead, hraw⟩
    refine ⟨q', rfl, ?_⟩
    rw [step_of_atNode hend hat', hnode']
    rfl

/-! ## So many steps -/

/-- The second reader comes after the first one, by so many steps. -/
def Reaches (o : Dialect) : Reader → Reader → Prop :=
  Relation.ReflTransGen fun r q => step o r = .ok (.next q)

theorem Reaches.run_eq (h : Reaches o r q) : run o r = run o q := by
  induction h with
  | refl => rfl
  | tail _ hstep ih => rw [ih, run_of_step hstep]

theorem Reaches.invariant {source : String} (h : Reaches o r q) (hr : Invariant o source r) :
    Invariant o source q := by
  induction h with
  | refl => exact hr
  | tail _ hstep ih => exact invariant_of_step ih hstep

/-- What is read in front of a text is read in front of another one. -/
theorem Reaches.followedBy {source : String} (hstands : StandsFor tail' tail)
    (hr : Invariant o source (r.followedBy tail)) (h : Reaches o (r.followedBy tail) q)
    (hq : tail.length ≤ q.cursor.left) :
    ∃ q' : Reader, q = q'.followedBy tail ∧ Reaches o (r.followedBy tail') (q'.followedBy tail') := by
  induction h with
  | refl => exact ⟨r, rfl, .refl⟩
  | @tail mid q hmid hstep ih =>
    obtain ⟨mid', rfl, hmid'⟩ := ih (Nat.le_trans hq (Nat.le_of_lt (left_of_step hstep)))
    have hnamed : mid'.Named := (Reaches.invariant hmid hr).named
    obtain ⟨q', rfl, hstep'⟩ := step_followedBy hstands hnamed hstep hq
    exact ⟨q', rfl, hmid'.tail hstep'⟩

/-- A reader of a source comes to the same place, with the same behind it, in every source that has the same
    text up to there. -/
theorem Reaches.exchange {source : String} {before : List Char}
    (hsource : source.toList = before ++ r.cursor.rest) (hstands : StandsFor tail' r.cursor.rest)
    (h : Reaches o ⟨Cursor.start source, [], []⟩ r) :
    Reaches o ⟨Cursor.start (String.ofList (before ++ tail')), [], []⟩
      { r with cursor := ⟨r.cursor.position, tail'⟩ } := by
  have hstart : (⟨Cursor.start source, [], []⟩ : Reader) =
      Reader.followedBy ⟨⟨0, before⟩, [], []⟩ r.cursor.rest := by
    rw [Cursor.start, hsource]
    rfl
  have hinv := invariant_start o source
  rw [hstart] at h hinv
  obtain ⟨r', hr', hreaches⟩ := h.followedBy hstands hinv (Nat.le_refl _)
  have hnone : r'.cursor.rest = [] := by
    have hlength := congrArg (fun r : Reader => r.cursor.rest.length) hr'
    simp only [Reader.followedBy, Cursor.followedBy, List.length_append] at hlength
    exact List.length_eq_zero_iff.1 (by omega)
  have hplace : r'.followedBy tail' = ⟨⟨r'.cursor.position, tail'⟩, r'.siblings, r'.opened⟩ := by
    rw [Reader.followedBy, Cursor.followedBy, hnone, List.nil_append]
  rw [hplace] at hreaches
  rw [hr', Cursor.start, String.toList_ofList]
  exact hreaches

end Reader

end Template

end Stencil
