import Mathlib
import Stencil.Proofs.Template.TagText
import Stencil.Template.Parser
/-
  How tags are written.

  An opening tag is `<`, a name, and what the grammar of attributes allows up to the end of the tag.  A
  closing tag is `</`, the same name in some mixture of cases of the letters A to Z, blanks, and `>`.

  The main statements are that an opening tag which is read was written as one, with the name and the
  spans the reading hands out, and that wherever the test for a closing tag succeeds and the tag is then
  read, a closing tag of that name was written.
-/

namespace Stencil

namespace Tag

open Cursor (isTagChar)
open Text (isBlank NotAhead)

/-- A name of a tag: a letter, and then tag characters. -/
structure IsTagName (name : List Char) : Prop where
  first : ∃ c cs, name = c :: cs ∧ c.isAlpha = true
  chars : ∀ c ∈ name, isTagChar c = true

/-- `text` is an opening tag with this name that begins at the byte `start`; the last argument tells `/>`
    from `>`.  The name reaches as far as it can. -/
def OpeningText (start : Nat) (name : List Char) (selfClosing : Bool) (text : List Char) : Prop :=
  IsTagName name ∧ ∃ more written, text = '<' :: name ++ more ∧ NotAhead isTagChar more ∧
    AttributesText (start + 1 + Text.byteLength name) more written selfClosing

/-- `text` is a closing tag of this name, where the case of the letters A to Z does not count. -/
def ClosingText (name text : List Char) : Prop :=
  ∃ name' gap, text = '<' :: '/' :: name' ++ gap ++ ['>'] ∧
    name'.map Char.toLower = name.map Char.toLower ∧ ∀ c ∈ gap, isBlank c = true

/-! ## Names in other cases -/

theorem isTagChar_toLower (c : Char) : isTagChar c.toLower = isTagChar c := by
  by_cases hc : c.isUpper = true
  · simp [isTagChar, Char.isAlphanum, Char.isAlpha, hc]
  · rw [Char.toLower_eq_of_not_isUpper hc]

/-- A name in other cases is a name. -/
theorem IsTagName.of_map_toLower {name name' : List Char} (h : IsTagName name)
    (hlower : name'.map Char.toLower = name.map Char.toLower) : IsTagName name' := by
  constructor
  · obtain ⟨c, cs, rfl, hc⟩ := h.first
    cases name' with
    | nil => cases hlower
    | cons d ds =>
      obtain ⟨hd, -⟩ := List.cons.inj hlower
      refine ⟨d, ds, rfl, ?_⟩
      rw [← Char.isAlpha_toLower_eq_isAlpha, hd, Char.isAlpha_toLower_eq_isAlpha, hc]
  · intro d hd
    have hmem : d.toLower ∈ name.map Char.toLower := hlower ▸ List.mem_map_of_mem hd
    obtain ⟨c, hc, hcd⟩ := List.mem_map.1 hmem
    rw [← isTagChar_toLower, ← hcd, isTagChar_toLower, h.chars c hc]

/-- A name is read to its end. -/
theorem IsTagName.tagName?_eq {name more : List Char} {c : Cursor} (h : IsTagName name)
    (hrest : c.rest = name ++ more) (hmore : NotAhead isTagChar more) :
    c.tagName? = some (name, ⟨c.position + Text.byteLength name, more⟩) := by
  obtain ⟨d, cs, hname, hd⟩ := h.first
  have hpeek : c.peek.any Char.isAlpha = true := by
    rw [Cursor.peek, hrest, hname]
    exact hd
  obtain ⟨position, rest⟩ := c
  obtain rfl : rest = name ++ more := hrest
  rw [Cursor.tagName?, if_pos hpeek, Cursor.takeWhile_eq h.chars hmore]

end Tag

namespace Template

open Tag (IsTagName OpeningText ClosingText)
open Cursor (isTagChar)
open Text (NotAhead)

/-! ## Opening tags -/

theorem isTagName_takeWhile {c : Char} {cs : List Char} (hc : c.isAlpha = true) :
    IsTagName ((c :: cs).takeWhile isTagChar) := by
  have hchar : isTagChar c = true := by simp [isTagChar, Char.isAlphanum, hc]
  refine ⟨⟨c, cs.takeWhile isTagChar, ?_, hc⟩, List.all_eq_true.1 List.all_takeWhile⟩
  rw [List.takeWhile_cons, if_pos hchar]

/-- An opening tag that is read was written as one, with the attributes that were sorted, and its two spans
    are those of the tag and of its name. -/
theorem written_of_readOpening {c d : Cursor} {opening : Opening}
    (hahead : openingAhead c.rest = true) (h : readOpening c = .ok (opening, d)) :
    ∃ more written, c.Reads ('<' :: opening.tag.name.toList ++ more) d ∧
      IsTagName opening.tag.name.toList ∧ NotAhead isTagChar more ∧
      Tag.AttributesText (c.position + 1 + Text.byteLength opening.tag.name.toList) more written
        opening.selfClosing ∧
      Tag.sort written = .ok (opening.tag.attributes, opening.tag.directives) ∧
      opening.start = c.position ∧ opening.span = ⟨c.position, d.position⟩ ∧
      opening.tag.nameSpan =
        ⟨c.position + 1, c.position + 1 + Text.byteLength opening.tag.name.toList⟩ := by
  obtain ⟨ch, cs, hrest, hch⟩ : ∃ ch cs, c.rest = '<' :: ch :: cs ∧ ch.isAlpha = true := by
    unfold openingAhead at hahead
    split at hahead
    · next ch cs hr => exact ⟨ch, cs, hr, hahead⟩
    · cases hahead
  -- the bracket and the name come first
  have hbracket : c.consume? "<" = some ⟨c.position + 1, ch :: cs⟩ := by
    rw [Cursor.consume?, hrest]
    rfl
  have hname : IsTagName ((ch :: cs).takeWhile isTagChar) := isTagName_takeWhile hch
  have htag := hname.tagName?_eq (c := ⟨c.position + 1, ch :: cs⟩)
    (List.takeWhile_append_dropWhile).symm (Text.notAhead_dropWhile isTagChar (ch :: cs))
  generalize hn : (ch :: cs).takeWhile isTagChar = name at hname htag
  generalize hm : (ch :: cs).dropWhile isTagChar = more at htag
  have hfront : c.Reads ('<' :: name) ⟨c.position + 1 + Text.byteLength name, more⟩ := by
    refine ⟨?_, ?_⟩
    · rw [hrest, ← hn, ← hm, List.cons_append, List.takeWhile_append_dropWhile]
    · rw [Text.byteLength_cons, ← Nat.add_assoc]
      rfl
  have hahead : NotAhead isTagChar more := hm ▸ Text.notAhead_dropWhile isTagChar (ch :: cs)
  -- then what the attributes are read from
  simp only [readOpening, hbracket, htag, Option.getD_some] at h
  obtain ⟨⟨attributes, directives⟩, hsort, h⟩ := Reader.bind_eq_ok h
  obtain ⟨ending, hending, h⟩ := Reader.bind_eq_ok h
  obtain ⟨rfl, rfl⟩ := by simpa using h
  obtain ⟨w, hw, hwritten⟩ := Tag.attributesText_of_readAttributes (Prod.ext rfl hending)
  have hw' : more = w ++ ending.after.rest := hw.rest_eq
  rw [hw'] at hahead
  dsimp only
  rw [String.toList_ofList]
  exact ⟨w, _, hfront.trans hw, hname, (Text.notAhead_append hwritten.ne_nil).1 hahead, hwritten, hsort,
    rfl, rfl, rfl⟩

theorem openingText_of_readOpening {c d : Cursor} {opening : Opening}
    (hahead : openingAhead c.rest = true) (h : readOpening c = .ok (opening, d)) :
    ∃ more, c.Reads ('<' :: opening.tag.name.toList ++ more) d ∧
      OpeningText c.position opening.tag.name.toList opening.selfClosing
        ('<' :: opening.tag.name.toList ++ more) ∧
      opening.start = c.position ∧ opening.span = ⟨c.position, d.position⟩ ∧
      opening.tag.nameSpan =
        ⟨c.position + 1, c.position + 1 + Text.byteLength opening.tag.name.toList⟩ := by
  obtain ⟨more, written, hreads, hname, hahead, hwritten, -, hspans⟩ := written_of_readOpening hahead h
  exact ⟨more, hreads, ⟨hname, more, written, rfl, hahead, hwritten⟩, hspans⟩

/-! ## Closing tags -/

/-- Where a closing tag of a name is seen, that name comes after `</`, and it ends there. -/
theorem rest_of_closingAhead {tag : String} {c : Cursor}
    (hmark : c.startsWith "</" = true) (h : closingAhead tag c = true) :
    ∃ name' more, c.rest = '<' :: '/' :: name' ++ more ∧
      name'.map Char.toLower = tag.toList.map Char.toLower ∧ NotAhead isTagChar more := by
  obtain ⟨d, hd⟩ := Cursor.startsWith_iff.1 hmark
  have hrest : c.rest = '<' :: '/' :: d.rest := (Cursor.reads_of_consume? hd).rest_eq
  have htext : ("</" ++ tag).toList = '<' :: '/' :: tag.toList := by simp
  unfold closingAhead at h
  split at h
  · next e more hafter =>
    unfold Cursor.afterIgnoringCase? at hafter
    rw [htext, hrest] at hafter
    simp only [List.length_cons, Bool.and_eq_true, decide_eq_true_eq, List.take_succ_cons,
      List.drop_succ_cons, Text.equalIgnoringCase, beq_iff_eq, List.map_cons, List.cons.injEq,
      true_and] at hafter
    split at hafter
    · next hsame =>
      have hdrop : d.rest.drop tag.toList.length = e :: more := by simpa using hafter
      refine ⟨d.rest.take tag.toList.length, e :: more, ?_, hsame.2, ?_⟩
      · rw [hrest, ← hdrop, List.cons_append, List.cons_append, List.take_append_drop]
      · -- neither `>` nor any of the blanks is a character of a name
        intro ch hch
        obtain rfl : e = ch := by simpa using hch
        simp only [Bool.or_eq_true, beq_iff_eq] at h
        rcases h with (((rfl | rfl) | rfl) | rfl) | rfl <;> decide
    · cases hafter
  · cases h

/-- The name in a closing tag that is seen is the one that was looked for, up to case. -/
theorem closingName_of_closingAhead {tag : String} {c : Cursor} (hname : IsTagName tag.toList)
    (hmark : c.startsWith "</" = true) (hahead : closingAhead tag c = true) :
    c.Reads ('<' :: '/' :: (closingName c).1) (closingName c).2 ∧
      (closingName c).1.map Char.toLower = tag.toList.map Char.toLower := by
  obtain ⟨name', more, hrest, hlower, hmore⟩ := rest_of_closingAhead hmark hahead
  have hbracket : c.consume? "</" = some ⟨c.position + 2, name' ++ more⟩ := by
    rw [Cursor.consume?, hrest]
    rfl
  have htag := (hname.of_map_toLower hlower).tagName?_eq (c := ⟨c.position + 2, name' ++ more⟩)
    rfl hmore
  have hclosing : closingName c = (name', ⟨c.position + 2 + Text.byteLength name', more⟩) := by
    rw [closingName, hbracket, Option.getD_some, htag, Option.getD_some]
  rw [hclosing]
  refine ⟨⟨hrest, ?_⟩, hlower⟩
  simp only [Text.byteLength_cons]
  rw [← Nat.add_assoc, ← Nat.add_assoc]
  rfl

/-- A closing tag that is seen and read was written as one. -/
theorem closingText_of_readClosing {tag : String} {c d : Cursor} (hname : IsTagName tag.toList)
    (hmark : c.startsWith "</" = true) (hahead : closingAhead tag c = true)
    (h : readClosing tag c = .ok d) :
    ∃ text, c.Reads text d ∧ ClosingText tag.toList text := by
  obtain ⟨hfront, hlower⟩ := closingName_of_closingAhead hname hmark hahead
  unfold readClosing at h
  dsimp only at h
  split at h
  · next after hend =>
    obtain rfl := by simpa using h
    refine ⟨_, (hfront.trans (closingName c).2.reads_skipBlanks).trans
      (Cursor.reads_of_consume? hend), ?_⟩
    exact ⟨(closingName c).1, (closingName c).2.blanks, rfl, hlower, Cursor.all_blanks _⟩
  · cases h

end Template

end Stencil
