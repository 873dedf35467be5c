import Stencil.Proofs.Template.Shape
/-
  Reading does not look behind what it reads.

  A cursor is longer than another one by a text when the same is left of its source and then this text; where
  the two stand does not matter.  What is read at the shorter one is read at the longer one too, up to
  spans, and the cursors after it are related again.

  For this there must be something left in front of the text: a name at the very end of a source would go on
  into it.  And the text must be empty or begin with `<`, as tags do, since no mark of a template has this
  character behind another one.  Plain text goes on, unless the text begins with markup.
-/

namespace Stencil

open Node

/-! ## Texts -/

namespace Text

variable {mark cs tail : List Char}

theorem afterMark_append {rest : List Char} (h : afterMark mark cs = some rest) (tail : List Char) :
    afterMark mark (cs ++ tail) = some (rest ++ tail) := by
  rw [afterMark_eq_some_iff] at h ⊢
  rw [h, List.append_assoc]

/-- A mark that does not come next does not come next in a longer text, unless it goes on into it. -/
theorem afterMark_append_eq_none (h : afterMark mark cs = none)
    (hmark : ∀ a as, tail = a :: as → ∀ x, mark = cs ++ a :: x → False) :
    afterMark mark (cs ++ tail) = none := by
  rw [Option.eq_none_iff_forall_ne_some] at h ⊢
  intro rest hrest
  rw [afterMark_eq_some_iff] at hrest
  rcases List.append_eq_append_iff.1 hrest with ⟨as, hmark', htail⟩ | ⟨bs, hcs, -⟩
  · cases as with
    | nil => exact h [] (afterMark_eq_some_iff.2 (by rw [hmark', List.append_nil, List.append_nil]))
    | cons a as => exact hmark a _ htail as hmark'
  · exact h bs (afterMark_eq_some_iff.2 hcs)

theorem splitAtFirst_append {before after : List Char} (h : splitAtFirst mark cs = some (before, after))
    (tail : List Char) (hmark : mark ≠ []) :
    splitAtFirst mark (cs ++ tail) = some (before, after ++ tail) := by
  induction cs generalizing before after with
  | nil =>
    rw [splitAtFirst] at h
    split at h
    · next hempty => exact absurd (List.isEmpty_iff.1 hempty) hmark
    · cases h
  | cons c cs ih =>
    rw [splitAtFirst] at h
    rw [List.cons_append, splitAtFirst]
    cases hfirst : afterMark mark (c :: cs) with
    | some rest =>
      rw [hfirst] at h
      obtain ⟨rfl, rfl⟩ := Prod.mk.inj (Option.some.inj h)
      rw [← List.cons_append, afterMark_append hfirst tail]
    | none =>
      rw [hfirst] at h
      obtain ⟨⟨b, a⟩, hs, hba⟩ := Option.map_eq_some_iff.1 h
      obtain ⟨rfl, rfl⟩ := Prod.mk.inj hba
      have hlonger : afterMark mark (c :: cs ++ tail) = none := by
        refine afterMark_append_eq_none hfirst fun d ds _ x hx => ?_
        -- the mark occurs further on, so it cannot be longer than the text
        have hsplit := congrArg List.length (splitAtFirst_eq_some hs)
        have hlength := congrArg List.length hx
        simp only [List.length_append, List.length_cons] at hsplit hlength
        omega
      rw [← List.cons_append, hlonger]
      dsimp only
      rw [ih hs]
      rfl

theorem takeWhile_append_of_left {p : Char → Bool} (h : cs.dropWhile p ≠ []) (tail : List Char) :
    (cs ++ tail).takeWhile p = cs.takeWhile p ∧
      (cs ++ tail).dropWhile p = cs.dropWhile p ++ tail := by
  induction cs with
  | nil => exact absurd rfl h
  | cons c cs ih =>
    rw [List.cons_append]
    cases hc : p c with
    | true =>
      rw [List.dropWhile_cons_of_pos hc] at h
      obtain ⟨htake, hdrop⟩ := ih h
      rw [List.takeWhile_cons_of_pos hc, List.takeWhile_cons_of_pos hc, List.dropWhile_cons_of_pos hc,
        List.dropWhile_cons_of_pos hc, htake, hdrop]
      exact ⟨rfl, rfl⟩
    | false =>
      have hc' : ¬ p c = true := by simp [hc]
      rw [List.takeWhile_cons_of_neg hc', List.takeWhile_cons_of_neg hc', List.dropWhile_cons_of_neg hc',
        List.dropWhile_cons_of_neg hc']
      exact ⟨rfl, rfl⟩

end Text

/-! ## Cursors -/

namespace Cursor

/-- A text that begins like a closing tag. -/
def IsClosing (tail : List Char) : Prop := ∃ more, tail = '<' :: '/' :: more

/-- A text that no mark goes on into: it is empty, or begins with the first character of a tag. -/
def BreaksOff (tail : List Char) : Prop := ∀ c ∈ tail.head?, c = '<'

theorem IsClosing.breaksOff {tail : List Char} (h : IsClosing tail) : BreaksOff tail := by
  obtain ⟨more, rfl⟩ := h
  intro c hc
  exact (Option.some.inj hc).symm

theorem BreaksOff.cases {tail : List Char} (h : BreaksOff tail) : tail = [] ∨ ∃ more, tail = '<' :: more := by
  cases tail with
  | nil => exact .inl rfl
  | cons c more =>
    obtain rfl := h c rfl
    exact .inr ⟨more, rfl⟩

/-- The same is left at both cursors, and then a text at the second one. -/
def Longer (tail : List Char) (c d : Cursor) : Prop := d.rest = c.rest ++ tail

theorem rest_ne_nil {c : Cursor} (h : 0 < c.left) : c.rest ≠ [] := List.length_pos_iff.1 h

namespace Longer

variable {tail : List Char} {c d : Cursor} (h : Longer tail c d)
include h

theorem atEnd (hleft : 0 < c.left) : d.atEnd = false := by
  have hne : d.rest ≠ [] := by
    rw [h]
    exact List.append_ne_nil_of_left_ne_nil (rest_ne_nil hleft) _
  simpa [Cursor.atEnd] using hne

theorem takeWhile {p : Char → Bool} (hleft : 0 < (c.takeWhile p).2.left) :
    (d.takeWhile p).1 = (c.takeWhile p).1 ∧ Longer tail (c.takeWhile p).2 (d.takeWhile p).2 := by
  have hrest := Text.takeWhile_append_of_left (rest_ne_nil hleft) tail
  rw [← h] at hrest
  exact hrest

theorem skipBlanks (hleft : 0 < c.skipBlanks.left) : Longer tail c.skipBlanks d.skipBlanks :=
  (h.takeWhile hleft).2

theorem consume? {mark : String} {c' : Cursor} (hc : c.consume? mark = some c') :
    ∃ d', d.consume? mark = some d' ∧ Longer tail c' d' := by
  obtain ⟨rest, hrest, rfl⟩ := Option.map_eq_some_iff.1 hc
  rw [Cursor.consume?, h, Text.afterMark_append hrest]
  exact ⟨_, rfl, rfl⟩

/-- A mark that has no `<` but perhaps in front does not go on into a text that begins with it. -/
theorem afterMark_eq_none {mark : List Char} (htail : BreaksOff tail) (hleft : 0 < c.left)
    (hmark : '<' ∉ mark.tail) (hc : Text.afterMark mark c.rest = none) :
    Text.afterMark mark d.rest = none := by
  rw [h]
  refine Text.afterMark_append_eq_none hc ?_
  rintro a as rfl x rfl
  obtain rfl := htail a rfl
  cases hrest : c.rest with
  | nil => exact rest_ne_nil hleft hrest
  | cons b bs => simp [hrest] at hmark

theorem consume?_eq_none {mark : String} (htail : BreaksOff tail) (hleft : 0 < c.left)
    (hmark : '<' ∉ mark.toList.tail) (hc : c.consume? mark = none) : d.consume? mark = none := by
  rw [Cursor.consume?, Option.map_eq_none_iff] at hc ⊢
  exact h.afterMark_eq_none htail hleft hmark hc

theorem startsWith {mark : String} (htail : BreaksOff tail) (hleft : 0 < c.left)
    (hmark : '<' ∉ mark.toList.tail) : d.startsWith mark = c.startsWith mark := by
  unfold Cursor.startsWith
  cases hc : Text.afterMark mark.toList c.rest with
  | none => rw [h.afterMark_eq_none htail hleft hmark hc]
  | some rest => rw [h, Text.afterMark_append hc]; rfl

/-- The cursor after a mark, or the same cursor where the mark does not come next. -/
theorem consume?_getD {mark : String} (htail : BreaksOff tail) (hleft : 0 < c.left)
    (hmark : '<' ∉ mark.toList.tail) :
    Longer tail ((c.consume? mark).getD c) ((d.consume? mark).getD d) := by
  cases hc : c.consume? mark with
  | none =>
    rw [h.consume?_eq_none htail hleft hmark hc]
    exact h
  | some c' =>
    obtain ⟨d', hd, hlonger⟩ := h.consume? hc
    rw [hd]
    exact hlonger

theorem through? {mark : String} {before : List Char} {c' : Cursor} (hmark : mark.toList ≠ [])
    (hc : c.through? mark = some (before, c')) :
    ∃ d', d.through? mark = some (before, d') ∧ Longer tail c' d' := by
  obtain ⟨⟨b, a⟩, hs, hba⟩ := Option.map_eq_some_iff.1 hc
  obtain ⟨rfl, rfl⟩ := Prod.mk.inj hba
  rw [Cursor.through?, h, Text.splitAtFirst_append hs tail hmark]
  exact ⟨_, rfl, rfl⟩

theorem peek (hleft : 0 < c.left) : d.peek = c.peek := by
  unfold Cursor.peek
  rw [h]
  cases hrest : c.rest with
  | nil => exact absurd hrest (rest_ne_nil hleft)
  | cons ch rest => rfl

/-- The name of a tag, or no name and the same cursor where none begins. -/
theorem tagName?_getD (hleft : 0 < ((c.tagName?).getD ([], c)).2.left) :
    ((d.tagName?).getD ([], d)).1 = ((c.tagName?).getD ([], c)).1 ∧
      Longer tail ((c.tagName?).getD ([], c)).2 ((d.tagName?).getD ([], d)).2 := by
  have hpeek : d.peek = c.peek := by
    refine h.peek (Nat.lt_of_lt_of_le hleft ?_)
    exact Template.Reader.left_tagName?_getD c
  unfold tagName? at hleft ⊢
  rw [hpeek]
  split
  · next halpha =>
    rw [if_pos halpha] at hleft
    exact h.takeWhile hleft
  · exact ⟨rfl, h⟩

theorem quoted? {value : List Char} {s : Span} {c' : Cursor} (hc : c.quoted? = some ((value, s), c')) :
    ∃ s' d', d.quoted? = some ((value, s'), d') ∧ Longer tail c' d' := by
  unfold Cursor.quoted? at hc ⊢
  cases hrest : c.rest with
  | nil => rw [hrest] at hc; cases hc
  | cons quote rest =>
    rw [hrest] at hc
    rw [h, hrest, List.cons_append]
    dsimp only at hc ⊢
    split at hc
    · next hquote =>
      obtain ⟨⟨v, after⟩, hs, e⟩ := Option.map_eq_some_iff.1 hc
      obtain ⟨hv, rfl⟩ := Prod.mk.inj e
      obtain ⟨rfl, -⟩ := Prod.mk.inj hv
      rw [if_pos hquote, Text.splitAtFirst_append hs tail (List.cons_ne_nil _ _)]
      exact ⟨_, _, rfl, rfl⟩
    · cases hc

end Longer

end Cursor

/-! ## Opening tags -/

namespace Tag

open Cursor (Longer BreaksOff)

variable {tail : List Char} {c d : Cursor}

theorem readValue_longer (h : Longer tail c d) (htail : BreaksOff tail) {name value : String}
    {start : Nat} {c' : Cursor} (hc : readValue name start c = .ok (value, c')) (hleft : 0 < c'.left)
    (start' : Nat) : ∃ d', readValue name start' d = .ok (value, d') ∧ Longer tail c' d' := by
  have hpos : 0 < c.left := Nat.lt_of_lt_of_le hleft (left_of_readValue hc)
  unfold readValue at hc ⊢
  rw [h.startsWith htail hpos (by decide), h.startsWith htail hpos (by decide)]
  split at hc
  · next hquote =>
    rw [if_pos hquote]
    split at hc
    · next v s after hquoted =>
      obtain ⟨rfl, rfl⟩ := Prod.mk.inj (Except.ok.inj hc)
      obtain ⟨s', d', hd, hlonger⟩ := h.quoted? hquoted
      rw [hd]
      exact ⟨d', rfl, hlonger⟩
    · cases hc
  · next hquote =>
    rw [if_neg hquote]
    dsimp only [Cursor.unquoted] at hc ⊢
    split at hc
    · cases hc
    · next hvalue =>
      obtain ⟨rfl, rfl⟩ := Prod.mk.inj (Except.ok.inj hc)
      obtain ⟨hsame, hlonger⟩ := h.takeWhile hleft
      rw [hsame, if_neg hvalue]
      exact ⟨_, rfl, hlonger⟩

/-- A part of an opening tag that is not the last thing in the source. -/
def Part.GoesOn : Part → Prop
  | .close _ => True
  | .written _ after => 0 < after.left
  | .stray after => 0 < after.left
  | .failed _ => False

/-- The same part, up to its span, with the same left after it and then a text. -/
inductive Part.Longer (tail : List Char) : Part → Part → Prop where
  | close {selfClosing : Bool} {after after' : Cursor} (h : Cursor.Longer tail after after') :
    Longer tail (.close ⟨selfClosing, after⟩) (.close ⟨selfClosing, after'⟩)
  | written {a a' : WrittenAttribute} {after after' : Cursor} (ha : a'.shape = a.shape)
    (h : Cursor.Longer tail after after') : Longer tail (.written a after) (.written a' after')
  | stray {after after' : Cursor} (h : Cursor.Longer tail after after') :
    Longer tail (.stray after) (.stray after')

theorem readAttribute_longer (h : Longer tail c d) (htail : BreaksOff tail) {name : String} {start : Nat}
    (hc : (readAttribute name start c).GoesOn) (start' : Nat) :
    (readAttribute name start c).Longer tail (readAttribute name start' d) := by
  unfold readAttribute at hc ⊢
  cases hequals : c.consume? "=" with
  | none =>
    rw [hequals] at hc
    rw [h.consume?_eq_none htail hc (by decide) hequals]
    exact .written rfl h
  | some c' =>
    rw [hequals] at hc
    obtain ⟨d', hd, hlonger⟩ := h.consume? hequals
    rw [hd]
    dsimp only at hc ⊢
    cases hvalue : readValue name start c'.skipBlanks with
    | error err => rw [hvalue] at hc; exact hc.elim
    | ok found =>
      obtain ⟨value, after⟩ := found
      rw [hvalue] at hc
      have hafter : 0 < after.left := hc
      have hblanks := hlonger.skipBlanks (Nat.lt_of_lt_of_le hafter (left_of_readValue hvalue))
      obtain ⟨after', hvalue', hlast⟩ := readValue_longer hblanks htail hvalue hafter start'
      rw [hvalue']
      exact .written rfl hlast

theorem left_of_goesOn {name : String} {start : Nat} (hc : (readAttribute name start c).GoesOn) :
    0 < c.left := by
  unfold readAttribute at hc
  split at hc
  · exact hc
  · next c' hequals =>
    have hconsumed := Cursor.left_of_consume? hequals
    have hmark : "=".toList.length = 1 := rfl
    omega

theorem readPart_longer (h : Longer tail c d) (htail : BreaksOff tail) {tag : String} {tagStart : Nat}
    (hc : (readPart tag tagStart c).GoesOn) (tagStart' : Nat) :
    (readPart tag tagStart c).Longer tail (readPart tag tagStart' d) := by
  unfold readPart at hc ⊢
  dsimp only at hc ⊢
  split at hc
  · exact hc.elim
  · next hend =>
    have hleft : 0 < c.skipBlanks.left := List.length_pos_iff.2 (by simpa [Cursor.atEnd] using hend)
    have hblanks := h.skipBlanks hleft
    have hend' : ¬ d.skipBlanks.atEnd = true := by simp [hblanks.atEnd hleft]
    rw [if_neg hend, if_neg hend']
    cases hslash : c.skipBlanks.consume? "/>" with
    | some after =>
      obtain ⟨after', hafter, hlonger⟩ := hblanks.consume? hslash
      rw [hafter]
      exact .close hlonger
    | none =>
      rw [hblanks.consume?_eq_none htail hleft (by decide) hslash]
      cases hclose : c.skipBlanks.consume? ">" with
      | some after =>
        obtain ⟨after', hafter, hlonger⟩ := hblanks.consume? hclose
        rw [hafter]
        exact .close hlonger
      | none =>
        rw [hblanks.consume?_eq_none htail hleft (by decide) hclose]
        rw [hslash, hclose] at hc
        dsimp only at hc ⊢
        have hadd := c.skipBlanks.left_takeWhile_add Cursor.isAttributeChar
        split at hc
        · next hname =>
          -- nothing was read as a name, so all is still left
          have hempty : (c.skipBlanks.takeWhile Cursor.isAttributeChar).1.length = 0 := by
            simpa [Cursor.attributeName] using hname
          obtain ⟨hsame, -⟩ := hblanks.takeWhile (p := Cursor.isAttributeChar) (by omega)
          have hname' : d.skipBlanks.attributeName.1.isEmpty = true := by
            rw [Cursor.attributeName, hsame]
            exact hname
          rw [if_pos hname, if_pos hname']
          cases hstray : c.skipBlanks.consume? "/" with
          | none => rw [hstray] at hc; exact hc.elim
          | some after =>
            obtain ⟨after', hafter, hlonger⟩ := hblanks.consume? hstray
            rw [hafter]
            exact .stray hlonger
        · next hname =>
          have hafter := left_of_goesOn hc
          have hnamed : 0 < (c.skipBlanks.takeWhile Cursor.isAttributeChar).2.left :=
            Nat.lt_of_lt_of_le hafter (Cursor.left_skipBlanks_le _)
          obtain ⟨hsame, hlonger⟩ := hblanks.takeWhile hnamed
          have hsame : d.skipBlanks.attributeName.1 = c.skipBlanks.attributeName.1 := hsame
          rw [if_neg hname, if_neg (by rw [hsame]; exact hname), hsame]
          exact readAttribute_longer (Longer.skipBlanks hlonger hafter) htail hc _

/-! Reading attributes goes by the part that comes next. -/

section Parts

variable {tag : String} {tagStart : Nat}

theorem readAttributes_of_close {e : TagEnd} (h : readPart tag tagStart c = .close e) :
    readAttributes tag tagStart c = ([], .ok e) := by
  rw [readAttributes]
  split <;> simp_all

theorem readAttributes_of_failed {e : TemplateError} (h : readPart tag tagStart c = .failed e) :
    readAttributes tag tagStart c = ([], .error e) := by
  rw [readAttributes]
  split <;> simp_all

theorem readAttributes_of_stray {after : Cursor} (h : readPart tag tagStart c = .stray after) :
    readAttributes tag tagStart c = readAttributes tag tagStart after := by
  rw [readAttributes]
  split <;> simp_all

theorem readAttributes_of_written {a : WrittenAttribute} {after : Cursor}
    (h : readPart tag tagStart c = .written a after) :
    readAttributes tag tagStart c =
      (a :: (readAttributes tag tagStart after).1, (readAttributes tag tagStart after).2) := by
  rw [readAttributes]
  split <;> simp_all

end Parts

/-- The same attributes, and the same end of the tag. -/
theorem readAttributes_longer (h : Longer tail c d) (htail : BreaksOff tail) {tag : String}
    {tagStart : Nat} {written : List WrittenAttribute} {e : TagEnd}
    (hc : readAttributes tag tagStart c = (written, .ok e)) (tagStart' : Nat) :
    ∃ written' after', readAttributes tag tagStart' d = (written', .ok ⟨e.selfClosing, after'⟩) ∧
      written'.map WrittenAttribute.shape = written.map WrittenAttribute.shape ∧
      Longer tail e.after after' := by
  -- by the parts at the shorter cursor, each of which comes next at the longer one too
  fun_induction readAttributes tag tagStart c generalizing written d with
  | case1 c ending hp =>
    obtain ⟨rfl, hending⟩ := Prod.mk.inj hc
    obtain rfl := Except.ok.inj hending
    have hpart := readPart_longer h htail (by rw [hp]; trivial) tagStart'
    rw [hp] at hpart
    generalize hq : readPart tag tagStart' d = q at hpart
    cases hpart with
    | close hlonger =>
      rw [readAttributes_of_close hq]
      exact ⟨[], _, rfl, rfl, hlonger⟩
  | case2 c e' hp => cases (Prod.mk.inj hc).2
  | case3 c after hp hlt ih =>
    have hafter : 0 < after.left := Nat.zero_lt_of_lt (left_of_readAttributes hc)
    have hpart := readPart_longer h htail (by rw [hp]; exact hafter) tagStart'
    rw [hp] at hpart
    generalize hq : readPart tag tagStart' d = q at hpart
    cases hpart with
    | stray hlonger =>
      rw [readAttributes_of_stray hq]
      exact ih hlonger hc
  | case4 c a after hp hlt more ending hr ih =>
    obtain ⟨rfl, rfl⟩ := Prod.mk.inj hc
    have hafter : 0 < after.left := Nat.zero_lt_of_lt (left_of_readAttributes hr)
    have hpart := readPart_longer h htail (by rw [hp]; exact hafter) tagStart'
    rw [hp] at hpart
    generalize hq : readPart tag tagStart' d = q at hpart
    cases hpart with
    | written ha hlonger =>
      obtain ⟨more', after', hread, hmore, hlast⟩ := ih hlonger hr
      rw [readAttributes_of_written hq, hread]
      exact ⟨_, after', rfl, by rw [List.map_cons, List.map_cons, ha, hmore], hlast⟩

end Tag

/-! ## Pieces of a template -/

namespace Template

open Cursor (Longer IsClosing BreaksOff)

variable {tail : List Char} {c d : Cursor}

/-- What reading an opening tag comes to: its bracket, its name, its attributes and their sorting. -/
theorem readOpening_eq_ok_iff {opening : Opening} {c' : Cursor} :
    readOpening c = .ok (opening, c') ↔
      ∃ inside name after written ending attributes directives,
        (c.consume? "<").getD c = inside ∧ (inside.tagName?).getD ([], inside) = (name, after) ∧
        Tag.readAttributes (String.ofList name) c.position after = (written, .ok ending) ∧
        Tag.sort written = .ok (attributes, directives) ∧ ending.after = c' ∧
        opening = ⟨c.position,
          ⟨String.ofList name, attributes, directives, after.spanFrom inside.position, {}⟩,
          ending.selfClosing, c'.spanFrom c.position⟩ := by
  unfold readOpening
  constructor
  · intro h
    obtain ⟨⟨attributes, directives⟩, hsort, h⟩ := Reader.bind_eq_ok h
    obtain ⟨ending, hending, h⟩ := Reader.bind_eq_ok h
    obtain ⟨rfl, rfl⟩ := Prod.mk.inj (Except.ok.inj h)
    exact ⟨_, _, _, _, ending, attributes, directives, rfl, rfl, Prod.ext rfl hending, hsort, rfl, rfl⟩
  · rintro ⟨inside, name, after, written, ending, attributes, directives, hinside, hname, hread, hsort,
      rfl, rfl⟩
    subst hinside
    simp only [hname, hread, hsort]
    rfl

/-- The same opening tag, up to its spans. -/
theorem readOpening_longer (h : Longer tail c d) (htail : BreaksOff tail) {opening : Opening} {c' : Cursor}
    (hc : readOpening c = .ok (opening, c')) :
    ∃ opening' d', readOpening d = .ok (opening', d') ∧ opening'.shape = opening.shape ∧
      Longer tail c' d' := by
  obtain ⟨inside, name, after, written, ending, attributes, directives, hinside, hname, hread, hsort, rfl,
    rfl⟩ := readOpening_eq_ok_iff.1 hc
  -- what is left at the end of the tag was left before it
  have hafter : 0 < ((inside.tagName?).getD ([], inside)).2.left := by
    rw [hname]
    exact Nat.zero_lt_of_lt (Tag.left_of_readAttributes hread)
  have hpos : 0 < c.left := by
    have hnamed := Reader.left_tagName?_getD inside
    have hbracket := Reader.left_consume?_getD c "<"
    rw [hinside] at hbracket
    omega
  have hlonger : Longer tail ((c.consume? "<").getD c) ((d.consume? "<").getD d) :=
    h.consume?_getD htail hpos (by decide)
  rw [hinside] at hlonger
  obtain ⟨hname', hafter'⟩ := hlonger.tagName?_getD hafter
  rw [hname] at hname' hafter'
  obtain ⟨written', after', hread', hwritten, hlast⟩ :=
    Tag.readAttributes_longer hafter' htail hread d.position
  have hsorted := Tag.sort_shape written
  rw [← hwritten, Tag.sort_shape] at hsorted
  obtain ⟨⟨attributes', directives'⟩, hsort', hshape⟩ := exists_ok_of_toOption_map hsorted hsort
  obtain ⟨hattributes, hdirectives⟩ := Prod.mk.inj hshape
  have hnamed : (((d.consume? "<").getD d).tagName?).getD ([], (d.consume? "<").getD d) =
      (name, ((((d.consume? "<").getD d).tagName?).getD ([], (d.consume? "<").getD d)).2) :=
    Prod.ext hname' rfl
  refine ⟨_, after', readOpening_eq_ok_iff.2 ⟨_, name, _, written', ⟨ending.selfClosing, after'⟩,
    attributes', directives', rfl, hnamed, hread', hsort', rfl, rfl⟩, ?_, hlast⟩
  simp only [Opening.shape, Tag.shape, hattributes, hdirectives]

/-- The same closing tag. -/
theorem readClosing_longer (h : Longer tail c d) (htail : BreaksOff tail) {tag : String} {c' : Cursor}
    (hc : readClosing tag c = .ok c') : ∃ d', readClosing tag d = .ok d' ∧ Longer tail c' d' := by
  unfold readClosing at hc ⊢
  dsimp only at hc ⊢
  cases hend : (closingName c).2.skipBlanks.consume? ">" with
  | none => rw [hend] at hc; cases hc
  | some after =>
    rw [hend] at hc
    obtain rfl := Except.ok.inj hc
    have hblanks : 0 < (closingName c).2.skipBlanks.left := by
      have hconsumed := Cursor.left_of_consume? hend
      have hmark : ">".toList.length = 1 := rfl
      omega
    have hafter := Nat.lt_of_lt_of_le hblanks (Cursor.left_skipBlanks_le _)
    have hpos : 0 < c.left := by
      have hnamed := Reader.left_tagName?_getD ((c.consume? "</").getD c)
      have hmark := Reader.left_consume?_getD c "</"
      have hname : 0 < ((((c.consume? "</").getD c).tagName?).getD ([], (c.consume? "</").getD c)).2.left :=
        hafter
      omega
    have hinside : Longer tail ((c.consume? "</").getD c) ((d.consume? "</").getD d) :=
      h.consume?_getD htail hpos (by decide)
    obtain ⟨-, hnamed⟩ := hinside.tagName?_getD hafter
    obtain ⟨after', hend', hlast⟩ := (Longer.skipBlanks hnamed hblanks).consume? hend
    refine ⟨after', ?_, hlast⟩
    have hend' : (closingName d).2.skipBlanks.consume? ">" = some after' := hend'
    rw [hend']

/-- What may follow the name in a closing tag. -/
def endsName (c : Char) : Bool := c == '>' || c == ' ' || c == '\t' || c == '\n' || c == '\r'

theorem closingAhead_iff {tag : String} :
    closingAhead tag c = true ↔ ∃ front ch rest, c.rest = front ++ ch :: rest ∧
      front.map Char.toLower = ("</" ++ tag).toList.map Char.toLower ∧ endsName ch = true := by
  have hahead : closingAhead tag c = true ↔ ∃ ch rest,
      c.afterIgnoringCase? ("</" ++ tag) = some (ch :: rest) ∧ endsName ch = true := by
    unfold closingAhead
    constructor
    · intro h
      split at h
      · next ch rest hafter => exact ⟨ch, rest, hafter, h⟩
      · cases h
    · rintro ⟨ch, rest, hafter, h⟩
      rw [hafter]
      exact h
  rw [hahead]
  generalize ("</" ++ tag) = text
  unfold Cursor.afterIgnoringCase? Text.equalIgnoringCase
  dsimp only
  constructor
  · rintro ⟨ch, rest, hafter, h⟩
    split at hafter
    · next hsame =>
      obtain ⟨-, hsame⟩ := by simpa using hsame
      have hdrop := Option.some.inj hafter
      exact ⟨_, ch, rest, by rw [← hdrop, List.take_append_drop], by simpa using hsame, h⟩
    · cases hafter
  · rintro ⟨front, ch, rest, hrest, hsame, h⟩
    have hlength : front.length = text.toList.length := by simpa using congrArg List.length hsame
    refine ⟨ch, rest, ?_, h⟩
    rw [hrest, ← hlength, List.take_left, List.drop_left, if_pos]
    simpa using hsame

/-- A closing tag that is seen is seen in the longer text. -/
theorem closingAhead_longer (h : Longer tail c d) {tag : String} (hc : closingAhead tag c = true) :
    closingAhead tag d = true := by
  obtain ⟨front, ch, rest, hrest, hsame, hend⟩ := closingAhead_iff.1 hc
  refine closingAhead_iff.2 ⟨front, ch, rest ++ tail, ?_, hsame, hend⟩
  rw [h, hrest, List.append_assoc, List.cons_append]

/-- A closing tag that is not seen does not go on into another one, if its name has no `<`. -/
theorem closingAhead_longer_eq_false (h : Longer tail c d) (htail : BreaksOff tail) (hleft : 0 < c.left)
    {tag : String} (htag : '<' ∉ tag.toList.map Char.toLower) (hc : closingAhead tag c = false) :
    closingAhead tag d = false := by
  rw [Bool.eq_false_iff] at hc ⊢
  refine mt (fun hd => ?_) hc
  obtain ⟨front, ch, rest, hrest, hsame, hend⟩ := closingAhead_iff.1 hd
  rw [h] at hrest
  rcases List.append_eq_append_iff.1 hrest with ⟨as, hfront, rfl⟩ | ⟨bs, hbs, hrest⟩
  · cases as with
    | nil =>
      obtain rfl := htail ch rfl
      cases hend
    | cons a as =>
      -- the name would have the first character of the tail
      obtain rfl := htail a rfl
      cases hfirst : c.rest with
      | nil => exact absurd hfirst (Cursor.rest_ne_nil hleft)
      | cons b bs =>
        rw [hfront, hfirst] at hsame
        have hnames : (bs ++ '<' :: as).map Char.toLower = '/' :: tag.toList.map Char.toLower := by
          simpa using congrArg List.tail hsame
        have hmem : '<' ∈ '/' :: tag.toList.map Char.toLower := by
          rw [← hnames]
          simp only [List.map_append, List.map_cons, List.mem_append, List.mem_cons]
          exact .inr (.inl rfl)
        rcases List.mem_cons.1 hmem with hslash | hmem
        · cases hslash
        · exact absurd hmem htag
  · cases bs with
    | nil =>
      obtain rfl : ch :: rest = tail := hrest
      obtain rfl := htail ch rfl
      cases hend
    | cons b bs =>
      obtain ⟨rfl, -⟩ := List.cons.inj hrest
      exact closingAhead_iff.2 ⟨front, ch, bs, hbs, hsame, hend⟩

/-- The same thing begins. -/
theorem formAt_longer (h : Longer tail c d) (htail : BreaksOff tail) (hleft : 0 < c.left)
    (rawText : Bool) : formAt rawText d = formAt rawText c := by
  have hopening : openingAhead d.rest = openingAhead c.rest := by
    rw [h]
    cases hfirst : c.rest with
    | nil => exact absurd hfirst (Cursor.rest_ne_nil hleft)
    | cons ch rest =>
      by_cases hch : ch = '<'
      · rw [hch]
        obtain rfl | ⟨more, rfl⟩ := htail.cases <;> cases rest <;> rfl
      · simp [openingAhead, hch]
  unfold formAt
  rw [hopening, h.startsWith htail hleft (by decide), h.startsWith htail hleft (by decide),
    h.startsWith htail hleft (by decide), h.startsWith htail hleft (by decide),
    h.startsWith htail hleft (by decide), h.startsWith htail hleft (by decide)]

/-- The marks of a form are not empty, and what stands between them makes the same node, up to its span. -/
theorem between_of_formAt {rawText : Bool} {opening closing : String} {make : List Char → Span → Node}
    (h : formAt rawText c = .between opening closing make) :
    closing.toList ≠ [] ∧ ∀ content s s', (make content s').shape = (make content s).shape := by
  cases beginsAt_of_formAt h <;> exact ⟨by decide, fun _ _ _ => rfl⟩

theorem readBetween_longer (h : Longer tail c d) {opening closing : String}
    {make : List Char → Span → Node} (hclosing : closing.toList ≠ [])
    (hmake : ∀ content s s', (make content s').shape = (make content s).shape) {n : Node} {c' : Cursor}
    (hc : readBetween opening closing make c = .ok (n, c')) :
    ∃ n' d', readBetween opening closing make d = .ok (n', d') ∧ n'.shape = n.shape ∧
      Longer tail c' d' := by
  unfold readBetween at hc ⊢
  split at hc
  · next content after hbetween =>
    obtain ⟨inside, hinside, hthrough⟩ := Option.bind_eq_some_iff.1 hbetween
    obtain ⟨rfl, rfl⟩ := Prod.mk.inj (Except.ok.inj hc)
    obtain ⟨inside', hinside', hlonger⟩ := h.consume? hinside
    obtain ⟨after', hthrough', hlast⟩ := hlonger.through? hclosing hthrough
    rw [hinside', Option.bind_some, hthrough']
    exact ⟨_, after', rfl, hmake content _ _, hlast⟩
  · cases hc

theorem markupAhead_longer (rawText : Bool) (ch : Char) (cs : List Char) (htail : BreaksOff tail) :
    markupAhead rawText (ch :: cs ++ tail) = markupAhead rawText (ch :: cs) := by
  obtain rfl | ⟨more, rfl⟩ := htail.cases
  · rw [List.append_nil]
  by_cases hbrace : ch = '\x7b'
  · subst hbrace
    cases cs with
    | nil => rfl
    | cons a cs =>
      by_cases hmark : a = '!'
      · subst hmark
        cases cs with
        | nil => rfl
        | cons b cs => by_cases hb : b = '!' <;> simp [markupAhead, hb]
      · by_cases ha : a = '\x7b' <;> simp [markupAhead, ha, hmark]
  · by_cases hangle : ch = '<'
    · subst hangle
      cases cs with
      | nil => cases rawText <;> rfl
      | cons a cs => by_cases ha : a = '/' <;> simp [markupAhead, ha]
    · simp [markupAhead, hbrace, hangle]

/-- Plain text ends before markup. -/
theorem plainText_longer {rawText : Bool} (cs : List Char) (htail : BreaksOff tail)
    (hends : plainText rawText tail = []) : plainText rawText (cs ++ tail) = plainText rawText cs := by
  induction cs with
  | nil => exact hends
  | cons ch cs ih =>
    rw [List.cons_append, plainText, plainText, ih, ← List.cons_append,
      markupAhead_longer rawText ch cs htail]

theorem plainText_of_isClosing (rawText : Bool) (htail : IsClosing tail) : plainText rawText tail = [] := by
  obtain ⟨more, rfl⟩ := htail
  rfl

theorem length_plainText_le (rawText : Bool) (cs : List Char) :
    (plainText rawText cs).length ≤ cs.length := by
  induction cs with
  | nil => exact Nat.le_refl _
  | cons ch cs ih =>
    rw [plainText]
    split
    · exact Nat.zero_le _
    · exact Nat.succ_le_succ ih

/-- The same plain text. -/
theorem readText_longer (h : Longer tail c d) (htail : BreaksOff tail) (hleft : 0 < c.left)
    {rawText : Bool} (hends : plainText rawText tail = []) : (readText rawText d).1.shape = (readText rawText c).1.shape ∧
      Longer tail (readText rawText c).2 (readText rawText d).2 := by
  cases hrest : c.rest with
  | nil => exact absurd hrest (Cursor.rest_ne_nil hleft)
  | cons ch cs =>
    have hrest' : d.rest = ch :: (cs ++ tail) := by rw [h, hrest, List.cons_append]
    have hplain := plainText_longer cs htail hends
    have hlength := length_plainText_le rawText cs
    unfold readText Longer
    simp only [hrest, hrest', List.take_succ_cons, List.take_zero, List.tail_cons, hplain,
      List.singleton_append, List.length_cons, List.drop_succ_cons]
    exact ⟨rfl, List.drop_append_of_le_length hlength⟩

end Template

end Stencil
