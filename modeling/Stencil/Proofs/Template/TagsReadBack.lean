import Stencil.Proofs.Template.LoopText
import Stencil.Proofs.Template.TagPair
import Stencil.Proofs.Template.Locality
/-
  Tags that are read as they were written.

  What the grammars of opening and closing tags allow is read, whatever follows it: the attributes are those
  that were written, with the spans the grammar gives them, and the cursor comes to the end of the tag.  This
  is the converse of the statement that a tag which is read was written in the grammar.

  So the end of a tag may be changed.  Where `/>` ends a tag and no stray slash stands in front of it, `>`
  ends a tag with the same attributes.
-/

namespace Stencil

open Text (NotAhead isBlank)
open Cursor (isAttributeChar isTagChar)

/-! ## Blanks and marks -/

namespace Cursor

/-- The marks of opening tags, which are no characters of the names of attributes. -/
def tagMarks : List Char := ['=', '>', '/', '"', '\'', '<']

theorem not_mark_of_isAttributeChar {c : Char} (h : isAttributeChar c = true) :
    Text.isBlank c = false ∧ c ∉ tagMarks := by
  simpa [isAttributeChar, tagMarks, and_assoc] using h

/-- No name of a tag goes on with a blank. -/
theorem isTagChar_of_isBlank {c : Char} (h : isBlank c = true) : isTagChar c = false := by
  rw [Bool.eq_false_iff]
  intro htag
  simp only [isTagChar, Bool.or_eq_true, beq_iff_eq] at htag
  rcases htag with (((halnum | rfl) | rfl) | rfl) | rfl
  · have hname : Foreach.isNameChar c = true := Bool.or_eq_true_iff.2 (.inl halnum)
    rw [Foreach.isBlank_of_isNameChar hname] at h
    cases h
  all_goals
    revert h
    decide

/-- Nothing is skipped where no blank comes next. -/
theorem skipBlanks_eq_self {cs : List Char} (h : NotAhead isBlank cs) (p : Nat) :
    skipBlanks ⟨p, cs⟩ = ⟨p, cs⟩ :=
  congrArg Prod.snd (takeWhile_eq (List.forall_mem_nil _) h p)

/-- All blanks in front of anything else are skipped. -/
theorem skipBlanks_append {gap cs : List Char} (hgap : ∀ c ∈ gap, isBlank c = true)
    (h : NotAhead isBlank cs) (p : Nat) :
    skipBlanks ⟨p, gap ++ cs⟩ = ⟨p + Text.byteLength gap, cs⟩ :=
  congrArg Prod.snd (takeWhile_eq hgap h p)

theorem skipBlanks_skipBlanks (c : Cursor) : c.skipBlanks.skipBlanks = c.skipBlanks :=
  skipBlanks_eq_self (c.notAhead_takeWhile Text.isBlank) c.skipBlanks.position

theorem skipBlanks_of_isBlank {c : Char} (hc : isBlank c = true) (p : Nat) (cs : List Char) :
    skipBlanks ⟨p, c :: cs⟩ = skipBlanks ⟨p + c.utf8Size, cs⟩ := by
  simp only [skipBlanks, takeWhile, List.takeWhile_cons_of_pos hc, List.dropWhile_cons_of_pos hc,
    Text.byteLength_cons, Nat.add_assoc]

end Cursor

namespace Tag

/-! ## The parts of an opening tag -/

theorem readPart_skipBlanks (tag : String) (start : Nat) (c : Cursor) :
    readPart tag start c.skipBlanks = readPart tag start c := by
  unfold readPart
  rw [c.skipBlanks_skipBlanks]

/-- Attributes are read behind the blanks. -/
theorem readAttributes_skipBlanks (tag : String) (start : Nat) (c : Cursor) :
    readAttributes tag start c.skipBlanks = readAttributes tag start c := by
  have hpart := readPart_skipBlanks tag start c
  cases h : readPart tag start c with
  | close ending =>
    rw [readAttributes_of_close h, readAttributes_of_close (hpart.trans h)]
  | written a after =>
    rw [readAttributes_of_written h, readAttributes_of_written (hpart.trans h)]
  | stray after =>
    rw [readAttributes_of_stray h, readAttributes_of_stray (hpart.trans h)]
  | failed e =>
    rw [readAttributes_of_failed h, readAttributes_of_failed (hpart.trans h)]

variable (tag : String) (start p : Nat) {next : List Char}

/-- Where a name comes next, an attribute of this name is read. -/
theorem readPart_name {name : List Char} (hname : IsAttributeName name)
    (hnext : NotAhead isAttributeChar next) :
    readPart tag start ⟨p, name ++ next⟩ =
      readAttribute (String.ofList name) p (Cursor.skipBlanks ⟨p + Text.byteLength name, next⟩) := by
  obtain ⟨c, cs, hfirst⟩ := List.exists_cons_of_ne_nil hname.nonempty
  obtain ⟨hblank, hmarks⟩ :=
    Cursor.not_mark_of_isAttributeChar (hname.chars c (hfirst ▸ List.mem_cons_self))
  have hhead : (name ++ next).head? = some c := by rw [hfirst]; rfl
  have hskip : Cursor.skipBlanks ⟨p, name ++ next⟩ = ⟨p, name ++ next⟩ := by
    refine Cursor.skipBlanks_eq_self (fun d hd => ?_) p
    obtain rfl := Option.some.inj (hhead.symm.trans hd)
    exact hblank
  have hnone : ∀ {mark : String} {d : Char}, mark.toList.head? = some d →
      d ∈ Cursor.tagMarks → Cursor.consume? ⟨p, name ++ next⟩ mark = none := by
    intro mark d hmark hd
    refine Cursor.consume?_eq_none_of_head hmark fun heq => hmarks ?_
    obtain rfl := Option.some.inj (hhead.symm.trans heq)
    exact hd
  have hself := @hnone "/>" _ rfl (by decide)
  have hclose := @hnone ">" _ rfl (by decide)
  have hend : Cursor.atEnd ⟨p, name ++ next⟩ = false := by rw [Cursor.atEnd, hfirst]; rfl
  have hread : Cursor.attributeName ⟨p, name ++ next⟩ =
      (name, ⟨p + Text.byteLength name, next⟩) := Cursor.takeWhile_eq hname.chars hnext p
  have hnonempty : name.isEmpty = false := by rw [hfirst]; rfl
  unfold readPart
  dsimp only
  rw [hskip, hend, if_neg Bool.false_ne_true, hself, hclose]
  dsimp only
  rw [hread, hnonempty, if_neg Bool.false_ne_true]

/-- A slash that no `>` follows ends nothing. -/
theorem readPart_slash (hne : next ≠ []) (hnext : NotAhead (· == '>') next) :
    readPart tag start ⟨p, '/' :: next⟩ = .stray ⟨p + 1, next⟩ := by
  obtain ⟨c, cs, rfl⟩ := List.exists_cons_of_ne_nil hne
  have hc : c ≠ '>' := by simpa using hnext c rfl
  have hself : Cursor.consume? ⟨p, '/' :: c :: cs⟩ "/>" = none := by
    refine Cursor.consume?_eq_none_iff.2 fun rest heq => hc ?_
    exact (List.cons.inj (List.cons.inj heq).2).1
  have hskip : Cursor.skipBlanks ⟨p, '/' :: c :: cs⟩ = ⟨p, '/' :: c :: cs⟩ := rfl
  unfold readPart
  dsimp only
  rw [hskip, hself]
  rfl

/-! ## Values -/

/-- A value is read as it is written. -/
theorem ValueText.readValue_eq {text : List Char} {value : String} (h : ValueText next text value)
    (name : String) (start p : Nat) :
    readValue name start ⟨p, text ++ next⟩ = .ok (value, ⟨p + Text.byteLength text, next⟩) := by
  cases h with
  | @quoted value quote hquote hvalue =>
    have hsize : quote.utf8Size = 1 := by
      rcases Bool.or_eq_true _ _ ▸ hquote with hq | hq <;> rw [eq_of_beq hq] <;> rfl
    have hstarts : (Cursor.startsWith ⟨p, quote :: value ++ [quote] ++ next⟩ "\"" ||
        Cursor.startsWith ⟨p, quote :: value ++ [quote] ++ next⟩ "'") = true := by
      rcases Bool.or_eq_true _ _ ▸ hquote with hq | hq <;> rw [eq_of_beq hq] <;> rfl
    have hsplit : Text.splitAtFirst [quote] (value ++ [quote] ++ next) = some (value, next) :=
      Text.splitAtFirst_of_endsFirst (Text.endsFirst_singleton hvalue) (List.cons_ne_nil _ _) next
    have hread : Cursor.quoted? ⟨p, quote :: value ++ [quote] ++ next⟩ =
        some ((value, ⟨p + 1, p + 1 + Text.byteLength value⟩), ⟨p + 1 + Text.byteLength value + 1, next⟩) := by
      have hquote' : (quote == '"' || quote == '\'') = true := hquote
      simp only [Cursor.quoted?, List.cons_append, hquote', if_true, hsplit, Option.map_some]
    have hlength : Text.byteLength (quote :: value ++ [quote]) = 1 + Text.byteLength value + 1 := by
      simp only [List.cons_append, Text.byteLength_cons, Text.byteLength_append, Text.byteLength_nil, hsize]
      omega
    rw [readValue, if_pos hstarts, hread, hlength, ← Nat.add_assoc, ← Nat.add_assoc]
  | unquoted hne hvalue hquote hend =>
    obtain ⟨c, cs, rfl⟩ := List.exists_cons_of_ne_nil hne
    have hc : (c == '"' || c == '\'') = false := hquote c rfl
    obtain ⟨hdouble, hsingle⟩ := by simpa using hc
    have hstarts : ∀ (mark : String) {d : Char}, mark.toList.head? = some d → c ≠ d →
        Cursor.startsWith ⟨p, c :: cs ++ next⟩ mark = false := fun _ _ hmark hd =>
      Cursor.startsWith_eq_false_of_head hmark fun heq => hd (Option.some.inj heq)
    have hread : Cursor.unquoted ⟨p, c :: cs ++ next⟩ = ((c :: cs, ⟨p, p + Text.byteLength (c :: cs)⟩),
        ⟨p + Text.byteLength (c :: cs), next⟩) := by
      have hchars : (fun ch => !isBlank ch && ch != '>') = isValueChar := rfl
      rw [Cursor.unquoted, hchars, Cursor.takeWhile_eq hvalue hend p]
      rfl
    rw [readValue, hstarts "\"" rfl hdouble, hstarts "'" rfl hsingle]
    rw [Bool.or_self, if_neg Bool.false_ne_true, hread]
    rfl

/-- No value begins with a blank. -/
theorem ValueText.notAhead_isBlank {text : List Char} {value : String} (h : ValueText next text value) :
    NotAhead isBlank (text ++ next) := by
  intro c hc
  cases h with
  | quoted hquote =>
    obtain rfl := Option.some.inj hc
    rcases Bool.or_eq_true _ _ ▸ hquote with hq | hq <;> rw [eq_of_beq hq] <;> rfl
  | unquoted hne hvalue =>
    obtain ⟨d, ds, rfl⟩ := List.exists_cons_of_ne_nil hne
    obtain rfl := Option.some.inj hc
    have hd := hvalue d List.mem_cons_self
    rw [isValueChar, Bool.and_eq_true, Bool.not_eq_true'] at hd
    exact hd.1

/-! ## Attributes -/

/-- An attribute is read as it is written. -/
theorem AttributeText.readPart_eq {text : List Char} {name : String} {value : Option String}
    (h : AttributeText next text name value) :
    readPart tag start ⟨p, text ++ next⟩ =
      .written ⟨name, value, ⟨p, p + Text.byteLength text⟩⟩ ⟨p + Text.byteLength text, next⟩ := by
  cases h with
  | @bare name gap hname hgap hend hblank hequals =>
    have hnone : Cursor.consume? ⟨p + Text.byteLength name + Text.byteLength gap, next⟩ "=" = none := by
      refine Cursor.consume?_eq_none_iff.2 fun rest heq => ?_
      have hnext : next = '=' :: rest := heq
      subst hnext
      exact absurd (hequals '=' rfl) (by decide)
    rw [List.append_assoc, readPart_name tag start p hname hend,
      Cursor.skipBlanks_append hgap hblank, readAttribute, hnone, Text.byteLength_append, ← Nat.add_assoc]
    rfl
  | @valued name gap gap' text value hname hgap hgap' hvalue =>
    have htext : name ++ gap ++ '=' :: gap' ++ text ++ next
        = name ++ (gap ++ '=' :: (gap' ++ (text ++ next))) := by simp
    have hend : NotAhead isAttributeChar (gap ++ '=' :: (gap' ++ (text ++ next))) := by
      intro c hc
      cases gap with
      | nil =>
        obtain rfl := Option.some.inj hc
        rfl
      | cons d gap =>
        obtain rfl := Option.some.inj hc
        simp [isAttributeChar, hgap d List.mem_cons_self]
    have hequals : NotAhead isBlank ('=' :: (gap' ++ (text ++ next))) := by
      intro c hc
      obtain rfl := Option.some.inj hc
      rfl
    have hconsume : ∀ q, Cursor.consume? ⟨q, '=' :: (gap' ++ (text ++ next))⟩ "=" =
        some ⟨q + 1, gap' ++ (text ++ next)⟩ := fun q => rfl
    have hlength : ∀ q, q + Text.byteLength name + Text.byteLength gap + 1 + Text.byteLength gap' +
        Text.byteLength text = q + Text.byteLength (name ++ gap ++ '=' :: gap' ++ text) := by
      intro q
      have hsize : ('=' : Char).utf8Size = 1 := rfl
      simp only [Text.byteLength_append, Text.byteLength_cons, hsize]
      omega
    rw [htext, readPart_name tag start p hname hend, Cursor.skipBlanks_append hgap hequals, readAttribute,
      hconsume]
    dsimp only
    rw [Cursor.skipBlanks_append hgap' hvalue.notAhead_isBlank, hvalue.readValue_eq, hlength]
    rfl

/-- What an attribute asks of the text after it, another text may grant as well. -/
theorem AttributeText.of_next {next' text : List Char} {name : String} {value : Option String}
    (h : AttributeText next text name value)
    (hattribute : NotAhead isAttributeChar next → NotAhead isAttributeChar next')
    (hblank : NotAhead isBlank next → NotAhead isBlank next')
    (hequals : NotAhead (· == '=') next → NotAhead (· == '=') next')
    (hvalue : NotAhead isValueChar next → NotAhead isValueChar next') :
    AttributeText next' text name value := by
  cases h with
  | @bare name gap hname hgap hend hblank' hequals' =>
    refine .bare hname hgap ?_ (hblank hblank') (hequals hequals')
    cases gap with
    | nil => exact hattribute hend
    | cons d gap => exact hend
  | valued hname hgap hgap' hvalueText =>
    refine .valued hname hgap hgap' ?_
    cases hvalueText with
    | quoted hquote hmem => exact .quoted hquote hmem
    | unquoted hne hchars hquote hend => exact .unquoted hne hchars hquote (hvalue hend)

/-- The end of the text after an attribute may go on. -/
theorem AttributeText.append {text : List Char} {name : String} {value : Option String}
    (h : AttributeText next text name value) (hne : next ≠ []) (more : List Char) :
    AttributeText (next ++ more) text name value :=
  h.of_next (Text.notAhead_append hne).2 (Text.notAhead_append hne).2 (Text.notAhead_append hne).2
    (Text.notAhead_append hne).2

/-- What was written up to the end of a tag is read, whatever follows. -/
theorem AttributesText.readAttributes_eq {p : Nat} {w : List Char} {written : List WrittenAttribute}
    {b : Bool} (h : AttributesText p w written b) (tag : String) (start : Nat) (more : List Char) :
    readAttributes tag start ⟨p, w ++ more⟩ = (written, .ok ⟨b, ⟨p + Text.byteLength w, more⟩⟩) := by
  induction h with
  | close => exact readAttributes_of_close rfl
  | closeSelf => exact readAttributes_of_close rfl
  | @blank p c w written b hc hw ih =>
    rw [List.cons_append, ← readAttributes_skipBlanks, Cursor.skipBlanks_of_isBlank hc,
      readAttributes_skipBlanks, ih, Text.byteLength_cons, Nat.add_assoc]
  | @slash p w written b hnext hw ih =>
    have hne : w ++ more ≠ [] := List.append_ne_nil_of_left_ne_nil hw.ne_nil _
    have hsize : ('/' : Char).utf8Size = 1 := rfl
    rw [List.cons_append, readAttributes_of_stray
      (readPart_slash tag start p hne ((Text.notAhead_append hw.ne_nil).2 hnext)), ih,
      Text.byteLength_cons, hsize, Nat.add_assoc]
  | @more p text w name value written b htext hw ih =>
    rw [List.append_assoc, readAttributes_of_written
      ((htext.append hw.ne_nil more).readPart_eq tag start p), ih, Text.byteLength_append, Nat.add_assoc]

/-! ## Another end -/

/-- A tag that ends with `/>`, and has no stray slash in front of it, may end with `>` as well. -/
theorem AttributesText.reopened {p : Nat} {w : List Char} {written : List WrittenAttribute} {b : Bool}
    (h : AttributesText p w written b) (hb : b = true) :
    ∃ front, w = front ++ ['/', '>'] ∧
      (front.getLast? ≠ some '/' → AttributesText p (front ++ ['>']) written false) := by
  induction h with
  | close => cases hb
  | closeSelf => exact ⟨[], rfl, fun _ => .close⟩
  | @blank p c w written b hc hw ih =>
    obtain ⟨front, rfl, hopen⟩ := ih hb
    refine ⟨c :: front, rfl, fun hlast => .blank hc (hopen fun hslash => hlast ?_)⟩
    rw [List.getLast?_cons, hslash]
    rfl
  | @slash p w written b hnext hw ih =>
    obtain ⟨front, rfl, hopen⟩ := ih hb
    refine ⟨'/' :: front, rfl, fun hlast => ?_⟩
    -- something stands between the stray slash and the end
    have hne : front ≠ [] := by
      rintro rfl
      exact hlast rfl
    refine .slash ((Text.notAhead_append hne).2 ((Text.notAhead_append hne).1 hnext)) (hopen fun hslash => ?_)
    refine hlast ?_
    rw [List.getLast?_cons, hslash]
    rfl
  | @more p text w name value written b htext hw ih =>
    obtain ⟨front, rfl, hopen⟩ := ih hb
    refine ⟨text ++ front, (List.append_assoc _ _ _).symm, fun hlast => ?_⟩
    rw [List.append_assoc]
    by_cases hne : front = []
    · subst hne
      refine .more (htext.of_next (fun _ => ?_) (fun _ => ?_) (fun _ => ?_) (fun _ => ?_))
        (hopen fun hslash => by cases hslash)
      all_goals
        intro c hc
        obtain rfl := Option.some.inj hc
        rfl
    · refine .more ((htext.of_append hne).append hne _) (hopen fun hslash => hlast ?_)
      rw [List.getLast?_append, hslash]
      rfl

end Tag

/-! ## Whole tags -/

namespace Template

open Tag (IsTagName ClosingText AttributesText)

/-- An opening tag is read as it is written, whatever follows. -/
theorem readOpening_eq {p : Nat} {name more : List Char} {written : List WrittenAttribute} {b : Bool}
    {attributes : List Attribute} {directives : Directives} (hname : IsTagName name)
    (hahead : NotAhead isTagChar more)
    (hmore : AttributesText (p + 1 + Text.byteLength name) more written b)
    (hsort : Tag.sort written = .ok (attributes, directives)) (next : List Char) :
    readOpening ⟨p, '<' :: name ++ more ++ next⟩ =
      .ok (⟨p, ⟨String.ofList name, attributes, directives, ⟨p + 1, p + 1 + Text.byteLength name⟩, {}⟩, b,
          ⟨p, p + 1 + Text.byteLength name + Text.byteLength more⟩⟩,
        ⟨p + 1 + Text.byteLength name + Text.byteLength more, next⟩) := by
  have hrest : '<' :: name ++ more ++ next = '<' :: (name ++ (more ++ next)) := by simp
  have hinside : (Cursor.consume? ⟨p, '<' :: (name ++ (more ++ next))⟩ "<").getD
      ⟨p, '<' :: (name ++ (more ++ next))⟩ = ⟨p + 1, name ++ (more ++ next)⟩ := rfl
  have hnamed := hname.tagName?_eq (c := ⟨p + 1, name ++ (more ++ next)⟩) rfl
    ((Text.notAhead_append hmore.ne_nil).2 hahead)
  rw [hrest]
  exact readOpening_eq_ok_iff.2 ⟨_, _, _, _, _, _, _, hinside, by rw [hnamed]; rfl,
    hmore.readAttributes_eq _ _ _, hsort, rfl, rfl⟩

/-- A closing tag is read as it is written, whatever follows. -/
theorem readClosing_eq {tag : String} (hname : IsTagName tag.toList) {text : List Char}
    (htext : ClosingText tag.toList text) (p : Nat) (next : List Char) :
    readClosing tag ⟨p, text ++ next⟩ = .ok ⟨p + Text.byteLength text, next⟩ := by
  obtain ⟨name, gap, rfl, hlower, hgap⟩ := htext
  have hrest : '<' :: '/' :: name ++ gap ++ ['>'] ++ next = '<' :: '/' :: (name ++ (gap ++ '>' :: next)) := by
    simp
  have hend : NotAhead isBlank ('>' :: next) := by
    intro c hc
    obtain rfl := Option.some.inj hc
    rfl
  have hahead : NotAhead isTagChar (gap ++ '>' :: next) := by
    intro c hc
    cases gap with
    | nil =>
      obtain rfl := Option.some.inj hc
      rfl
    | cons d gap =>
      obtain rfl := Option.some.inj hc
      exact Cursor.isTagChar_of_isBlank (hgap d List.mem_cons_self)
  have hbracket : Cursor.consume? ⟨p, '<' :: '/' :: (name ++ (gap ++ '>' :: next))⟩ "</" =
      some ⟨p + 2, name ++ (gap ++ '>' :: next)⟩ := rfl
  have hnamed := (hname.of_map_toLower hlower).tagName?_eq
    (c := ⟨p + 2, name ++ (gap ++ '>' :: next)⟩) rfl hahead
  have hlength : p + Text.byteLength ('<' :: '/' :: name ++ gap ++ ['>']) =
      p + 2 + Text.byteLength name + Text.byteLength gap + 1 := by
    have hsizes : ('<' : Char).utf8Size = 1 ∧ ('/' : Char).utf8Size = 1 ∧ ('>' : Char).utf8Size = 1 :=
      ⟨rfl, rfl, rfl⟩
    simp only [List.cons_append, Text.byteLength_cons, Text.byteLength_append, Text.byteLength_nil, hsizes]
    omega
  rw [hlength, hrest, readClosing, closingName, hbracket, Option.getD_some, hnamed, Option.getD_some]
  dsimp only
  rw [Cursor.skipBlanks_append hgap hend]
  rfl

/-- The closing tag of a name, without blanks. -/
def closingTag (name : List Char) : List Char := '<' :: '/' :: name ++ ['>']

theorem closingText_closingTag (name : List Char) : ClosingText name (closingTag name) :=
  ⟨name, [], by rw [List.append_nil, closingTag], rfl, List.forall_mem_nil _⟩

/-- The closing tag of a name is seen as one. -/
theorem closingAhead_closingTag (tag : String) (p : Nat) (next : List Char) :
    closingAhead tag ⟨p, closingTag tag.toList ++ next⟩ = true := by
  refine closingAhead_iff.2 ⟨'<' :: '/' :: tag.toList, '>', next, ?_, ?_, rfl⟩
  · rw [closingTag, List.append_assoc]
    rfl
  · rw [String.toList_append]
    rfl

end Template

end Stencil
