import Stencil.Proofs.Template.Reads
import Stencil.Template.Attributes
/-
  How opening tags are written.

  The grammar here says what the text of an opening tag is without saying how it is read: attributes, the
  blanks and stray slashes between them, and the end `>` or `/>`.  A name of an attribute, a value
  without quotes and the blanks after a bare name reach as far as they can, so each form says what must
  not follow it; that leaves one way to take a text apart, and one `>` at which the tag can end.

  The main statement is that a tag which is read to its end was written in this grammar, with the very
  attributes the reading hands out.
-/

namespace Stencil.Tag

open Cursor (isAttributeChar)
open Text (isBlank NotAhead)

/-! ## The grammar -/

/-- A name of an attribute. -/
structure IsAttributeName (name : List Char) : Prop where
  nonempty : name ≠ []
  chars : ∀ c ∈ name, isAttributeChar c = true

/-- Characters of a value without quotes. -/
def isValueChar (c : Char) : Bool := !isBlank c && c != '>'

/-- Whether a character opens a value in quotes. -/
def isQuote (c : Char) : Bool := c == '"' || c == '\''

/-- `text` is the value of an attribute, in quotes or without them, where `next` comes after it. -/
inductive ValueText (next : List Char) : List Char → String → Prop where
  | quoted {value : List Char} {quote : Char} (hquote : isQuote quote = true)
      (hvalue : quote ∉ value) : ValueText next (quote :: value ++ [quote]) (String.ofList value)
  | unquoted {value : List Char} (hne : value ≠ []) (hvalue : ∀ c ∈ value, isValueChar c = true)
      (hquote : NotAhead isQuote value) (hend : NotAhead isValueChar next) :
      ValueText next value (String.ofList value)

/-- `text` is an attribute with this name and value, where `next` comes after it. -/
inductive AttributeText (next : List Char) : List Char → String → Option String → Prop where
  | bare {name gap : List Char} (hname : IsAttributeName name) (hgap : ∀ c ∈ gap, isBlank c = true)
      (hend : NotAhead isAttributeChar (gap ++ next)) (hblank : NotAhead isBlank next)
      (hequals : NotAhead (· == '=') next) :
      AttributeText next (name ++ gap) (String.ofList name) none
  | valued {name gap gap' text : List Char} {value : String} (hname : IsAttributeName name)
      (hgap : ∀ c ∈ gap, isBlank c = true) (hgap' : ∀ c ∈ gap', isBlank c = true)
      (hvalue : ValueText next text value) :
      AttributeText next (name ++ gap ++ '=' :: gap' ++ text) (String.ofList name) (some value)

/-- What stands between the name of a tag and the end of the tag, that end included.  The text begins at
    the byte `start`; the attributes come with their spans; the last index tells `/>` from `>`. -/
inductive AttributesText : Nat → List Char → List WrittenAttribute → Bool → Prop where
  | close {start : Nat} : AttributesText start ['>'] [] false
  | closeSelf {start : Nat} : AttributesText start ['/', '>'] [] true
  | blank {start : Nat} {c : Char} {w : List Char} {written : List WrittenAttribute} {b : Bool}
      (hc : isBlank c = true) (hw : AttributesText (start + c.utf8Size) w written b) :
      AttributesText start (c :: w) written b
  | slash {start : Nat} {w : List Char} {written : List WrittenAttribute} {b : Bool}
      (hnext : NotAhead (· == '>') w) (hw : AttributesText (start + 1) w written b) :
      AttributesText start ('/' :: w) written b
  | more {start : Nat} {text w : List Char} {name : String} {value : Option String}
      {written : List WrittenAttribute} {b : Bool} (htext : AttributeText w text name value)
      (hw : AttributesText (start + Text.byteLength text) w written b) :
      AttributesText start (text ++ w)
        (⟨name, value, ⟨start, start + Text.byteLength text⟩⟩ :: written) b

theorem AttributesText.ne_nil {start : Nat} {w : List Char} {written : List WrittenAttribute} {b : Bool}
    (h : AttributesText start w written b) : w ≠ [] := by
  induction h with
  | close => exact List.cons_ne_nil _ _
  | closeSelf => exact List.cons_ne_nil _ _
  | blank => exact List.cons_ne_nil _ _
  | slash => exact List.cons_ne_nil _ _
  | more _ _ ih => exact List.append_ne_nil_of_right_ne_nil _ ih

/-- Blanks may be put in front. -/
theorem AttributesText.blanks {start : Nat} {gap w : List Char} {written : List WrittenAttribute}
    {b : Bool} (hgap : ∀ c ∈ gap, isBlank c = true)
    (h : AttributesText (start + Text.byteLength gap) w written b) :
    AttributesText start (gap ++ w) written b := by
  induction gap generalizing start with
  | nil => exact h
  | cons c gap ih =>
    refine .blank (hgap c List.mem_cons_self) (ih (fun d hd => hgap d (List.mem_cons_of_mem _ hd)) ?_)
    rw [Nat.add_assoc]
    exact h

/-- What a value asks of the text after it is asked of the next character only. -/
theorem ValueText.of_append {next rest text : List Char} {value : String}
    (h : ValueText (next ++ rest) text value) (hne : next ≠ []) : ValueText next text value := by
  cases h with
  | quoted hquote hvalue => exact .quoted hquote hvalue
  | unquoted hne' hvalue hquote hend =>
    exact .unquoted hne' hvalue hquote ((Text.notAhead_append hne).1 hend)

/-- What an attribute asks of the text after it is asked of the next character only. -/
theorem AttributeText.of_append {next rest text : List Char} {name : String} {value : Option String}
    (h : AttributeText (next ++ rest) text name value) (hne : next ≠ []) :
    AttributeText next text name value := by
  cases h with
  | bare hname hgap hend hblank hequals =>
    rw [← List.append_assoc] at hend
    exact .bare hname hgap
      ((Text.notAhead_append (List.append_ne_nil_of_right_ne_nil _ hne)).1 hend)
      ((Text.notAhead_append hne).1 hblank) ((Text.notAhead_append hne).1 hequals)
  | valued hname hgap hgap' hvalue => exact .valued hname hgap hgap' (hvalue.of_append hne)

/-! ## Reading a value and an attribute -/

theorem utf8Size_of_isQuote {quote : Char} (h : isQuote quote = true) : quote.utf8Size = 1 := by
  rcases Bool.or_eq_true _ _ ▸ h with h | h <;> rw [eq_of_beq h] <;> rfl

theorem reads_of_quoted? {c d : Cursor} {value : List Char} {s : Span}
    (h : c.quoted? = some ((value, s), d)) :
    ∃ quote, isQuote quote = true ∧ quote ∉ value ∧ c.Reads (quote :: value ++ [quote]) d := by
  unfold Cursor.quoted? at h
  split at h
  · next quote rest hr =>
    split at h
    · next hq =>
      obtain ⟨⟨v, after⟩, hs, e⟩ := Option.map_eq_some_iff.1 h
      obtain ⟨⟨rfl, -⟩, rfl⟩ := by simpa using e
      refine ⟨quote, hq, ?_, ?_, ?_⟩
      · -- a quote inside the value would have ended it
        intro hmem
        obtain ⟨x, y, rfl⟩ := List.append_of_mem hmem
        have hfirst := Text.endsFirst_of_splitAtFirst hs x (y ++ [quote]) (by simp)
        exact absurd hfirst (List.append_ne_nil_of_right_ne_nil _ (List.cons_ne_nil _ _))
      · rw [hr, Text.splitAtFirst_eq_some hs]
        simp
      · simp only [List.cons_append, Text.byteLength_cons, Text.byteLength_append,
          Text.byteLength_nil, utf8Size_of_isQuote hq]
        omega
    · cases h
  · cases h

/-- A value that is read was written as one. -/
theorem valueText_of_readValue {name value : String} {start : Nat} {c d : Cursor}
    (h : readValue name start c = .ok (value, d)) :
    ∃ text, c.Reads text d ∧ ValueText d.rest text value := by
  unfold readValue at h
  split at h
  · split at h
    · next v s after hq =>
      obtain ⟨rfl, rfl⟩ := by simpa using h
      obtain ⟨quote, hquote, hvalue, hr⟩ := reads_of_quoted? hq
      exact ⟨_, hr, .quoted hquote hvalue⟩
    · cases h
  · next hstart =>
    dsimp only at h
    split at h
    · cases h
    · next hne =>
      obtain ⟨rfl, rfl⟩ := by simpa using h
      have hquote : NotAhead isQuote c.rest := by
        intro q hq
        obtain ⟨rest, hrest⟩ : ∃ rest, c.rest = q :: rest := List.head?_eq_some_iff.1 hq
        refine Bool.eq_false_iff.2 fun hcon => ?_
        rcases Bool.or_eq_true _ _ ▸ hcon with hq | hq
        · exact hstart (by simp [Cursor.startsWith_of_rest_eq "\"" (eq_of_beq hq ▸ hrest)])
        · exact hstart (by simp [Cursor.startsWith_of_rest_eq "'" (eq_of_beq hq ▸ hrest)])
      have hvalue : c.unquoted.1.1 ≠ [] := by simpa using hne
      exact ⟨_, c.reads_takeWhile isValueChar,
        .unquoted hvalue (c.all_takeWhile isValueChar) hquote.of_takeWhile
          (c.notAhead_takeWhile isValueChar)⟩

/-- After its name an attribute is read or refused, and nothing else. -/
theorem readAttribute_cases (name : String) (start : Nat) (c : Cursor) :
    (∃ a d, readAttribute name start c = .written a d) ∨
      ∃ e, readAttribute name start c = .failed e := by
  unfold readAttribute
  split
  · exact .inl ⟨_, _, rfl⟩
  · split
    · exact .inr ⟨_, rfl⟩
    · exact .inl ⟨_, _, rfl⟩

/-- An attribute that is read was written as one, its name included. -/
theorem attributeText_of_readAttribute {c d : Cursor} {a : WrittenAttribute} {start : Nat}
    (hname : c.attributeName.1 ≠ [])
    (h : readAttribute (String.ofList c.attributeName.1) start c.attributeName.2.skipBlanks
      = .written a d) :
    ∃ text, c.Reads text d ∧ AttributeText d.rest text a.name a.value ∧ a.span = ⟨start, d.position⟩ := by
  have hisName : IsAttributeName c.attributeName.1 := ⟨hname, c.all_takeWhile _⟩
  have hfront : c.Reads (c.attributeName.1 ++ c.attributeName.2.blanks)
      c.attributeName.2.skipBlanks :=
    (c.reads_takeWhile isAttributeChar).trans c.attributeName.2.reads_skipBlanks
  unfold readAttribute at h
  split at h
  · next hequals =>
    obtain ⟨rfl, rfl⟩ := by simpa using h
    refine ⟨_, hfront, .bare hisName (Cursor.all_blanks _) ?_
      (c.attributeName.2.notAhead_takeWhile isBlank) ?_, rfl⟩
    · -- the name reaches as far as it can
      rw [← (c.attributeName.2.reads_skipBlanks).rest_eq]
      exact c.notAhead_takeWhile isAttributeChar
    · intro ch hch
      obtain ⟨rest, hrest⟩ := List.head?_eq_some_iff.1 hch
      refine Bool.eq_false_iff.2 fun heq => ?_
      exact Cursor.consume?_eq_none_iff.1 hequals rest (by rw [hrest, eq_of_beq heq]; rfl)
  · next after hequals =>
    split at h
    · cases h
    · next value after' hvalue =>
      obtain ⟨rfl, rfl⟩ := by simpa using h
      obtain ⟨text, htext, hwritten⟩ := valueText_of_readValue hvalue
      have hreads := hfront.trans
        ((Cursor.reads_of_consume? hequals).trans (after.reads_skipBlanks.trans htext))
      refine ⟨_, ?_, .valued hisName c.attributeName.2.all_blanks after.all_blanks hwritten, rfl⟩
      simpa using hreads

/-! ## Reading to the end of a tag -/

/-- What the end of an opening tag is written as. -/
def endText (selfClosing : Bool) : List Char := if selfClosing then ['/', '>'] else ['>']

/-- What a part of an opening tag was read from, by a cursor past the blanks before it. -/
def Part.ReadFrom (c : Cursor) : Part → Prop
  | .close e => c.Reads (endText e.selfClosing) e.after
  | .written a d =>
    ∃ text, c.Reads text d ∧ AttributeText d.rest text a.name a.value ∧ a.span = ⟨c.position, d.position⟩
  | .stray d => c.Reads ['/'] d ∧ NotAhead (· == '>') d.rest
  | .failed _ => True

theorem readFrom_readPart (tag : String) (tagStart : Nat) (c : Cursor) :
    (readPart tag tagStart c).ReadFrom c.skipBlanks := by
  unfold readPart
  dsimp only
  split
  · trivial
  · split
    · next after hslash => exact Cursor.reads_of_consume? hslash
    · next after _ hend => exact Cursor.reads_of_consume? hend
    · next hslash _ =>
      split
      · split
        · next after hafter =>
          have hreads := Cursor.reads_of_consume? hafter
          refine ⟨hreads, ?_⟩
          -- with `>` behind it the slash would have ended the tag
          intro ch hch
          obtain ⟨rest, hrest⟩ := List.head?_eq_some_iff.1 hch
          refine Bool.eq_false_iff.2 fun heq => Cursor.consume?_eq_none_iff.1 hslash rest ?_
          rw [hreads.rest_eq, hrest, eq_of_beq heq]
          rfl
        · trivial
      · next hname =>
        rcases readAttribute_cases (String.ofList c.skipBlanks.attributeName.1)
          c.skipBlanks.position c.skipBlanks.attributeName.2.skipBlanks with ⟨a, d, hattr⟩ | ⟨e, hattr⟩
        · rw [hattr]
          exact attributeText_of_readAttribute (by simpa using hname) hattr
        · rw [hattr]
          trivial

/-- The text of a tag that is read to its end, its attributes and its end. -/
theorem attributesText_of_readAttributes {tag : String} {tagStart : Nat} {c : Cursor}
    {written : List WrittenAttribute} {e : TagEnd}
    (h : readAttributes tag tagStart c = (written, .ok e)) :
    ∃ w, c.Reads w e.after ∧ AttributesText c.position w written e.selfClosing := by
  -- each part is read after blanks, which go in front of whatever it is
  have hblanks : ∀ {c : Cursor} {w : List Char} {written : List WrittenAttribute},
      c.skipBlanks.Reads w e.after →
      AttributesText c.skipBlanks.position w written e.selfClosing →
      ∃ v, c.Reads v e.after ∧ AttributesText c.position v written e.selfClosing := by
    intro c w written hw hwritten
    refine ⟨_, c.reads_skipBlanks.trans hw, .blanks c.all_blanks ?_⟩
    rw [← c.reads_skipBlanks.position_eq]
    exact hwritten
  have hpart := readFrom_readPart tag tagStart c
  -- by the parts, where only a slash or an attribute goes on to another part
  fun_induction readAttributes tag tagStart c generalizing written with
  | case1 c ending hp =>
    obtain ⟨rfl, rfl⟩ : [] = written ∧ ending = e := by simpa using h
    rw [hp] at hpart
    refine hblanks hpart ?_
    cases ending.selfClosing with
    | true => exact .closeSelf
    | false => exact .close
  | case2 c e' hp => simp at h
  | case3 c after hp hlt ih =>
    rw [hp] at hpart
    obtain ⟨hreads, hnext⟩ := hpart
    obtain ⟨w, hw, hwritten⟩ := ih h (readFrom_readPart tag tagStart after)
    refine hblanks (hreads.trans hw) (.slash ?_ ?_)
    · rw [hw.rest_eq] at hnext
      exact (Text.notAhead_append hwritten.ne_nil).1 hnext
    · rw [hreads.position_eq] at hwritten
      exact hwritten
  | case4 c a after hp hlt more ending hr ih =>
    obtain ⟨rfl, rfl⟩ : a :: more = written ∧ ending = .ok e := by simpa using h
    rw [hp] at hpart
    obtain ⟨text, hreads, htext, hspan⟩ := hpart
    obtain ⟨w, hw, hwritten⟩ := ih hr (readFrom_readPart tag tagStart after)
    have hmore : AttributesText c.skipBlanks.position (text ++ w) _ e.selfClosing :=
      .more ((hw.rest_eq ▸ htext).of_append hwritten.ne_nil) (hreads.position_eq ▸ hwritten)
    rw [← hreads.position_eq, ← hspan] at hmore
    exact hblanks (hreads.trans hw) hmore

end Stencil.Tag
