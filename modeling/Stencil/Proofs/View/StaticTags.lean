import Stencil.Proofs.View.CopiedText
import Stencil.Proofs.View.OpeningTags
import Stencil.Proofs.View.TextOnly
/-
  Tags that are the same on every page.

  An element whose attributes were all written without a colon in front has no directives and no expressions
  as values; if no text of an attribute has the opening mark of an expression either, its opening tag is
  written the same whatever is bound.  Such a tag is called static.

  The main statement is that the opening tag of a static tag, as it is written on a page, is read by the
  reader of templates as a static tag of the same name that is written just the same.  The texts of the
  attributes may change on the way, since a double quote is written as the name of a character, but what
  is written for them does not change a second time.
-/

namespace Stencil

open Text (NotAhead)
open Cursor (isAttributeChar isTagChar)

/-! ## Texts without expressions -/

namespace Interpolation

theorem Unmarked.findOpening_eq_none {cs : List Char} (h : Unmarked cs) : findOpening cs = none := by
  rw [Option.eq_none_iff_forall_ne_some]
  rintro ⟨before, escaped, rest⟩ hfound
  exact h escaped ⟨before, rest, (findOpening_eq_some hfound).symm⟩

theorem unmarked_cons {c : Char} {cs : List Char} :
    Unmarked (c :: cs) ↔ (∀ escaped, ¬ opening escaped <+: c :: cs) ∧ Unmarked cs := by
  simp only [Unmarked, List.infix_cons_iff, not_or, forall_and]

/-- Every opening mark begins with a brace. -/
theorem Unmarked.append {front cs : List Char} (hfront : '\x7b' ∉ front) (h : Unmarked cs) :
    Unmarked (front ++ cs) := by
  induction front with
  | nil => exact h
  | cons c front ih =>
    obtain ⟨hc, hrest⟩ := not_or.1 (mt List.mem_cons.2 hfront)
    refine unmarked_cons.2 ⟨fun escaped hmark => hc ?_, ih hrest⟩
    cases escaped <;> exact (List.cons_prefix_cons.1 hmark).1

/-- A text without expressions stands for itself. -/
theorem Unmarked.interpolate_eq {text : String} (h : Unmarked text.toList) (evaluate : Evaluator)
    (scope : Scope) : interpolate evaluate scope text = .ok text := by
  rw [interpolate, split_of_findOpening_eq_none h.findOpening_eq_none, String.ofList_toList]
  show Except.ok (text ++ "") = Except.ok text
  rw [String.append_empty]

end Interpolation

namespace Html

/-- A character between the double quotes of an attribute. -/
def attributeChar (c : Char) : List Char := if c == '"' then "&quot;".toList else [c]

theorem toList_attributeText (s : String) : (attributeText s).toList = s.toList.flatMap attributeChar :=
  String.toList_ofList

/-- Between quotes no opening mark comes about: what is put in place of a quote has no character of one. -/
theorem prefix_of_prefix_flatMap {mark cs : List Char} (hmark : ∀ c ∈ mark, c ∉ "&quot;".toList)
    (h : mark <+: cs.flatMap attributeChar) : mark <+: cs := by
  induction cs generalizing mark with
  | nil => exact h
  | cons c cs ih =>
    cases mark with
    | nil => exact List.nil_prefix
    | cons m mark =>
      obtain ⟨hm, hrest⟩ := List.forall_mem_cons.1 hmark
      rw [List.flatMap_cons, attributeChar] at h
      split at h
      · obtain ⟨rfl, -⟩ := List.cons_prefix_cons.1 h
        exact absurd (by decide) hm
      · obtain ⟨rfl, htail⟩ := List.cons_prefix_cons.1 h
        exact List.cons_prefix_cons.2 ⟨rfl, ih hrest htail⟩

/-- A text without expressions has none between quotes. -/
theorem unmarked_attributeText {text : String} (h : Interpolation.Unmarked text.toList) :
    Interpolation.Unmarked (attributeText text).toList := by
  rw [toList_attributeText]
  generalize text.toList = cs at h
  induction cs with
  | nil => exact h
  | cons c cs ih =>
    obtain ⟨hnone, hcs⟩ := Interpolation.unmarked_cons.1 h
    have hrest := ih hcs
    by_cases hc : attributeChar c = [c]
    · rw [List.flatMap_cons, hc, List.singleton_append]
      refine Interpolation.unmarked_cons.2 ⟨fun escaped hmark => hnone escaped ?_, hrest⟩
      rw [← List.singleton_append, ← hc, ← List.flatMap_cons] at hmark
      refine prefix_of_prefix_flatMap ?_ hmark
      cases escaped <;> simp [Interpolation.opening]
    · have hquote : attributeChar c = "&quot;".toList := by
        unfold attributeChar at hc ⊢
        split at hc
        · next hquote => rw [if_pos hquote]
        · exact absurd rfl hc
      rw [List.flatMap_cons, hquote]
      exact hrest.append (by decide)

/-- What is between quotes is not changed by being put between quotes again. -/
theorem attributeText_attributeText (text : String) :
    attributeText (attributeText text) = attributeText text := by
  have hquote := Render.quote_not_mem_attributeText text
  rw [← String.toList_inj, toList_attributeText]
  have hself : ∀ c ∈ (attributeText text).toList, attributeChar c = [c] := by
    intro c hc
    have hne : (c == '"') = false := by
      rw [beq_eq_false_iff_ne]
      exact fun heq => hquote (heq ▸ hc)
    rw [attributeChar, hne, if_neg Bool.false_ne_true]
  rw [List.flatMap_congr hself, List.flatMap_singleton']

end Html

/-! ## Static tags -/

/-- An attribute that is written the same on every page. -/
structure Attribute.Static (a : Attribute) : Prop where
  name : Tag.IsAttributeName a.name.toList
  colon : a.name.toList.head? ≠ some ':'
  value : a.value = .bare ∨ ∃ text, a.value = .literal text ∧ Interpolation.Unmarked text.toList

/-- What a static attribute is on a page. -/
def Attribute.page (a : Attribute) : PageAttribute :=
  ⟨a.name, match a.value with
    | .literal text => some (Html.attributeText text)
    | _ => none⟩

/-- An attribute as it would be written to be kept as it is. -/
def Attribute.written (a : Attribute) : WrittenAttribute :=
  ⟨a.name, match a.value with
    | .literal text => some text
    | _ => none, a.span⟩

/-- None of the attributes a tag was written with has a colon in front. -/
def Tag.WrittenPlainly (tag : Tag) : Prop :=
  ∃ written, Tag.sort written = .ok (tag.attributes, tag.directives) ∧
    ∀ w ∈ written, w.name.toList.head? ≠ some ':'

/-- A tag of an element, not of a component or a slot, that is written the same on every page. -/
structure Tag.Static (o : Dialect) (tag : Tag) : Prop where
  name : Tag.IsTagName tag.name.toList
  slot : (tag.name == o.slotTag) = false
  component : o.isComponent tag.name = false
  directives : tag.directives = {}
  links : tag.links = {}
  attributes : ∀ a ∈ tag.attributes, a.Static

/-- The opening tag of a static tag on a page. -/
def Tag.openingOnPage (tag : Tag) : List Char :=
  '<' :: tag.name.toList ++ (tag.attributes.map Attribute.page).flatMap PageAttribute.spelled ++ ['>']

/-- The closing tag of a tag on a page. -/
def Tag.closingOnPage (tag : Tag) : List Char := '<' :: '/' :: tag.name.toList ++ ['>']

/-- The opening tag of a static tag begins as the opening tag of a template. -/
theorem Tag.Static.opening_eq {o : Dialect} {tag : Tag} (h : tag.Static o) :
    ∃ c more, tag.openingOnPage = '<' :: c :: more ∧ c.isAlpha = true := by
  obtain ⟨c, cs, hname, hc⟩ := h.name.first
  refine ⟨c, cs ++ (tag.attributes.map Attribute.page).flatMap PageAttribute.spelled ++ ['>'], ?_, hc⟩
  rw [Tag.openingOnPage, hname]
  rfl

namespace Tag

/-! ### Sorting -/

/-- An attribute that was written without a colon in front, as it is kept. -/
def plain (w : WrittenAttribute) : Attribute := ⟨w.name, literalValue w.value, w.span⟩

theorem plain_written {a : Attribute} (h : a.value.isExpression = false) : plain a.written = a := by
  obtain ⟨name, value, s⟩ := a
  cases value with
  | bare => rfl
  | literal => rfl
  | expression => cases h

theorem add_of_plain {w : WrittenAttribute} (h : w.name.toList.head? ≠ some ':') (s : Sorted)
    (position : Nat) : s.add w position = .ok (s.keep (plain w)) := by
  unfold Sorted.add
  split <;> first
    | rfl
    | next heq => exact absurd (by rw [heq]; rfl) h

theorem sortFrom_of_plain {written : List WrittenAttribute}
    (h : ∀ w ∈ written, w.name.toList.head? ≠ some ':') (s : Sorted) (position : Nat) :
    sortFrom s position written =
      .ok ⟨(written.map plain).reverse ++ s.attributes, s.directives⟩ := by
  induction written generalizing s position with
  | nil => rfl
  | cons w written ih =>
    obtain ⟨hw, hwritten⟩ := List.forall_mem_cons.1 h
    rw [sortFrom, add_of_plain hw]
    show sortFrom (s.keep (plain w)) (position + 1) written = _
    rw [ih hwritten, List.map_cons, List.reverse_cons, List.append_assoc]
    rfl

/-- Attributes that are written without a colon in front are all kept, and none is a directive. -/
theorem sort_of_plain {written : List WrittenAttribute}
    (h : ∀ w ∈ written, w.name.toList.head? ≠ some ':') : sort written = .ok (written.map plain, {}) := by
  rw [sort, sortFrom_of_plain h]
  show Except.ok (((written.map plain).reverse ++ []).reverse, _) = _
  rw [List.append_nil, List.reverse_reverse]

/-- A tag was written without colons in front of its attributes exactly if it has no directives, and no
    attribute whose value is an expression, or whose name still has a colon in front. -/
theorem writtenPlainly_iff {tag : Tag} : tag.WrittenPlainly ↔ tag.directives = {} ∧
    ∀ a ∈ tag.attributes, a.name.toList.head? ≠ some ':' ∧ a.value.isExpression = false := by
  constructor
  · rintro ⟨written, hsort, hplain⟩
    rw [sort_of_plain hplain] at hsort
    obtain ⟨hattributes, hdirectives⟩ := Prod.mk.inj (Except.ok.inj hsort)
    refine ⟨hdirectives.symm, fun a ha => ?_⟩
    rw [← hattributes] at ha
    obtain ⟨w, hw, rfl⟩ := List.mem_map.1 ha
    refine ⟨hplain w hw, ?_⟩
    unfold plain literalValue
    cases w.value <;> rfl
  · rintro ⟨hdirectives, hattributes⟩
    have hback : (tag.attributes.map Attribute.written).map plain = tag.attributes := by
      rw [List.map_map]
      refine (List.map_congr_left fun a ha => ?_).trans (List.map_id _)
      exact plain_written (hattributes a ha).2
    have hplain : ∀ w ∈ tag.attributes.map Attribute.written, w.name.toList.head? ≠ some ':' := by
      intro w hw
      obtain ⟨a, ha, rfl⟩ := List.mem_map.1 hw
      exact (hattributes a ha).1
    refine ⟨tag.attributes.map Attribute.written, ?_, hplain⟩
    rw [sort_of_plain hplain, hback, hdirectives]

instance (tag : Tag) : Decidable tag.WrittenPlainly := decidable_of_iff _ writtenPlainly_iff.symm

/-- A tag of an element that was written in a text without expressions, and without colons in front of
    its attributes, is static. -/
theorem WrittenPlainly.static {o : Dialect} {tag : Tag} {source : List Char} (h : tag.WrittenPlainly)
    (hwritten : tag.WrittenIn source) (hsource : Interpolation.Unmarked source)
    (hslot : (tag.name == o.slotTag) = false) (hcomponent : o.isComponent tag.name = false)
    (hlinks : tag.links = {}) : tag.Static o := by
  obtain ⟨hdirectives, hattributes⟩ := writtenPlainly_iff.1 h
  refine ⟨hwritten.name, hslot, hcomponent, hdirectives, hlinks, fun a ha => ?_⟩
  obtain ⟨hcolon, hvalue⟩ := hattributes a ha
  obtain ⟨written, hsort, hstands⟩ := hwritten.attributes
  obtain ⟨w, hw, hkept⟩ := exists_kept_of_sort hsort a ha
  have hw := hstands w hw
  cases hkept with
  | literal hname =>
    refine ⟨hw.name, hcolon, ?_⟩
    cases hwvalue : w.value with
    | none => exact .inl rfl
    | some text => exact .inr ⟨text, rfl, hsource.of_isInfix (hw.value text hwvalue)⟩
  | colon => exact absurd (by rw [String.toList_ofList]; rfl) hcolon
  | expression => cases hvalue

end Tag

/-! ### Writing -/

theorem Attribute.Static.legible {a : Attribute} (h : a.Static) : a.page.Legible := by
  refine ⟨h.name, fun text htext => ?_⟩
  unfold page at htext
  dsimp only at htext
  split at htext
  · obtain rfl := Option.some.inj htext
    exact Render.quote_not_mem_attributeText _
  · cases htext

namespace Render

variable {evaluate : Evaluator} {scope : Scope}

theorem pageAttribute?_of_static {a : Attribute} (h : a.Static) :
    pageAttribute? evaluate scope a = .ok (some a.page) := by
  unfold pageAttribute? Attribute.page
  rcases h.value with hvalue | ⟨text, hvalue, htext⟩
  · rw [hvalue]
  · rw [hvalue]
    dsimp only
    rw [htext.interpolate_eq]
    rfl

theorem pageAttributes_of_static {attributes : List Attribute} (h : ∀ a ∈ attributes, a.Static) :
    pageAttributes evaluate scope attributes = .ok (attributes.map Attribute.page) := by
  induction attributes with
  | nil => rfl
  | cons a attributes ih =>
    obtain ⟨ha, hattributes⟩ := List.forall_mem_cons.1 h
    rw [pageAttributes, pageAttribute?_of_static ha, ih hattributes]
    rfl

/-- The opening tag of a static tag is the same for all evaluators and scopes. -/
theorem openingText_of_static {o : Dialect} {tag : Tag} (h : tag.Static o) :
    openingText evaluate scope tag = .ok (String.ofList tag.openingOnPage) := by
  rw [openingText, attributesText_eq, pageAttributes_of_static h.attributes]
  refine congrArg Except.ok ?_
  rw [← String.toList_inj]
  simp [Tag.openingOnPage]

end Render

/-! ## Reading back -/

namespace Cursor

/-- Behind blanks no equals sign comes next, but a name or the end of the tag. -/
theorem consume?_equals_attributesOnPage {written : List PageAttribute} (h : ∀ w ∈ written, w.Legible)
    (p : Nat) (next : List Char) : (skipBlanks ⟨p, attributesOnPage written next⟩).consume? "=" = none := by
  cases written with
  | nil => rfl
  | cons w written =>
    have hw := h w List.mem_cons_self
    rw [skipBlanks_attributesOnPage hw]
    exact consume?_tail_spelled hw rfl (by decide) (p + 1) _

end Cursor

namespace Tag

open Cursor (attributesOnPage)

variable (tag : String) (start p : Nat) {next : List Char}

/-- Where a name comes next behind a blank, an attribute of this name is read. -/
theorem readPart_of_name {name : List Char} (hname : IsAttributeName name)
    (hnext : NotAhead isAttributeChar next) :
    readPart tag start ⟨p, ' ' :: name ++ next⟩ =
      readAttribute (String.ofList name) (p + 1)
        (Cursor.skipBlanks ⟨p + 1 + Text.byteLength name, next⟩) := by
  have hskip : Cursor.skipBlanks ⟨p, ' ' :: name ++ next⟩ = Cursor.skipBlanks ⟨p + 1, name ++ next⟩ :=
    Cursor.skipBlanks_of_isBlank rfl p _
  rw [← readPart_skipBlanks, hskip, readPart_skipBlanks, readPart_name tag start (p + 1) hname hnext]

/-- A text in double quotes is read as the value of the attribute. -/
theorem readAttribute_quoted (name : String) {text : List Char} (htext : '"' ∉ text) (next : List Char) :
    ∃ found q, readAttribute name start ⟨p, '=' :: '"' :: text ++ '"' :: next⟩ =
      .written ⟨name, some (String.ofList text), found⟩ ⟨q, next⟩ := by
  obtain ⟨s, q, hquoted⟩ := Cursor.quoted?_eq htext (p + 1) next
  have hequals : Cursor.consume? ⟨p, '=' :: '"' :: text ++ '"' :: next⟩ "=" =
      some ⟨p + 1, '"' :: text ++ '"' :: next⟩ := rfl
  have hskip : Cursor.skipBlanks ⟨p + 1, '"' :: text ++ '"' :: next⟩ = ⟨p + 1, '"' :: text ++ '"' :: next⟩ :=
    rfl
  have hvalue : readValue name start ⟨p + 1, '"' :: text ++ '"' :: next⟩ =
      .ok (String.ofList text, ⟨q, next⟩) := by
    have hquote : Cursor.startsWith ⟨p + 1, '"' :: text ++ '"' :: next⟩ "\"" = true := rfl
    rw [readValue, hquote, hquoted]
    rfl
  unfold readAttribute
  rw [hequals]
  dsimp only
  rw [hskip, hvalue]
  exact ⟨_, q, rfl⟩

/-- An attribute with its name and its value, as on a page. -/
def pageOf (w : WrittenAttribute) : PageAttribute := ⟨w.name, w.value⟩

/-- Attributes that are spelled on a page are read as they are. -/
theorem readAttributes_attributesOnPage {written : List PageAttribute} (h : ∀ w ∈ written, w.Legible)
    (next : List Char) : ∃ found q, readAttributes tag start ⟨p, attributesOnPage written next⟩ =
      (found, .ok ⟨false, ⟨q, next⟩⟩) ∧ found.map pageOf = written := by
  induction written generalizing p with
  | nil => exact ⟨[], p + 1, readAttributes_of_close rfl, rfl⟩
  | cons w written ih =>
    obtain ⟨hw, hwritten⟩ := List.forall_mem_cons.1 h
    obtain ⟨name, text?⟩ := w
    have hname : name = String.ofList name.toList := String.ofList_toList.symm
    rw [Cursor.attributesOnPage_cons]
    cases text? with
    | none =>
      have hend : NotAhead isAttributeChar (attributesOnPage written next) :=
        Cursor.notAhead_attributesOnPage isAttributeChar rfl rfl
      have hpart := readPart_of_name tag start p hw.name hend
      have hequals := Cursor.consume?_equals_attributesOnPage hwritten
        (p + 1 + Text.byteLength name.toList) next
      rw [readAttribute, hequals] at hpart
      obtain ⟨found, q, hmore, hfound⟩ := ih (p + 1 + Text.byteLength name.toList) hwritten
      rw [PageAttribute.spelled, readAttributes_of_written hpart, readAttributes_skipBlanks, hmore]
      refine ⟨_, q, rfl, ?_⟩
      rw [List.map_cons, hfound, pageOf, ← hname]
    | some text =>
      have hspelled : PageAttribute.spelled ⟨name, some text⟩ ++ attributesOnPage written next =
          ' ' :: name.toList ++ ('=' :: '"' :: text.toList ++ '"' :: attributesOnPage written next) := by
        simp [PageAttribute.spelled]
      have hend : NotAhead isAttributeChar ('=' :: '"' :: text.toList ++ '"' :: attributesOnPage written next) := by
        intro c hc
        obtain rfl := Option.some.inj hc
        rfl
      have hpart := readPart_of_name tag start p hw.name hend
      obtain ⟨s, q, hread⟩ := readAttribute_quoted (p + 1) (p + 1 + Text.byteLength name.toList)
        (String.ofList name.toList) (hw.text text rfl) (attributesOnPage written next)
      have hskip : Cursor.skipBlanks ⟨p + 1 + Text.byteLength name.toList,
            '=' :: '"' :: text.toList ++ '"' :: attributesOnPage written next⟩ =
          ⟨p + 1 + Text.byteLength name.toList,
            '=' :: '"' :: text.toList ++ '"' :: attributesOnPage written next⟩ := rfl
      rw [hskip, hread] at hpart
      obtain ⟨found, q', hmore, hfound⟩ := ih q hwritten
      rw [hspelled, readAttributes_of_written hpart, hmore]
      refine ⟨_, q', rfl, ?_⟩
      rw [List.map_cons, hfound, pageOf, ← hname, String.ofList_toList]

end Tag

/-- What is read from a static attribute on a page is static, and it is the same on a page. -/
theorem Attribute.Static.readBack {a : Attribute} {w : WrittenAttribute} (h : a.Static)
    (hpage : a.page = Tag.pageOf w) : (Tag.plain w).Static ∧ (Tag.plain w).page = Tag.pageOf w := by
  obtain ⟨hname, htext⟩ := PageAttribute.mk.inj hpage
  have hname : a.name = (Tag.plain w).name := hname
  have hself : ∀ hvalue : (Tag.plain w).value = .bare ∨ ∃ text, (Tag.plain w).value = .literal text ∧
      Interpolation.Unmarked text.toList, (Tag.plain w).Static :=
    fun hvalue => ⟨hname ▸ h.name, hname ▸ h.colon, hvalue⟩
  rcases h.value with hvalue | ⟨text, hvalue, hunmarked⟩
  · rw [hvalue] at htext
    have hbare : w.value = none := htext.symm
    have hplain : (Tag.plain w).value = .bare := by rw [Tag.plain, hbare]; rfl
    refine ⟨hself (.inl hplain), ?_⟩
    rw [Attribute.page, hplain, Tag.pageOf, hbare]
    rfl
  · rw [hvalue] at htext
    have hliteral : w.value = some (Html.attributeText text) := htext.symm
    have hplain : (Tag.plain w).value = .literal (Html.attributeText text) := by
      rw [Tag.plain, hliteral]
      rfl
    refine ⟨hself (.inr ⟨_, hplain, Html.unmarked_attributeText hunmarked⟩), ?_⟩
    rw [Attribute.page, hplain, Tag.pageOf, hliteral]
    dsimp only
    rw [Html.attributeText_attributeText]
    rfl

namespace Template

variable {o : Dialect} {tag : Tag}

theorem openingOnPage_append (next : List Char) :
    tag.openingOnPage ++ next =
      '<' :: (tag.name.toList ++ Cursor.attributesOnPage (tag.attributes.map Attribute.page) next) := by
  rw [Tag.openingOnPage, Cursor.attributesOnPage]
  simp

/-- The opening tag of a static tag is read as that of a static tag that is the same on a page. -/
theorem readOpening_openingOnPage (h : tag.Static o) (p : Nat) (next : List Char) :
    ∃ opening q, readOpening ⟨p, tag.openingOnPage ++ next⟩ = .ok (opening, ⟨q, next⟩) ∧
      opening.selfClosing = false ∧ opening.tag.name = tag.name ∧ opening.tag.Static o ∧
      opening.tag.openingOnPage = tag.openingOnPage := by
  have hlegible : ∀ w ∈ tag.attributes.map Attribute.page, w.Legible := by
    intro w hw
    obtain ⟨a, ha, rfl⟩ := List.mem_map.1 hw
    exact (h.attributes a ha).legible
  have hinside : (Cursor.consume? ⟨p, tag.openingOnPage ++ next⟩ "<").getD ⟨p, tag.openingOnPage ++ next⟩ =
      ⟨p + 1, tag.name.toList ++ Cursor.attributesOnPage (tag.attributes.map Attribute.page) next⟩ := by
    rw [openingOnPage_append]
    rfl
  have hname := h.name.tagName?_eq
    (c := ⟨p + 1, tag.name.toList ++ Cursor.attributesOnPage (tag.attributes.map Attribute.page) next⟩) rfl
    (Cursor.notAhead_attributesOnPage isTagChar rfl rfl)
  obtain ⟨found, q, hread, hfound⟩ := Tag.readAttributes_attributesOnPage
    (String.ofList tag.name.toList) p (p + 1 + Text.byteLength tag.name.toList) hlegible next
  have hback : ∀ w ∈ found, (Tag.plain w).Static ∧ (Tag.plain w).page = Tag.pageOf w := by
    intro w hw
    have hmem : Tag.pageOf w ∈ tag.attributes.map Attribute.page := hfound ▸ List.mem_map_of_mem hw
    obtain ⟨a, ha, hpage⟩ := List.mem_map.1 hmem
    exact (h.attributes a ha).readBack hpage
  have hsort : Tag.sort found = .ok (found.map Tag.plain, {}) :=
    Tag.sort_of_plain fun w hw => (hback w hw).1.colon
  have hsame : (found.map Tag.plain).map Attribute.page = tag.attributes.map Attribute.page := by
    rw [← hfound, List.map_map]
    exact List.map_congr_left fun w hw => (hback w hw).2
  have hopening := readOpening_eq_ok_iff.2 ⟨_, _, _, found, ⟨false, ⟨q, next⟩⟩, found.map Tag.plain, {},
    hinside, by rw [hname]; rfl, hread, hsort, rfl, rfl⟩
  refine ⟨_, q, hopening, rfl, String.ofList_toList, ?_, ?_⟩
  · rw [String.ofList_toList]
    refine ⟨h.name, h.slot, h.component, rfl, rfl, fun a ha => ?_⟩
    obtain ⟨w, hw, rfl⟩ := List.mem_map.1 ha
    exact (hback w hw).1
  · rw [Tag.openingOnPage, Tag.openingOnPage]
    dsimp only
    rw [hsame, String.ofList_toList]

/-- The closing tag of an element on a page is seen and read as one. -/
theorem readClosing_closingOnPage (h : Tag.IsTagName tag.name.toList) (p : Nat) (next : List Char) :
    closingAhead tag.name ⟨p, tag.closingOnPage ++ next⟩ = true ∧
      ∃ q, readClosing tag.name ⟨p, tag.closingOnPage ++ next⟩ = .ok ⟨q, next⟩ := by
  have htext : tag.closingOnPage = closingTag tag.name.toList := by
    rw [Tag.closingOnPage, closingTag]
  rw [htext]
  exact ⟨closingAhead_closingTag tag.name p next, _, readClosing_eq h (closingText_closingTag _) p next⟩

end Template

end Stencil
