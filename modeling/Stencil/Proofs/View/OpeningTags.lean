import Stencil.Proofs.Template.TagsRead
import Stencil.Proofs.Template.TagsReadBack
import Stencil.Proofs.View.Marks
/-
  Opening tags that are written and read back.

  An opening tag is written attribute by attribute: a name alone, or a name and a text between double
  quotes, or nothing.  A reader of pages takes such a tag apart again: the name of the tag, then blanks,
  names and texts in quotes, up to the end of the tag.

  The main statement is that it finds just the attributes that were written, each with its text, and stops
  where the tag ends, provided that every attribute has a name and that no piece of markup with a double
  quote in it is the value of an attribute.  Both provisos are needed.
-/

namespace Stencil

open Cursor (isAttributeChar)
open Text (NotAhead)

/-- An attribute on a page: its name, and the text between its quotes, if it has any. -/
structure PageAttribute where
  name : String
  text : Option String
deriving DecidableEq, Repr

/-- How an attribute is written on a page. -/
def PageAttribute.spelled : PageAttribute → List Char
  | ⟨name, none⟩ => ' ' :: name.toList
  | ⟨name, some text⟩ => ' ' :: name.toList ++ '=' :: '"' :: text.toList ++ ['"']

/-- An attribute on a page has a name, and no double quote in its text. -/
structure PageAttribute.Legible (w : PageAttribute) : Prop where
  name : Tag.IsAttributeName w.name.toList
  text : ∀ text ∈ w.text, '"' ∉ text.toList

/-! ## Writing -/

namespace Render

/-- What an attribute becomes on a page; there is none for null and false. -/
def pageAttribute? (evaluate : Evaluator) (scope : Scope) (a : Attribute) :
    Except EvalError (Option PageAttribute) :=
  match a.value with
  | .bare => .ok (some ⟨a.name, none⟩)
  | .literal text =>
    (Interpolation.interpolate evaluate scope text).map fun s => some ⟨a.name, some (Html.attributeText s)⟩
  | .expression source =>
    (evaluate source scope).map fun v =>
      match v with
      | .null | .bool false => none
      | .bool true => some ⟨a.name, none⟩
      | v => some ⟨a.name, some (Html.escapeValue v)⟩

/-- What attributes become on a page, in order. -/
def pageAttributes (evaluate : Evaluator) (scope : Scope) :
    List Attribute → Except EvalError (List PageAttribute)
  | [] => .ok []
  | a :: more => do
    let attribute? ← pageAttribute? evaluate scope a
    let rest ← pageAttributes evaluate scope more
    .ok (attribute?.toList ++ rest)

variable {evaluate : Evaluator} {scope : Scope}

theorem attributeText_eq (a : Attribute) :
    attributeText evaluate scope a =
      (pageAttribute? evaluate scope a).map fun attribute? =>
        String.ofList (attribute?.toList.flatMap PageAttribute.spelled) := by
  have hvalued : ∀ text : String, " " ++ a.name ++ "=\"" ++ text ++ "\"" =
      String.ofList ((some (⟨a.name, some text⟩ : PageAttribute)).toList.flatMap PageAttribute.spelled) := by
    intro text
    rw [← String.toList_inj]
    simp [PageAttribute.spelled]
  have hbare : " " ++ a.name =
      String.ofList ((some (⟨a.name, none⟩ : PageAttribute)).toList.flatMap PageAttribute.spelled) := by
    rw [← String.toList_inj]
    simp [PageAttribute.spelled]
  unfold attributeText pageAttribute?
  cases a.value with
  | bare => exact congrArg Except.ok hbare
  | literal text =>
    dsimp only
    cases Interpolation.interpolate evaluate scope text with
    | error err => rfl
    | ok s => exact congrArg Except.ok (hvalued _)
  | expression source =>
    dsimp only
    cases evaluate source scope with
    | error err => rfl
    | ok v =>
      cases v with
      | null => rfl
      | bool b =>
        cases b with
        | false => rfl
        | true => exact congrArg Except.ok hbare
      | _ => exact congrArg Except.ok (hvalued _)

/-- Attributes are written as they are spelled on a page, one after the other. -/
theorem attributesText_eq (attributes : List Attribute) :
    attributesText evaluate scope attributes =
      (pageAttributes evaluate scope attributes).map fun written =>
        String.ofList (written.flatMap PageAttribute.spelled) := by
  induction attributes with
  | nil => rfl
  | cons a more ih =>
    rw [attributesText, pageAttributes, attributeText_eq, ih]
    cases pageAttribute? evaluate scope a with
    | error err => rfl
    | ok attribute? =>
      cases pageAttributes evaluate scope more with
      | error err => rfl
      | ok rest =>
        refine congrArg Except.ok ?_
        dsimp only
        rw [List.flatMap_append, String.ofList_append]

/-- What is on the page comes from an attribute, in order. -/
theorem mem_pageAttributes {attributes : List Attribute} {written : List PageAttribute}
    (h : pageAttributes evaluate scope attributes = .ok written) :
    ∀ w ∈ written, ∃ a ∈ attributes, pageAttribute? evaluate scope a = .ok (some w) := by
  induction attributes generalizing written with
  | nil =>
    obtain rfl := Except.ok.inj h
    exact fun _ hw => absurd hw List.not_mem_nil
  | cons a more ih =>
    rw [pageAttributes] at h
    cases ha : pageAttribute? evaluate scope a with
    | error err => rw [ha] at h; cases h
    | ok attribute? =>
      cases hmore : pageAttributes evaluate scope more with
      | error err => rw [ha, hmore] at h; cases h
      | ok rest =>
        rw [ha, hmore] at h
        obtain rfl := Except.ok.inj h
        intro w hw
        rcases List.mem_append.1 hw with hw | hw
        · obtain rfl := Option.mem_def.1 (Option.mem_toList.1 hw)
          exact ⟨a, List.mem_cons_self, ha⟩
        · obtain ⟨b, hb, hwritten⟩ := ih hmore w hw
          exact ⟨b, List.mem_cons_of_mem _ hb, hwritten⟩

/-- An attribute keeps its name, and its text is one for quotes, or that of the value of its expression. -/
theorem pageAttribute?_cases {a : Attribute} {w : PageAttribute}
    (h : pageAttribute? evaluate scope a = .ok (some w)) :
    w.name = a.name ∧ ∀ text ∈ w.text, (∃ s, text = Html.attributeText s) ∨
      ∃ source v, a.value = .expression source ∧ evaluate source scope = .ok v ∧
        text = Html.escapeValue v := by
  unfold pageAttribute? at h
  split at h
  · obtain rfl := Option.some.inj (Except.ok.inj h)
    exact ⟨rfl, fun _ htext => by cases htext⟩
  · next text _ =>
    cases hs : Interpolation.interpolate evaluate scope text with
    | error err => rw [hs] at h; cases h
    | ok s =>
      rw [hs] at h
      obtain rfl := Option.some.inj (Except.ok.inj h)
      exact ⟨rfl, fun _ htext => .inl ⟨s, (Option.some.inj htext).symm⟩⟩
  · next source hsource =>
    cases hv : evaluate source scope with
    | error err => rw [hv] at h; cases h
    | ok v =>
      rw [hv] at h
      have h := Except.ok.inj h
      dsimp only at h
      split at h
      · cases h
      · cases h
      · obtain rfl := Option.some.inj h
        exact ⟨rfl, fun _ htext => by cases htext⟩
      · obtain rfl := Option.some.inj h
        exact ⟨rfl, fun _ htext => .inr ⟨source, v, hsource, hv, (Option.some.inj htext).symm⟩⟩

theorem quote_not_mem_of_marks {s : String} (h : '"' ∉ marks s) : '"' ∉ s.toList :=
  fun hmem => h (List.mem_filter.2 ⟨hmem, rfl⟩)

/-- A text for quotes has no double quote, and an escaped value has none unless it is markup that has one. -/
theorem quote_not_mem_attributeText (s : String) : '"' ∉ (Html.attributeText s).toList := by
  refine quote_not_mem_of_marks fun hmem => ?_
  rw [Html.marks_attributeText] at hmem
  exact absurd rfl (bne_iff_ne.1 (List.mem_filter.1 hmem).2)

theorem quote_not_mem_escapeValue {v : Value} (h : ∀ m, v = .html m → '"' ∉ m.toList) :
    '"' ∉ (Html.escapeValue v).toList := by
  have hescape : ∀ s, '"' ∉ (Html.escape s).toList := fun s =>
    quote_not_mem_of_marks (by rw [Html.marks_escape]; exact List.not_mem_nil)
  cases v with
  | html m => exact h m rfl
  | _ => exact hescape _

end Render

/-! ## Reading back -/

namespace Cursor

/-- An attribute on a page: a name, and perhaps an equals sign and a text in quotes. -/
def pageAttribute? (c : Cursor) : Option (PageAttribute × Cursor) :=
  let (name, after) := c.attributeName
  if name.isEmpty then none
  else
    match after.consume? "=" with
    | none => some (⟨String.ofList name, none⟩, after)
    | some inside =>
      inside.quoted?.map fun ((text, _), after) =>
        (⟨String.ofList name, some (String.ofList text)⟩, after)

theorem left_of_pageAttribute? {c d : Cursor} {w : PageAttribute} (h : c.pageAttribute? = some (w, d)) :
    d.left < c.left := by
  have hleft := c.left_takeWhile_add isAttributeChar
  unfold pageAttribute? attributeName at h
  dsimp only at h
  split at h
  · cases h
  · next hname =>
    have hpos : 0 < (c.takeWhile isAttributeChar).1.length :=
      List.length_pos_iff.2 (by simpa using hname)
    split at h
    · obtain ⟨-, rfl⟩ := Prod.mk.inj (Option.some.inj h)
      omega
    · next inside hequals =>
      obtain ⟨⟨⟨text, s⟩, after⟩, hquoted, hfound⟩ := Option.map_eq_some_iff.1 h
      obtain ⟨-, rfl⟩ := Prod.mk.inj hfound
      have hinside := left_of_consume? hequals
      have hafter := left_of_quoted? hquoted
      dsimp only
      omega

/-- The attributes up to the end of an opening tag on a page, with blanks between them; there is no answer
    where something else stands. -/
def pageAttributes? (c : Cursor) : Option (List PageAttribute × Cursor) :=
  match c.skipBlanks.consume? ">" with
  | some after => some ([], after)
  | none =>
    match h : c.skipBlanks.pageAttribute? with
    | none => none
    | some (w, after) =>
      have : after.left < c.left :=
        Nat.lt_of_lt_of_le (left_of_pageAttribute? h) c.left_skipBlanks_le
      (pageAttributes? after).map fun (more, after) => (w :: more, after)
termination_by c.left

theorem pageAttributes?_of_end {c after : Cursor} (h : c.skipBlanks.consume? ">" = some after) :
    c.pageAttributes? = some ([], after) := by
  rw [pageAttributes?]
  split <;> simp_all

theorem pageAttributes?_of_attribute {c after : Cursor} {w : PageAttribute}
    (hend : c.skipBlanks.consume? ">" = none) (h : c.skipBlanks.pageAttribute? = some (w, after)) :
    c.pageAttributes? = after.pageAttributes?.map fun (more, after) => (w :: more, after) := by
  rw [pageAttributes?]
  split
  · simp_all
  · split <;> simp_all

/-- An opening tag on a page: its name and its attributes. -/
def pageTag? (c : Cursor) : Option (String × List PageAttribute × Cursor) := do
  let inside ← c.consume? "<"
  let (name, after) ← inside.tagName?
  let (attributes, after) ← after.pageAttributes?
  some (String.ofList name, attributes, after)

variable {p : Nat} {next : List Char} {w : PageAttribute}

/-- A text in double quotes is read to its end. -/
theorem quoted?_eq {text : List Char} (h : '"' ∉ text) (p : Nat) (next : List Char) :
    ∃ found q, quoted? ⟨p, '"' :: text ++ '"' :: next⟩ = some ((text, found), ⟨q, next⟩) := by
  have hsplit := Text.splitAtFirst_of_endsFirst (Text.endsFirst_singleton h) (List.cons_ne_nil _ _) next
  rw [List.append_assoc, List.singleton_append] at hsplit
  rw [quoted?, List.cons_append]
  dsimp only
  rw [if_pos (by decide), hsplit]
  exact ⟨_, _, rfl⟩

/-- An attribute that is spelled on a page, up to a blank or the end of the tag, is read as it is. -/
theorem pageAttribute?_eq (h : w.Legible) (hnext : next.head? = some ' ' ∨ next.head? = some '>') :
    ∃ q, pageAttribute? ⟨p, w.spelled.tail ++ next⟩ = some (w, ⟨q, next⟩) := by
  obtain ⟨name, text⟩ := w
  have hname : (name.toList.isEmpty) = false := by simpa using h.name.nonempty
  cases text with
  | none =>
    have hend : NotAhead isAttributeChar next := by
      intro c hc
      rcases hnext with hnext | hnext <;> obtain rfl := Option.some.inj (hnext.symm.trans hc) <;> rfl
    have hequals : consume? ⟨p + Text.byteLength name.toList, next⟩ "=" = none := by
      refine consume?_eq_none_of_head rfl ?_
      show next.head? ≠ some '='
      rcases hnext with hnext | hnext <;> rw [hnext] <;> decide
    rw [PageAttribute.spelled, List.tail_cons, pageAttribute?, attributeName,
      takeWhile_eq h.name.chars hend]
    simp [hname, hequals]
  | some text =>
    obtain ⟨s, q, hquoted⟩ := quoted?_eq (h.text text rfl) (p + Text.byteLength name.toList + 1) next
    have hend : NotAhead isAttributeChar ('=' :: '"' :: text.toList ++ '"' :: next) := by
      intro c hc
      obtain rfl := Option.some.inj hc
      rfl
    have hequals : consume? ⟨p + Text.byteLength name.toList, '=' :: '"' :: text.toList ++ '"' :: next⟩ "=" =
        some ⟨p + Text.byteLength name.toList + 1, '"' :: text.toList ++ '"' :: next⟩ := rfl
    have hspelled : (PageAttribute.spelled ⟨name, some text⟩).tail ++ next =
        name.toList ++ ('=' :: '"' :: text.toList ++ '"' :: next) := by
      simp [PageAttribute.spelled]
    rw [hspelled, pageAttribute?, attributeName, takeWhile_eq h.name.chars hend]
    simp only [hname, hequals, hquoted]
    exact ⟨q, by simp⟩

theorem spelled_eq (w : PageAttribute) : w.spelled = ' ' :: w.spelled.tail := by
  obtain ⟨name, _ | text⟩ := w <;> rfl

/-- What is spelled begins with a name. -/
theorem tail_spelled_eq {w : PageAttribute} (h : w.Legible) :
    ∃ c cs, w.spelled.tail = c :: cs ∧ isAttributeChar c = true := by
  have hfirst : ∃ cs, w.spelled.tail = w.name.toList ++ cs := by
    obtain ⟨name, _ | text⟩ := w
    · exact ⟨[], (List.append_nil _).symm⟩
    · exact ⟨'=' :: '"' :: text.toList ++ ['"'], by simp [PageAttribute.spelled]⟩
  obtain ⟨cs, hcs⟩ := hfirst
  obtain ⟨c, name, hname⟩ := List.exists_cons_of_ne_nil h.name.nonempty
  exact ⟨c, name ++ cs, by rw [hcs, hname]; rfl, h.name.chars c (hname ▸ List.mem_cons_self)⟩

/-- No mark comes next where the name is. -/
theorem consume?_tail_spelled (h : w.Legible) {mark : String} {d : Char} (hmark : mark.toList.head? = some d)
    (hd : d ∈ tagMarks) (p : Nat) (next : List Char) : consume? ⟨p, w.spelled.tail ++ next⟩ mark = none := by
  obtain ⟨c, cs, htail, hchar⟩ := tail_spelled_eq h
  refine consume?_eq_none_of_head hmark fun heq => (not_mark_of_isAttributeChar hchar).2 ?_
  rw [htail] at heq
  obtain rfl := Option.some.inj heq
  exact hd

/-- Attributes that are spelled on a page, up to the end of the tag. -/
def attributesOnPage (written : List PageAttribute) (next : List Char) : List Char :=
  written.flatMap PageAttribute.spelled ++ '>' :: next

variable {written : List PageAttribute}

theorem attributesOnPage_cons (w : PageAttribute) :
    attributesOnPage (w :: written) next = w.spelled ++ attributesOnPage written next := by
  rw [attributesOnPage, List.flatMap_cons, List.append_assoc]
  rfl

/-- A blank or the end of the tag comes next. -/
theorem head?_attributesOnPage (written : List PageAttribute) (next : List Char) :
    (attributesOnPage written next).head? = some ' ' ∨ (attributesOnPage written next).head? = some '>' := by
  cases written with
  | nil => exact .inr rfl
  | cons w written =>
    rw [attributesOnPage_cons, spelled_eq]
    exact .inl rfl

theorem notAhead_attributesOnPage (p : Char → Bool) (hblank : p ' ' = false) (hend : p '>' = false) :
    NotAhead p (attributesOnPage written next) := by
  intro c hc
  rcases head?_attributesOnPage written next with hhead | hhead <;>
    obtain rfl := Option.some.inj (hhead.symm.trans hc)
  · exact hblank
  · exact hend

/-- Behind the blank comes the name of the next attribute. -/
theorem skipBlanks_attributesOnPage (h : w.Legible) (p : Nat) :
    skipBlanks ⟨p, attributesOnPage (w :: written) next⟩ =
      ⟨p + 1, w.spelled.tail ++ attributesOnPage written next⟩ := by
  obtain ⟨c, cs, htail, hchar⟩ := tail_spelled_eq h
  rw [attributesOnPage_cons, spelled_eq]
  refine skipBlanks_cons (fun d hd => ?_) p
  rw [htail] at hd
  obtain rfl := Option.some.inj hd
  exact (not_mark_of_isAttributeChar hchar).1

/-- Attributes that are spelled on a page, one after the other, are read as they are up to the end of the
    tag. -/
theorem pageAttributes?_eq (h : ∀ w ∈ written, w.Legible) (p : Nat) (next : List Char) :
    ∃ q, pageAttributes? ⟨p, attributesOnPage written next⟩ = some (written, ⟨q, next⟩) := by
  induction written generalizing p with
  | nil =>
    have hskip : skipBlanks ⟨p, '>' :: next⟩ = ⟨p, '>' :: next⟩ := rfl
    exact ⟨p + 1, pageAttributes?_of_end (congrArg (consume? · ">") hskip)⟩
  | cons w written ih =>
    obtain ⟨hw, hwritten⟩ := List.forall_mem_cons.1 h
    obtain ⟨q, hattribute⟩ := pageAttribute?_eq (p := p + 1) hw (head?_attributesOnPage written next)
    obtain ⟨q', hmore⟩ := ih hwritten q
    have hend : consume? ⟨p + 1, w.spelled.tail ++ attributesOnPage written next⟩ ">" = none :=
      consume?_tail_spelled hw rfl (by decide) (p + 1) _
    rw [← skipBlanks_attributesOnPage hw] at hend hattribute
    refine ⟨q', ?_⟩
    rw [pageAttributes?_of_attribute hend hattribute, hmore]
    rfl

/-- An opening tag that is spelled on a page is read as it is. -/
theorem pageTag?_eq {name : String} (hname : Tag.IsTagName name.toList) (h : ∀ w ∈ written, w.Legible)
    (p : Nat) (next : List Char) :
    ∃ q, pageTag? ⟨p, '<' :: name.toList ++ attributesOnPage written next⟩ =
      some (name, written, ⟨q, next⟩) := by
  have hbracket : consume? ⟨p, '<' :: name.toList ++ attributesOnPage written next⟩ "<" =
      some ⟨p + 1, name.toList ++ attributesOnPage written next⟩ := rfl
  have hend : NotAhead isTagChar (attributesOnPage written next) := notAhead_attributesOnPage _ rfl rfl
  have htag := hname.tagName?_eq (c := ⟨p + 1, _⟩) rfl hend
  obtain ⟨q, hattributes⟩ := pageAttributes?_eq h (p + 1 + Text.byteLength name.toList) next
  refine ⟨q, ?_⟩
  rw [pageTag?, hbracket]
  simp [htag, hattributes]

end Cursor

/-! ## Opening tags of templates -/

namespace Render

/-- An opening tag that is written is read back as the name of the tag and the attributes that were written,
    with their texts, up to what comes after the tag. -/
theorem pageTag?_openingText {o : Dialect} {source : String} {t : Template}
    (ht : Template.compile o source = .ok t) {ns : List Node} (hns : ns ∈ t.siblingLists) {n : Node}
    (hn : n ∈ ns) {tag : Tag} (htag : n.tag? = some tag) {evaluate : Evaluator} {scope : Scope}
    (hnamed : ∀ a ∈ tag.attributes, a.name ≠ "")
    (hquotes : ∀ a ∈ tag.attributes, ∀ expression m, a.value = .expression expression →
      evaluate expression scope = .ok (.html m) → '"' ∉ m.toList)
    {text : String} (h : openingText evaluate scope tag = .ok text) (p : Nat) (next : List Char) :
    ∃ written q, pageAttributes evaluate scope tag.attributes = .ok written ∧
      (∀ w ∈ written, w.name ≠ "") ∧
      Cursor.pageTag? ⟨p, text.toList ++ next⟩ = some (tag.name, written, ⟨q, next⟩) := by
  have hread := Template.writtenIn_of_compile ht ns hns n hn tag htag
  rw [openingText, attributesText_eq] at h
  cases hwritten : pageAttributes evaluate scope tag.attributes with
  | error err => rw [hwritten] at h; cases h
  | ok written =>
    rw [hwritten] at h
    obtain rfl := Except.ok.inj h
    have hlegible : ∀ w ∈ written, w.Legible := by
      intro w hw
      obtain ⟨a, ha, hattribute⟩ := mem_pageAttributes hwritten w hw
      obtain ⟨hname, htext⟩ := pageAttribute?_cases hattribute
      refine ⟨⟨?_, hname ▸ hread.isAttributeChar a ha⟩, fun text hmem => ?_⟩
      · rw [hname]
        simpa using hnamed a ha
      · rcases htext text hmem with ⟨s, rfl⟩ | ⟨expression, v, hvalue, hv, rfl⟩
        · exact quote_not_mem_attributeText s
        · exact quote_not_mem_escapeValue fun m hm => hquotes a ha expression m hvalue (hm ▸ hv)
    obtain ⟨q, hq⟩ := Cursor.pageTag?_eq hread.name hlegible p next
    refine ⟨written, q, rfl, fun w hw hempty => ?_, ?_⟩
    · exact (hlegible w hw).name.nonempty (by rw [hempty]; rfl)
    · rw [← hq]
      simp [Cursor.attributesOnPage]

/-- The tag of a template that is one tag. -/
def loneTag? (t : Template) : Option Tag :=
  match t.children with
  | [n] => n.tag?
  | _ => none

theorem exists_loneTag (o : Dialect) (source : String) {tag : Tag}
    (h : (Template.compile o source).toOption.bind loneTag? = some tag) :
    ∃ t, Template.compile o source = .ok t ∧ ∃ ns ∈ t.siblingLists, ∃ n ∈ ns, n.tag? = some tag := by
  obtain ⟨t, ht, htag⟩ := Option.bind_eq_some_iff.1 h
  refine ⟨t, toOption_eq_some_iff.1 ht, t.children, Siblings.mem_lists_self _, ?_⟩
  unfold loneTag? at htag
  split at htag
  · next n hn => exact ⟨n, by rw [hn]; exact List.mem_cons_self, htag⟩
  · cases htag

/-- A text with a quote as the value of an expression, a quote between single quotes, and a bare name. -/
theorem pageTag?_openingText_quotes :
    let tag : Tag := ⟨"a", [⟨"t", .expression "$h", ⟨3, 10⟩⟩, ⟨"b", .literal "\"", ⟨11, 16⟩⟩,
      ⟨"c", .bare, ⟨17, 18⟩⟩], {}, ⟨1, 2⟩, {}⟩
    let scope := Scope.root [("h", .text "\" x=\"y")]
    (∃ t, Template.compile {} "<a :t=\"$h\" b='\"' c></a>" = .ok t ∧
      ∃ ns ∈ t.siblingLists, ∃ n ∈ ns, n.tag? = some tag) ∧
      openingText Functions.builtin.evaluator scope tag =
        .ok "<a t=\"&quot; x=&quot;y\" b=\"&quot;\" c>" ∧
      ∀ next, ∃ written q, pageAttributes Functions.builtin.evaluator scope tag.attributes = .ok written ∧
        (∀ w ∈ written, w.name ≠ "") ∧
        Cursor.pageTag? ⟨0, "<a t=\"&quot; x=&quot;y\" b=\"&quot;\" c>".toList ++ next⟩ =
          some ("a", written, ⟨q, next⟩) := by
  intro tag scope
  have htag := exists_loneTag {} "<a :t=\"$h\" b='\"' c></a>" (show _ = some tag by decide +kernel)
  have htext : openingText Functions.builtin.evaluator scope tag =
      .ok "<a t=\"&quot; x=&quot;y\" b=\"&quot;\" c>" := by
    have hanswer : (openingText Functions.builtin.evaluator scope tag).toOption =
        some "<a t=\"&quot; x=&quot;y\" b=\"&quot;\" c>" := by decide +kernel
    cases h : openingText Functions.builtin.evaluator scope tag with
    | error err => rw [h] at hanswer; cases hanswer
    | ok text => rw [h] at hanswer; exact congrArg Except.ok (Option.some.inj hanswer)
  refine ⟨htag, htext, fun next => ?_⟩
  obtain ⟨t, ht, ns, hns, n, hn, htag⟩ := htag
  refine pageTag?_openingText ht hns hn htag (by decide) (fun a ha expression m hvalue hm => ?_) htext 0 next
  -- only one attribute is an expression, and its value is a text
  have hexpression : expression = "$h" := by
    rcases List.mem_cons.1 ha with rfl | ha
    · exact (AttributeValue.expression.inj hvalue).symm
    · rcases List.mem_cons.1 ha with rfl | ha
      · cases hvalue
      · obtain rfl := List.mem_singleton.1 ha
        cases hvalue
  have hplain : (Functions.builtin.evaluator "$h" scope).toOption.any Value.isHtml = false := by
    decide +kernel
  rw [← hexpression, hm] at hplain
  cases hplain

/-- A piece of markup with a quote in it ends its attribute early, and what is behind the quote is read as
    another attribute. -/
theorem pageTag?_openingText_html :
    let tag : Tag := ⟨"a", [⟨"t", .expression "$h", ⟨3, 10⟩⟩], {}, ⟨1, 2⟩, {}⟩
    let scope := Scope.root [("h", .html "\" x=\"y")]
    (∃ t, Template.compile {} "<a :t=\"$h\"></a>" = .ok t ∧
      ∃ ns ∈ t.siblingLists, ∃ n ∈ ns, n.tag? = some tag) ∧
      ∃ text written, openingText Functions.builtin.evaluator scope tag = .ok text ∧
        pageAttributes Functions.builtin.evaluator scope tag.attributes = .ok written ∧
        ∀ next q, Cursor.pageTag? ⟨0, text.toList ++ next⟩ ≠ some ("a", written, ⟨q, next⟩) := by
  intro tag scope
  have htag := exists_loneTag {} "<a :t=\"$h\"></a>" (show _ = some tag by decide +kernel)
  have hanswer : (openingText Functions.builtin.evaluator scope tag).toOption =
      some "<a t=\"\" x=\"y\">" := by decide +kernel
  have hpage : (pageAttributes Functions.builtin.evaluator scope tag.attributes).toOption =
      some [⟨"t", some "\" x=\"y"⟩] := by decide +kernel
  cases htext : openingText Functions.builtin.evaluator scope tag with
  | error err => rw [htext] at hanswer; cases hanswer
  | ok text =>
    rw [htext] at hanswer
    obtain rfl := Option.some.inj hanswer
    cases hwritten : pageAttributes Functions.builtin.evaluator scope tag.attributes with
    | error err => rw [hwritten] at hpage; cases hpage
    | ok written =>
      rw [hwritten] at hpage
      obtain rfl := Option.some.inj hpage
      refine ⟨htag, _, _, rfl, rfl, fun next q hread => ?_⟩
      have hname : Tag.IsTagName "a".toList := ⟨⟨'a', [], rfl, rfl⟩, List.forall_mem_singleton.2 rfl⟩
      have hlegible : ∀ w ∈ [(⟨"t", some ""⟩ : PageAttribute), ⟨"x", some "y"⟩], w.Legible := by
        intro w hw
        rcases List.mem_cons.1 hw with rfl | hw
        · exact ⟨⟨by decide, List.forall_mem_singleton.2 rfl⟩, fun text htext => by cases htext; decide⟩
        · obtain rfl := List.mem_singleton.1 hw
          exact ⟨⟨by decide, List.forall_mem_singleton.2 rfl⟩, fun text htext => by cases htext; decide⟩
      obtain ⟨q', hsplit⟩ := Cursor.pageTag?_eq hname hlegible 0 next
      obtain ⟨-, hattributes⟩ := Prod.mk.inj (Option.some.inj (hsplit.symm.trans hread))
      exact absurd (Prod.mk.inj hattributes).1 (by decide)

-- An expression that was written without a name leaves a text in quotes without one.
example :
    (openingText Functions.builtin.evaluator (Scope.root [])
      ⟨"a", [⟨"", .expression "1", ⟨3, 7⟩⟩], {}, ⟨1, 2⟩, {}⟩).toOption = some "<a =\"1\">" ∧
      (Cursor.pageTag? ⟨0, "<a =\"1\">".toList⟩).isNone := by decide +kernel

end Render

end Stencil
