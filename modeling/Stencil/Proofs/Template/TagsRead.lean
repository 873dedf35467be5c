import Stencil.Proofs.Template.TagsPlaced
/-
  What the tags of a template were read from.

  Every tag of a template has a name of a tag, and attributes that were written with names and values taken
  from the source.  The attributes it keeps are these, less the directives, some with a colon or two
  less in front; so only an attribute whose value is an expression can have lost its whole name.
-/

namespace Stencil

open Cursor (isAttributeChar)

/-! ## Attributes -/

/-- An attribute has a name, and its value stands in a text. -/
structure WrittenAttribute.StandsIn (source : List Char) (a : WrittenAttribute) : Prop where
  name : Tag.IsAttributeName a.name.toList
  value : ∀ value ∈ a.value, value.toList <:+: source

namespace Tag

theorem ValueText.isInfix {next text : List Char} {value : String} (h : ValueText next text value) :
    value.toList <:+: text := by
  cases h with
  | @quoted value quote =>
    rw [String.toList_ofList]
    exact ⟨[quote], [quote], rfl⟩
  | unquoted => rw [String.toList_ofList]

theorem AttributeText.standsIn {next text : List Char} {name : String} {value : Option String} {s : Span}
    (h : AttributeText next text name value) : WrittenAttribute.StandsIn text ⟨name, value, s⟩ := by
  cases h with
  | bare hname =>
    refine ⟨?_, fun _ hvalue => by cases hvalue⟩
    rwa [String.toList_ofList]
  | valued hname _ _ hvalue =>
    refine ⟨?_, fun _ hmem => ?_⟩
    · rwa [String.toList_ofList]
    · obtain rfl := Option.some.inj hmem
      exact hvalue.isInfix.trans (List.suffix_append_of_suffix List.suffix_rfl).isInfix

theorem standsIn_mono {w source : List Char} {a : WrittenAttribute} (h : a.StandsIn w)
    (hw : w <:+: source) : a.StandsIn source :=
  ⟨h.name, fun value hvalue => (h.value value hvalue).trans hw⟩

/-- The attributes of a tag stand in its text. -/
theorem AttributesText.standsIn {start : Nat} {w : List Char} {written : List WrittenAttribute} {b : Bool}
    (h : AttributesText start w written b) : ∀ a ∈ written, a.StandsIn w := by
  induction h with
  | close => exact fun _ ha => absurd ha List.not_mem_nil
  | closeSelf => exact fun _ ha => absurd ha List.not_mem_nil
  | blank _ _ ih => exact fun a ha => standsIn_mono (ih a ha) (List.suffix_cons _ _).isInfix
  | slash _ _ ih => exact fun a ha => standsIn_mono (ih a ha) (List.suffix_cons _ _).isInfix
  | more htext _ ih =>
    refine List.forall_mem_cons.2 ⟨?_, fun a ha => ?_⟩
    · exact standsIn_mono htext.standsIn (List.prefix_append _ _).isInfix
    · exact standsIn_mono (ih a ha) (List.suffix_append _ _).isInfix

/-! ## Sorting -/

/-- An attribute is kept as another one: as it was written, with one colon less of two, or as an expression
    with the colon in front left out. -/
inductive Kept (w : WrittenAttribute) : Attribute → Prop where
  | literal (hname : w.name.toList.head? ≠ some ':') : Kept w ⟨w.name, literalValue w.value, w.span⟩
  | colon {name : List Char} (hname : w.name.toList = ':' :: ':' :: name) :
      Kept w ⟨String.ofList (':' :: name), literalValue w.value, w.span⟩
  | expression {name : List Char} {value : String} (hname : w.name.toList = ':' :: name)
      (hvalue : w.value = some value) : Kept w ⟨String.ofList name, .expression value, w.span⟩

theorem KeptAs.kept {w : WrittenAttribute} {a : Attribute} (h : KeptAs w a) : Kept w a := by
  cases h with
  | escaped hname => exact .colon hname
  | computed hname _ hvalue => exact .expression hname hvalue
  | plain hname => exact .literal hname

/-- The attributes that are kept are some of those written, in order; without directives they are all. -/
theorem kept_of_sort {written : List WrittenAttribute} {attributes : List Attribute} {d : Directives}
    (h : sort written = .ok (attributes, d)) :
    ∃ kept, kept.Sublist written ∧ List.Forall₂ Kept kept attributes ∧ (d = {} → kept = written) := by
  have hsorts := sortsInto_of_sort h
  refine ⟨undirected written, List.filter_sublist, hsorts.kept.imp fun _ _ => KeptAs.kept, ?_⟩
  rintro rfl
  refine List.filter_eq_self.2 fun a ha => ?_
  obtain ⟨i, hi⟩ := List.mem_iff_getElem?.1 ha
  rw [decide_eq_true_eq, List.mem_append, not_or]
  refine ⟨fun hmem => ?_, fun hmem => ?_⟩
  · obtain ⟨c, hc, -⟩ := hsorts.conditional i a hi hmem
    cases hc
  · obtain ⟨l, hl, -⟩ := hsorts.looping i a hi hmem
    cases hl

/-- Every attribute that is kept was written. -/
theorem exists_kept_of_sort {written : List WrittenAttribute} {attributes : List Attribute} {d : Directives}
    (h : sort written = .ok (attributes, d)) : ∀ a ∈ attributes, ∃ w ∈ written, Kept w a := by
  obtain ⟨kept, hsublist, hkept, -⟩ := kept_of_sort h
  have hmem : ∀ a ∈ attributes, ∃ w ∈ kept, Kept w a := by
    clear h hsublist
    induction hkept with
    | nil => exact fun _ ha => absurd ha List.not_mem_nil
    | @cons w a kept attributes hw _ ih =>
      refine List.forall_mem_cons.2 ⟨⟨w, List.mem_cons_self, hw⟩, fun b hb => ?_⟩
      obtain ⟨v, hv, hvb⟩ := ih b hb
      exact ⟨v, List.mem_cons_of_mem _ hv, hvb⟩
  intro a ha
  obtain ⟨w, hw, hwa⟩ := hmem a ha
  exact ⟨w, hsublist.subset hw, hwa⟩

/-- What is kept of a name is the end of it. -/
theorem Kept.suffix {w : WrittenAttribute} {a : Attribute} (h : Kept w a) :
    a.name.toList <:+ w.name.toList := by
  cases h with
  | literal => exact List.suffix_rfl
  | colon hname =>
    rw [hname, String.toList_ofList]
    exact List.suffix_cons _ _
  | expression hname =>
    rw [hname, String.toList_ofList]
    exact List.suffix_cons _ _

/-- A tag has a name of a tag, and its attributes were written with names and values in a text. -/
structure WrittenIn (source : List Char) (tag : Tag) : Prop where
  name : IsTagName tag.name.toList
  attributes : ∃ written, sort written = .ok (tag.attributes, tag.directives) ∧
    ∀ w ∈ written, w.StandsIn source

/-- The names of attributes that a tag keeps consist of characters of such names. -/
theorem WrittenIn.isAttributeChar {source : List Char} {tag : Tag} (h : tag.WrittenIn source) :
    ∀ a ∈ tag.attributes, ∀ c ∈ a.name.toList, isAttributeChar c = true := by
  obtain ⟨written, hsort, hstands⟩ := h.attributes
  intro a ha c hc
  obtain ⟨w, hw, hwa⟩ := exists_kept_of_sort hsort a ha
  exact (hstands w hw).name.chars c (hwa.suffix.subset hc)

theorem WrittenIn.withLinks {source : List Char} {tag : Tag} (h : tag.WrittenIn source) (links : Links) :
    WrittenIn source { tag with links := links } := ⟨h.name, h.attributes⟩

theorem writtenIn_mono {w source : List Char} {tag : Tag} (h : tag.WrittenIn w) (hw : w <:+: source) :
    tag.WrittenIn source := by
  obtain ⟨written, hsort, hstands⟩ := h.attributes
  exact ⟨h.name, written, hsort, fun a ha => standsIn_mono (hstands a ha) hw⟩

end Tag

/-- If a node has a tag, the tag was written in a text. -/
def Node.WrittenIn (source : List Char) (n : Node) : Prop := ∀ tag ∈ n.tag?, tag.WrittenIn source

namespace Template

theorem suffix_of_reads {c d : Cursor} {w : List Char} (h : c.Reads w d) : d.rest <:+ c.rest :=
  ⟨w, h.rest_eq.symm⟩

theorem suffix_of_readClosing {tag : String} {c d : Cursor} (h : readClosing tag c = .ok d) :
    d.rest <:+ c.rest := by
  obtain ⟨w, hw⟩ := reads_of_readClosing h
  exact suffix_of_reads hw

/-- The tag of an opening tag that is read was written in the text from there on. -/
theorem writtenIn_of_readOpening {c d : Cursor} {opening : Opening} (hahead : openingAhead c.rest = true)
    (h : readOpening c = .ok (opening, d)) : opening.tag.WrittenIn c.rest ∧ d.rest <:+ c.rest := by
  obtain ⟨more, written, hreads, hname, -, hwritten, hsort, -⟩ := written_of_readOpening hahead h
  refine ⟨⟨hname, written, hsort, fun a ha => Tag.standsIn_mono (hwritten.standsIn a ha) ?_⟩,
    suffix_of_reads hreads⟩
  rw [hreads.rest_eq]
  exact ⟨'<' :: opening.tag.name.toList, d.rest, rfl⟩

theorem writtenIn_of_on {source : String} {c d : Cursor} {opening : Opening} (hon : c.On source)
    (hahead : openingAhead c.rest = true) (h : readOpening c = .ok (opening, d)) :
    opening.tag.WrittenIn source.toList := by
  obtain ⟨before, hsource, -⟩ := hon
  exact Tag.writtenIn_mono (writtenIn_of_readOpening hahead h).1 ⟨before, [], by rw [hsource, List.append_nil]⟩

end Template

/-- All tags of a compiled template were written in its source: they have names of tags, and attributes with
    names and values from the source, some of which they keep. -/
theorem Template.writtenIn_of_compile {o : Dialect} {source : String} {t : Template}
    (h : compile o source = .ok t) : ∀ ns ∈ t.siblingLists, ∀ n ∈ ns, n.WrittenIn source.toList := by
  obtain ⟨parsed, hparsed, hlink⟩ := Reader.bind_eq_ok h
  exact tagHolds_of_link (P := fun _ tag => tag.WrittenIn source.toList) (fun links htag => htag.withLinks links)
    hlink (tagHolds_of_parse writtenIn_of_on hparsed)

end Stencil
