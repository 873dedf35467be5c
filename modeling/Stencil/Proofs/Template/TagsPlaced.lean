import Stencil.Proofs.Template.ChainPlaces
import Stencil.Proofs.Template.Lossless
import Stencil.Proofs.Template.Sorting
/-
  Where the tags of a template stand, and what was written on them.

  Whatever holds of every opening tag that is read, at the place where it is read, holds of all tags of a
  template: the invariant of the reader carries it for the nodes made so far and for the elements that are
  open, and linking changes nothing about tags but their links.

  Of an opening tag it holds that the source has it there, with attributes that were sorted into those the
  tag keeps and its directives.
-/

namespace Stencil

/-- If a node has a tag, something holds of the place where the node begins and of the tag. -/
def Node.TagHolds (P : Nat → Tag → Prop) (n : Node) : Prop := ∀ tag ∈ n.tag?, P n.span.start tag

theorem Node.tagHolds_of_tag?_eq_none {P : Nat → Tag → Prop} {n : Node} (h : n.tag? = none) :
    n.TagHolds P := by
  intro tag htag
  rw [h] at htag
  cases htag

/-! ## Reading -/

namespace Template

theorem reads_consume?_getD (c : Cursor) (mark : String) : ∃ w, c.Reads w ((c.consume? mark).getD c) := by
  cases h : c.consume? mark with
  | none => exact ⟨[], rfl, rfl⟩
  | some d => exact ⟨_, Cursor.reads_of_consume? h⟩

theorem reads_tagName?_getD (c : Cursor) :
    c.Reads ((c.tagName?).getD ([], c)).1 ((c.tagName?).getD ([], c)).2 := by
  unfold Cursor.tagName?
  split
  · exact c.reads_takeWhile _
  · exact ⟨rfl, rfl⟩

/-- What the name in a closing tag was read from. -/
theorem reads_closingName (c : Cursor) : ∃ w, c.Reads w (closingName c).2 := by
  obtain ⟨v, hv⟩ := reads_consume?_getD c "</"
  exact ⟨_, hv.trans (reads_tagName?_getD ((c.consume? "</").getD c))⟩

theorem reads_of_readClosing {tag : String} {c d : Cursor} (h : readClosing tag c = .ok d) :
    ∃ w, c.Reads w d := by
  obtain ⟨w, hw⟩ := reads_closingName c
  unfold readClosing at h
  dsimp only at h
  split at h
  · next after hend =>
    obtain rfl := Except.ok.inj h
    exact ⟨_, hw.trans ((Cursor.reads_skipBlanks _).trans (Cursor.reads_of_consume? hend))⟩
  · cases h

namespace Reader

open Siblings (Throughout)

variable {o : Dialect} {source : String} {P : Nat → Tag → Prop}

/-- Something holds of the tags of all nodes made so far, and of the elements that are open. -/
structure TagsHold (P : Nat → Tag → Prop) (source : String) (r : Reader) : Prop where
  on : r.cursor.On source
  siblings : ∀ n ∈ r.siblings, Throughout (Node.TagHolds P) n
  opened : ∀ level ∈ r.opened, P level.1.start level.1.tag ∧
    ∀ n ∈ level.2, Throughout (Node.TagHolds P) n

/-- The node of a tag has that tag, if any, and holds nothing but the nodes it was made from. -/
theorem throughout_of_tagNode {opening : Opening} {children : List Node} {stop : Nat} {n : Node}
    (h : tagNode o opening children stop = .ok n) (htag : P opening.start opening.tag)
    (hchildren : ∀ m ∈ children, Throughout (Node.TagHolds P) m) : Throughout (Node.TagHolds P) n := by
  have hself : ∀ m : Node, m.tag? = some opening.tag → m.span.start = opening.start → m.TagHolds P := by
    intro m hm hstart tag hmem
    obtain rfl := Option.some.inj (hm.symm.trans hmem)
    rw [hstart]
    exact htag
  unfold tagNode at h
  dsimp only at h
  split at h
  · unfold slotNode at h
    split at h
    · cases h
    · cases hname : slotName opening.tag.attributes with
      | error err => rw [hname] at h; cases h
      | ok name =>
        rw [hname] at h
        cases h
        exact Siblings.throughout_slot.2 ⟨Node.tagHolds_of_tag?_eq_none rfl, hchildren⟩
  · split at h <;> cases h
    · exact Siblings.throughout_component.2 ⟨hself _ rfl rfl, throughout_liftSlots hchildren⟩
    · exact Siblings.throughout_element.2 ⟨hself _ rfl rfl, hchildren⟩

/-- A node without a tag, and with nothing inside, is the next one. -/
theorem TagsHold.leaf {r : Reader} (h : TagsHold P source r) {d : Cursor} {w : List Char} {n : Node}
    (hreads : r.cursor.Reads w d) (htag : n.tag? = none) (hinside : Siblings.inside n = []) :
    TagsHold P source ⟨d, n :: r.siblings, r.opened⟩ := by
  refine ⟨h.on.of_reads hreads, ?_, h.opened⟩
  refine List.forall_mem_cons.2 ⟨⟨Node.tagHolds_of_tag?_eq_none htag, ?_⟩, h.siblings⟩
  rw [hinside]
  exact fun _ hl => absurd hl List.not_mem_nil

/-- What stands between two marks has no tag, and nothing inside. -/
theorem leaf_of_formAt {rawText : Bool} {c : Cursor} {opening closing : String}
    {make : List Char → Span → Node} (h : formAt rawText c = .between opening closing make)
    (content : List Char) (s : Span) :
    (make content s).tag? = none ∧ Siblings.inside (make content s) = [] := by
  cases beginsAt_of_formAt h <;> exact ⟨rfl, rfl⟩

section

-- what is to hold of every opening tag where it is read
variable (hopening : ∀ {c d : Cursor} {opening : Opening}, c.On source → openingAhead c.rest = true →
  readOpening c = .ok (opening, d) → P opening.start opening.tag)

include hopening

theorem tagsHold_of_openTag {r r' : Reader} (hr : TagsHold P source r)
    (hahead : openingAhead r.cursor.rest = true) (h : openTag o r = .ok r') : TagsHold P source r' := by
  obtain ⟨opening, after, hread, hcases⟩ := openTag_cases h
  obtain ⟨more, hreads, -⟩ := openingText_of_readOpening hahead hread
  have hon := hr.on.of_reads hreads
  have htag := hopening hr.on hahead hread
  rcases hcases with ⟨-, -, rfl⟩ | ⟨-, n, hn, rfl⟩
  · exact ⟨hon, fun _ hn => absurd hn List.not_mem_nil,
      List.forall_mem_cons.2 ⟨⟨htag, hr.siblings⟩, hr.opened⟩⟩
  · have hn := throughout_of_tagNode hn htag fun _ hm => absurd hm List.not_mem_nil
    exact ⟨hon, List.forall_mem_cons.2 ⟨hn, hr.siblings⟩, hr.opened⟩

omit hopening in
theorem tagsHold_of_closeTag {r r' : Reader} {opening : Opening} {before : List Node}
    {outer : List (Opening × List Node)} (hr : TagsHold P source r)
    (hopened : r.opened = (opening, before) :: outer) (h : closeTag o r opening before outer = .ok r') :
    TagsHold P source r' := by
  obtain ⟨after, n, hclosing, hn, rfl⟩ := closeTag_eq_ok h
  obtain ⟨w, hreads⟩ := reads_of_readClosing hclosing
  obtain ⟨⟨htag, hbefore⟩, houter⟩ := List.forall_mem_cons.1 (hopened ▸ hr.opened)
  have hn := throughout_of_tagNode hn htag fun m hm => hr.siblings m (List.mem_reverse.1 hm)
  exact ⟨hr.on.of_reads hreads, List.forall_mem_cons.2 ⟨hn, hbefore⟩, houter⟩

/-- Every step keeps the invariant. -/
theorem tagsHold_of_step {r r' : Reader} (hr : TagsHold P source r) (h : step o r = .ok (.next r')) :
    TagsHold P source r' := by
  obtain ⟨hne, ⟨opening, before, outer, hopened, -, -, h⟩ | h⟩ := step_next_cases h
  · exact tagsHold_of_closeTag hr hopened h
  · rcases readNode_cases h with ⟨opening, closing, make, n, d, hform, hn, rfl⟩ | ⟨n, d, htext, rfl⟩ |
      ⟨hform, h⟩
    · obtain ⟨content, hreads, -, rfl⟩ := reads_of_readBetween hn
      obtain ⟨htag, hinside⟩ := leaf_of_formAt hform content ⟨r.cursor.position, d.position⟩
      exact hr.leaf hreads htag hinside
    · obtain ⟨content, -, hreads, hn⟩ := reads_of_readText r.inRawText hne
      rw [htext] at hreads hn
      dsimp only at hn
      subst hn
      exact hr.leaf hreads rfl rfl
    · exact tagsHold_of_openTag hopening hr (openingAhead_of_formAt hform) h

end

theorem tagsHold_start : TagsHold P source ⟨Cursor.start source, [], []⟩ :=
  ⟨Cursor.on_start source, fun _ hn => absurd hn List.not_mem_nil, fun _ hl => absurd hl List.not_mem_nil⟩

end Reader

/-- What holds of every opening tag where it is read holds of all tags of a template. -/
theorem tagHolds_of_parse {o : Dialect} {source : String} {t : Template} {P : Nat → Tag → Prop}
    (hopening : ∀ {c d : Cursor} {opening : Opening}, c.On source → openingAhead c.rest = true →
      readOpening c = .ok (opening, d) → P opening.start opening.tag)
    (h : parse o source = .ok t) : ∀ ns ∈ t.siblingLists, ∀ n ∈ ns, n.TagHolds P := by
  obtain ⟨last, hlast, -, -, hnodes⟩ :=
    Reader.run_invariant (Reader.tagsHold_of_step hopening) Reader.tagsHold_start (parse_eq_ok h)
  rw [siblingLists, ← hnodes]
  exact Siblings.forall_mem_lists.2 fun n hn => hlast.siblings n (List.mem_reverse.1 hn)

end Template

/-! ## Linking -/

/-- A node with other links has the same span, and its tag has these. -/
theorem Node.withLinks_span (n : Node) (links : Links) : (n.withLinks links).span = n.span := by
  cases n <;> rfl

theorem Node.tag?_withLinks (n : Node) (links : Links) :
    (n.withLinks links).tag? = n.tag?.map fun tag => { tag with links := links } := by
  cases n <;> rfl

namespace Siblings

theorem LinkedInside.tag?_eq {b : Bool} {n m : Node} (h : LinkedInside b n m) : m.tag? = n.tag? := by
  cases h <;> rfl

theorem LinkedInside.span_eq {b : Bool} {n m : Node} (h : LinkedInside b n m) : m.span = n.span := by
  cases h <;> rfl

/-- Every node of a linked list is a node of the list, but for what is inside it and its links. -/
theorem Linked.exists_node {b : Bool} {ns linked : List Node} (h : Linked b ns linked) :
    ∀ m ∈ linked, ∃ n ∈ ns, m.span = n.span ∧
      ∃ links, m.tag? = n.tag?.map fun tag => { tag with links := links } := by
  induction ns generalizing linked with
  | nil =>
    cases h
    exact fun _ hm => absurd hm List.not_mem_nil
  | cons n rest ih =>
    cases h with
    | leftOut _ hrest =>
      intro m hm
      obtain ⟨k, hk, htag⟩ := ih hrest m hm
      exact ⟨k, List.mem_cons_of_mem _ hk, htag⟩
    | kept _ hinside hrest =>
      refine List.forall_mem_cons.2 ⟨⟨n, List.mem_cons_self, ?_, linksBefore rest n, ?_⟩, fun m hm => ?_⟩
      · rw [Node.withLinks_span, hinside.span_eq]
      · rw [Node.tag?_withLinks, hinside.tag?_eq]
      · obtain ⟨k, hk, htag⟩ := ih hrest m hm
        exact ⟨k, List.mem_cons_of_mem _ hk, htag⟩

end Siblings

namespace Template

/-- What does not look at links holds of the tags of a compiled template if it holds of those that were
    read. -/
theorem tagHolds_of_link {t linked : Template} {P : Nat → Tag → Prop}
    (hlinks : ∀ {start : Nat} {tag : Tag} (links : Links), P start tag → P start { tag with links := links })
    (h : t.link = .ok linked) (ht : ∀ ns ∈ t.siblingLists, ∀ n ∈ ns, n.TagHolds P) :
    ∀ ns ∈ linked.siblingLists, ∀ n ∈ ns, n.TagHolds P := by
  have hanswers := t.answers_link
  rw [h] at hanswers
  obtain ⟨-, -, hlinked⟩ := hanswers
  intro ns hns m hm tag htag
  obtain ⟨b, k, hk, hns⟩ :=
    Siblings.linked_of_mem_lists hlinked (Siblings.linked_of_mem_below _ hlinked) ns hns
  obtain ⟨n, hn, hspan, links, hsame⟩ := hns.exists_node m hm
  rw [hsame] at htag
  obtain ⟨written, hwritten, rfl⟩ := Option.map_eq_some_iff.1 htag
  rw [hspan]
  exact hlinks links (ht k hk n hn written hwritten)

end Template

/-! ## What was written -/

namespace Tag

/-- A tag stands in a source from a byte on: a bracket, its name, and what was written on it, which was
    sorted into its attributes and directives. -/
def Placed (source : String) (start : Nat) (tag : Tag) : Prop :=
  ∃ before w after written selfClosing,
    source.toList = before ++ ('<' :: tag.name.toList ++ w) ++ after ∧ start = Text.byteLength before ∧
      IsTagName tag.name.toList ∧ Text.NotAhead Cursor.isTagChar w ∧
      AttributesText (start + 1 + Text.byteLength tag.name.toList) w written selfClosing ∧
      sort written = .ok (tag.attributes, tag.directives)

end Tag

theorem Template.placed_of_readOpening {source : String} {c d : Cursor} {opening : Opening}
    (hon : c.On source) (hahead : openingAhead c.rest = true) (h : readOpening c = .ok (opening, d)) :
    opening.tag.Placed source opening.start := by
  obtain ⟨before, hsource, hposition⟩ := hon
  obtain ⟨more, written, hreads, hname, hnext, hwritten, hsort, hstart, -⟩ :=
    written_of_readOpening hahead h
  refine ⟨before, more, d.rest, written, opening.selfClosing, ?_, ?_, hname, hnext, ?_, hsort⟩
  · rw [hsource, hreads.rest_eq, List.append_assoc before]
  · rw [hstart, hposition]
  · rw [hstart]
    exact hwritten

namespace Template

variable {o : Dialect} {source : String} {t : Template}

/-- Every tag of a template that is read stands in the source. -/
theorem tagsPlaced_of_parse (h : parse o source = .ok t) :
    ∀ ns ∈ t.siblingLists, ∀ n ∈ ns, n.TagHolds (Tag.Placed source) :=
  tagHolds_of_parse placed_of_readOpening h

theorem tagsPlaced_of_compile (h : compile o source = .ok t) :
    ∀ ns ∈ t.siblingLists, ∀ n ∈ ns, n.TagHolds (Tag.Placed source) := by
  obtain ⟨parsed, hparsed, hlink⟩ := Reader.bind_eq_ok h
  exact tagHolds_of_link (fun _ htag => htag) hlink (tagsPlaced_of_parse hparsed)

/-- On every tag of a template stand attributes in the source that are sorted into those it keeps and its
    directives, which are at most one condition and one loop directive and have the positions of the
    attributes they were written as; and the condition gates the loop just when it was written before it. -/
theorem directives_by_position (h : parse o source = .ok t ∨ compile o source = .ok t) :
    ∀ ns ∈ t.siblingLists, ∀ n ∈ ns, ∀ tag ∈ n.tag?, ∃ before w after written selfClosing,
      source.toList = before ++ ('<' :: tag.name.toList ++ w) ++ after ∧
      n.span.start = Text.byteLength before ∧ Tag.IsTagName tag.name.toList ∧
      Text.NotAhead Cursor.isTagChar w ∧
      Tag.AttributesText (n.span.start + 1 + Text.byteLength tag.name.toList) w written selfClosing ∧
      Tag.SortsInto written tag.attributes tag.directives ∧
      (∀ (i j : Nat) (a b : WrittenAttribute), written[i]? = some a → written[j]? = some b →
        (a.name ∈ Tag.conditionNames ∧ b.name ∈ Tag.conditionNames ∨
          a.name ∈ Tag.loopNames ∧ b.name ∈ Tag.loopNames) → i = j) ∧
      (tag.directives.interplay = .conditionBeforeLoop ↔ ∃ (i j : Nat) (a b : WrittenAttribute), i < j ∧
        written[i]? = some a ∧ written[j]? = some b ∧ a.name ∈ Tag.conditionNames ∧
        b.name = ":foreach") := by
  have hplaced : ∀ ns ∈ t.siblingLists, ∀ n ∈ ns, n.TagHolds (Tag.Placed source) := by
    rcases h with h | h
    · exact tagsPlaced_of_parse h
    · exact tagsPlaced_of_compile h
  intro ns hns n hn tag htag
  obtain ⟨before, w, after, written, selfClosing, hsource, hstart, hname, hnext, hwritten, hsort⟩ :=
    hplaced ns hns n hn tag htag
  have hsorts := Tag.sortsInto_of_sort hsort
  refine ⟨before, w, after, written, selfClosing, hsource, hstart, hname, hnext, hwritten, hsorts, ?_,
    hsorts.interplay_eq_iff⟩
  rintro i j a b ha hb (⟨hcondition, hcondition'⟩ | ⟨hloop, hloop'⟩)
  · exact hsorts.conditional_unique ha hb hcondition hcondition'
  · exact hsorts.looping_unique ha hb hloop hloop'

/-- A loop written before its condition, between attributes that are kept in each of the three ways. -/
theorem directives_by_position_loop_first :
    ∃ t, compile {} "<br a :foreach='$s as $x' ::b=1 :if='$x' :c=d>" = .ok t ∧
      (t.children.filterMap Node.tag?).map (fun tag =>
          (tag.attributes.map fun a => (a.name, a.value), tag.directives.condition.map Condition.position,
            tag.directives.loop.map LoopDirective.position, tag.directives.interplay))
        = [([("a", .bare), (":b", .literal "1"), ("c", .expression "d")], some 3, some 1,
            .loopBeforeCondition)] ∧
      ∀ ns ∈ t.siblingLists, ∀ n ∈ ns, ∀ tag ∈ n.tag?, ∃ written : List WrittenAttribute,
        Tag.SortsInto written tag.attributes tag.directives := by
  have hfacts : (compile {} "<br a :foreach='$s as $x' ::b=1 :if='$x' :c=d>").toOption.map (fun t =>
      (t.children.filterMap Node.tag?).map fun tag =>
        (tag.attributes.map fun a => (a.name, a.value), tag.directives.condition.map Condition.position,
          tag.directives.loop.map LoopDirective.position, tag.directives.interplay))
      = some [([("a", .bare), (":b", .literal "1"), ("c", .expression "d")], some 3, some 1,
          .loopBeforeCondition)] := by
    decide +kernel
  cases ht : compile {} "<br a :foreach='$s as $x' ::b=1 :if='$x' :c=d>" with
  | error e =>
    rw [ht] at hfacts
    cases hfacts
  | ok t =>
    rw [ht] at hfacts
    refine ⟨t, rfl, Option.some.inj hfacts, ?_⟩
    intro ns hns n hn tag htag
    obtain ⟨before, w, after, written, selfClosing, -, -, -, -, -, hsorts, -⟩ :=
      directives_by_position (.inr ht) ns hns n hn tag htag
    exact ⟨written, hsorts⟩

end Template

end Stencil
