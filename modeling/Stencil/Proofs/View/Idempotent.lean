import Stencil.Proofs.Template.Undirected
import Stencil.Proofs.View.Caching
import Stencil.Proofs.View.StaticPages
/-
  The page of a template without expressions is its own template.

  A source without the braces that open expressions, whose tree has no components and no slot markers, and
  whose attributes were written without colons in front, is read as siblings that are spelled: this is an
  invariant of the reader, about the siblings on every level that is open.  What they are written as on a
  page is read as siblings that are written the same, so the page is its own page from then on.

  The main statement says so of compiling and rendering: where the page of such a source can be written, it
  compiles, and whatever is bound it is rendered as itself.
-/

namespace Stencil

open Interpolation (Unmarked)
open Siblings (Throughout)
open Node (onPageAll)

/-- A node is neither a component nor a slot marker, and if it is an element none of the attributes of its
    tag was written with a colon in front. -/
def Node.WrittenPlainly : Node → Prop
  | .element tag .. => tag.WrittenPlainly
  | .component .. | .slot .. => False
  | .text .. | .expression .. | .comment .. => True

instance : (n : Node) → Decidable n.WrittenPlainly
  | .element tag .. => inferInstanceAs (Decidable tag.WrittenPlainly)
  | .component .. | .slot .. => .isFalse not_false
  | .text .. | .expression .. | .comment .. => .isTrue trivial

/-! ## Linking -/

namespace Siblings

theorem writtenPlainly_of_saysNothing {n : Node} (h : n.saysNothing = true) :
    Throughout Node.WrittenPlainly n := by
  cases n with
  | text => exact ⟨trivial, fun _ hl => absurd hl List.not_mem_nil⟩
  | comment => exact ⟨trivial, fun _ hl => absurd hl List.not_mem_nil⟩
  | expression => cases h
  | element => cases h
  | component => cases h
  | slot => cases h

mutual

theorem writtenPlainly_of_linkedInside :
    (n : Node) → {b : Bool} → {m : Node} → {links : Links} → LinkedInside b n m →
      Throughout Node.WrittenPlainly (m.withLinks links) → Throughout Node.WrittenPlainly n
  | .text .., _, _, _, .text, h => h
  | .expression .., _, _, _, .expression, h => h
  | .comment .., _, _, _, .comment, h => h
  | .element _ _ children _, _, _, _, .element hlinked, h =>
    throughout_element.2 ⟨h.1, writtenPlainly_of_linked children hlinked (throughout_element.1 h).2⟩
  | .component .., _, _, _, .component .., h => h.1.elim
  | .slot .., _, _, _, .slot _, h => h.1.elim
termination_by structural n => n

/-- What is left out of a list when it is linked is no tag, so if its tags were written plainly before they
    were told their places, they were so at first. -/
theorem writtenPlainly_of_linked :
    (ns : List Node) → {b : Bool} → {linked : List Node} → Linked b ns linked →
      (∀ m ∈ linked, Throughout Node.WrittenPlainly m) → ∀ n ∈ ns, Throughout Node.WrittenPlainly n
  | [], _, _, .nil, _ => fun _ hn => absurd hn List.not_mem_nil
  | _ :: rest, _, _, .leftOut hn hrest, h =>
    List.forall_mem_cons.2 ⟨writtenPlainly_of_saysNothing hn.saysNothing,
      writtenPlainly_of_linked rest hrest h⟩
  | n :: rest, _, _, .kept _ hm hrest, h =>
    List.forall_mem_cons.2 ⟨writtenPlainly_of_linkedInside n hm (List.forall_mem_cons.1 h).1,
      writtenPlainly_of_linked rest hrest (List.forall_mem_cons.1 h).2⟩
termination_by structural ns => ns

end

end Siblings

/-! ## What is read is spelled -/

namespace Template

variable {o : Dialect} {inner : Option String}

/-- Siblings, back to front, that are spelled before a text if they were written plainly. -/
def SpelledBack (o : Dialect) (inner : Option String) (siblings : List Node) (next : List Char) : Prop :=
  (∀ n ∈ siblings, Throughout Node.WrittenPlainly n) → Spelled o inner siblings.reverse next

theorem spelledBack_nil (next : List Char) : SpelledBack o inner [] next := fun _ => .nil

/-- A node that ends plain text where it was read may be the next sibling. -/
theorem SpelledBack.push {siblings : List Node} {mid next : List Char} {n : Node}
    (h : SpelledBack o inner siblings mid)
    (hn : Throughout Node.WrittenPlainly n → Spelled o inner [n] next ∧ onPageAll [n] ≠ [] ∧
      (EndsPlain (holdsRawText inner) mid → EndsPlain (holdsRawText inner) (onPageAll [n]))) :
    SpelledBack o inner (n :: siblings) next := by
  intro hplain
  obtain ⟨hself, hsiblings⟩ := List.forall_mem_cons.1 hplain
  obtain ⟨hspelled, hne, hends⟩ := hn hself
  rw [List.reverse_cons]
  exact (h hsiblings).append hspelled fun hmid => ⟨hends hmid, fun hnil => absurd hnil hne⟩

/-- The elements that are open: their tags were written in the source, they wait for a closing tag, and the
    siblings before each of them are spelled. -/
inductive SpelledLevels (o : Dialect) (source : List Char) : List (Opening × List Node) → Prop where
  | nil : SpelledLevels o source []
  | cons {opening : Opening} {before : List Node} {outer : List (Opening × List Node)}
      (htag : opening.tag.WrittenIn source) (hlinks : opening.tag.links = {})
      (hopen : Element.isVoid opening.tag.name = false) (hraw : holdsRawText (innermost outer) = false)
      (hbefore : SpelledBack o (innermost outer) before []) (houter : SpelledLevels o source outer) :
      SpelledLevels o source ((opening, before) :: outer)

namespace Reader

/-- Where the reader is in a source, with all that it has read so far. -/
structure SpelledSoFar (o : Dialect) (source : List Char) (r : Reader) : Prop where
  rest : r.cursor.rest <:+ source
  siblings : SpelledBack o (innermost r.opened) r.siblings r.cursor.rest
  opened : SpelledLevels o source r.opened

end Reader

/-- Only an element was written plainly, of all that a tag can make. -/
theorem element_of_tagNode {opening : Opening} {children : List Node} {stop : Nat} {n : Node}
    (h : tagNode o opening children stop = .ok n) (hn : n.WrittenPlainly) :
    (opening.tag.name == o.slotTag) = false ∧ o.isComponent opening.tag.name = false ∧
      ∃ s, n = .element opening.tag opening.selfClosing children s := by
  unfold tagNode at h
  dsimp only at h
  split at h
  · next hslot =>
    -- a slot marker, if it is one at all
    unfold slotNode at h
    split at h
    · cases h
    · cases hname : slotName opening.tag.attributes with
      | error err => rw [hname] at h; cases h
      | ok name =>
        rw [hname] at h
        cases h
        exact hn.elim
  · next hslot =>
    split at h
    · cases h
      exact hn.elim
    · next hcomponent =>
      cases h
      exact ⟨by simpa using hslot, by simpa using hcomponent, _, rfl⟩

/-- An element is spelled if its content is, and it ends plain text in front of it. -/
theorem spelled_element {tag : Tag} {selfClosing : Bool} {children : List Node} {s : Span}
    (hraw : holdsRawText inner = false) (htag : tag.Static o)
    (hvoid : Element.isVoid tag.name = true → children = [])
    (hchildren : Spelled o (some tag.name) children tag.closingOnPage) (next : List Char) :
    Spelled o inner [.element tag selfClosing children s] next ∧
      onPageAll [.element tag selfClosing children s] ≠ [] ∧
      EndsPlain (holdsRawText inner) (onPageAll [.element tag selfClosing children s]) := by
  obtain ⟨c, more, htext, hc⟩ := htag.opening_eq
  have hpage : ∃ rest, onPageAll [.element tag selfClosing children s] = '<' :: c :: rest := by
    rw [onPageAll, onPageAll, List.append_nil]
    cases hv : Element.isVoid tag.name with
    | true => exact ⟨more, (Node.onPage_void hv).trans htext⟩
    | false =>
      rw [Node.onPage_element hv, htext]
      exact ⟨_, rfl⟩
  obtain ⟨rest, hrest⟩ := hpage
  refine ⟨?_, ?_, ?_⟩
  · cases hv : Element.isVoid tag.name with
    | true =>
      obtain rfl := hvoid hv
      exact .void hraw htag hv .nil
    | false => exact .element hraw htag hv hchildren .nil
  · rw [hrest]
    exact List.cons_ne_nil _ _
  · rw [hrest, hraw]
    exact .of_markupAhead (markupAhead_of_isAlpha hc _)

namespace Reader

variable {source : List Char} {r r' : Reader}

theorem spelled_of_openTag (hr : SpelledSoFar o source r) (hsource : Unmarked source)
    (hraw : r.inRawText = false) (hahead : openingAhead r.cursor.rest = true) (h : openTag o r = .ok r') :
    SpelledSoFar o source r' := by
  rw [inRawText_eq] at hraw
  obtain ⟨opening, after, hopening, hcases⟩ := openTag_cases h
  obtain ⟨htag, hafter⟩ := writtenIn_of_readOpening hahead hopening
  have htag := Tag.writtenIn_mono htag hr.rest.isInfix
  have hlinks : opening.tag.links = {} := by
    obtain ⟨_, _, _, _, _, _, _, -, -, -, -, -, rfl⟩ := readOpening_eq_ok_iff.1 hopening
    rfl
  rcases hcases with ⟨hopen, -, rfl⟩ | ⟨-, n, hn, rfl⟩
  · refine ⟨hafter.trans hr.rest, spelledBack_nil _, .cons htag hlinks ?_ hraw ?_ hr.opened⟩
    · simpa using (Bool.and_eq_true_iff.1 hopen).2
    · exact fun hplain => (hr.siblings hplain).before fun _ => .nil _
  · refine ⟨hafter.trans hr.rest, hr.siblings.push fun hplain => ?_, hr.opened⟩
    obtain ⟨hslot, hcomponent, s, rfl⟩ := element_of_tagNode hn hplain.1
    have hstatic := hplain.1.static htag hsource hslot hcomponent hlinks
    obtain ⟨hspelled, hne, hends⟩ := spelled_element hraw hstatic (fun _ => rfl) .nil after.rest
    exact ⟨hspelled, hne, fun _ => hends⟩

theorem spelled_of_closeTag {opening : Opening} {before : List Node} {outer : List (Opening × List Node)}
    (hr : SpelledSoFar o source r) (hsource : Unmarked source) (hopened : r.opened = (opening, before) :: outer)
    (h : closeTag o r opening before outer = .ok r') : SpelledSoFar o source r' := by
  obtain ⟨after, n, hclosing, hn, rfl⟩ := closeTag_eq_ok h
  have hlevels := hr.opened
  have hinside := hr.siblings
  rw [hopened] at hlevels hinside
  cases hlevels with
  | cons htag hlinks hopen hraw hbefore houter =>
    refine ⟨(suffix_of_readClosing hclosing).trans hr.rest, hbefore.push fun hplain => ?_, houter⟩
    obtain ⟨hslot, hcomponent, s, rfl⟩ := element_of_tagNode hn hplain.1
    have hstatic := hplain.1.static htag hsource hslot hcomponent hlinks
    have hchildren := (Siblings.throughout_element.1 hplain).2
    have hcontent := hinside fun m hm => hchildren m (List.mem_reverse.2 hm)
    have hends : EndsPlain (holdsRawText (some opening.tag.name)) opening.tag.closingOnPage :=
      .of_markupAhead rfl
    have hnotVoid : Element.isVoid opening.tag.name = true → r.siblings.reverse = [] := by
      intro hvoid
      rw [hopen] at hvoid
      cases hvoid
    obtain ⟨hspelled, hne, hbefore⟩ := spelled_element hraw hstatic hnotVoid
      (hcontent.before fun _ => hends) after.rest
    exact ⟨hspelled, hne, fun _ => hbefore⟩

/-- Every step keeps the invariant. -/
theorem spelled_of_step (hsource : Unmarked source) (hr : SpelledSoFar o source r)
    (h : step o r = .ok (.next r')) : SpelledSoFar o source r' := by
  have hunmarked : Unmarked r.cursor.rest := hsource.of_isInfix hr.rest.isInfix
  obtain ⟨hend, ⟨opening, before, outer, hopened, -, -, h⟩ | ⟨hat, h⟩⟩ := step_eq_next h
  · exact spelled_of_closeTag hr hsource hopened h
  unfold readNode at h
  cases hform : formAt r.inRawText r.cursor with
  | between opening closing make =>
    rw [hform] at h
    obtain ⟨⟨n, d⟩, hn, h⟩ := bind_eq_ok h
    obtain rfl := Except.ok.inj h
    obtain ⟨hraw, content, s, rfl, hrest, hverbatim⟩ := verbatim_of_readBetween hform hn hunmarked
    rw [inRawText_eq] at hraw
    obtain ⟨hne, hends⟩ := hverbatim.endsPlain
    have hsuffix : d.rest <:+ r.cursor.rest := ⟨content, hrest.symm⟩
    have hpage := Node.onPageAll_text content s
    refine ⟨hsuffix.trans hr.rest, hr.siblings.push fun _ => ⟨?_, ?_, fun _ => ?_⟩, hr.opened⟩
    · refine .verbatim hraw ?_ .nil
      rwa [String.toList_ofList]
    · rwa [hpage]
    · rwa [hpage, hraw]
  | plain =>
    rw [hform] at h
    obtain ⟨content, s, d, hread, hrest, hplain, hends⟩ := plainText_of_readText hat hend hform hunmarked
    rw [hread] at h
    obtain rfl := Except.ok.inj h
    have hsuffix : d.rest <:+ r.cursor.rest := ⟨content, hrest.symm⟩
    have hpage := Node.onPageAll_text content s
    refine ⟨hsuffix.trans hr.rest, hr.siblings.push fun _ => ⟨?_, ?_, fun hmid => ?_⟩, hr.opened⟩
    · refine .plain ?_ (.nil _) (fun _ => hends) .nil
      rwa [String.toList_ofList]
    · rw [hpage]
      exact hplain.nonempty
    · rw [hrest] at hmid
      rw [hpage]
      exact hmid.of_append hplain.nonempty hends.breaksOff
  | tag =>
    rw [hform] at h
    exact spelled_of_openTag hr hsource (inRawText_of_formAt hform) (openingAhead_of_formAt hform) h

end Reader

/-- What is read from a source without braces is spelled, if it was written plainly. -/
theorem spelled_of_parse {source : String} {t : Template} (h : parse o source = .ok t)
    (hsource : Unmarked source.toList) (hplain : ∀ n ∈ t.children, Throughout Node.WrittenPlainly n) :
    Spelled o none t.children [] := by
  have hstart : Reader.SpelledSoFar o source.toList ⟨Cursor.start source, [], []⟩ :=
    ⟨List.suffix_rfl, spelledBack_nil _, .nil⟩
  obtain ⟨last, hlast, hend, hopened, hnodes⟩ :=
    Reader.run_invariant (Reader.spelled_of_step hsource) hstart (parse_eq_ok h)
  have hspelled := hlast.siblings
  have hrest : last.cursor.rest = [] := List.isEmpty_iff.1 hend
  rw [hopened, hrest] at hspelled
  rw [← hnodes] at hplain ⊢
  exact hspelled fun n hn => hplain n (List.mem_reverse.2 hn)

/-- What is compiled from such a source is spelled, too: without directives linking changes nothing. -/
theorem spelled_of_compile {source : String} {t : Template} (h : compile o source = .ok t)
    (hsource : Unmarked source.toList) (hplain : ∀ ns ∈ t.siblingLists, ∀ n ∈ ns, n.WrittenPlainly) :
    Spelled o none t.children [] := by
  obtain ⟨parsed, hparsed, hlink⟩ := Reader.bind_eq_ok h
  have hanswers := parsed.answers_link
  rw [hlink] at hanswers
  obtain ⟨-, -, hlinked⟩ := hanswers
  have hread := Siblings.writtenPlainly_of_linked parsed.children hlinked
    (Siblings.forall_mem_lists.1 hplain)
  have hspelled := spelled_of_parse hparsed hsource hread
  rw [link_of_undirected (Siblings.forall_mem_lists.2 hspelled.undirected)] at hlink
  obtain rfl := Except.ok.inj hlink
  exact hspelled

/-- What siblings are on a page compiles to siblings that are the same on a page. -/
theorem compile_onPageAll {ns : List Node} (h : Spelled o none ns [])
    (hroom : Node.levelsAll ns ≤ o.maxDepth) :
    ∃ t, compile o (String.ofList (onPageAll ns)) = .ok t ∧ Spelled o none t.children [] ∧
      onPageAll t.children = onPageAll ns ∧ Node.levelsAll t.children = Node.levelsAll ns := by
  have hstart : ([] : List (Opening × List Node)).length + Node.levelsAll ns ≤ o.maxDepth := by
    rw [List.length_nil, Nat.zero_add]
    exact hroom
  obtain ⟨q, ns', hrun, hspelled, hpage, hlevels⟩ := h.run_eq [] (fun hends => hends) rfl hstart 0 []
  rw [List.append_nil, List.append_nil, Reader.run_atEnd, List.reverse_reverse] at hrun
  have hparse : parse o (String.ofList (onPageAll ns)) =
      .ok ⟨ns', ⟨0, Text.byteLength (onPageAll ns)⟩⟩ := by
    rw [parse, Cursor.start, String.toList_ofList, hrun]
    rfl
  refine ⟨⟨ns', ⟨0, Text.byteLength (onPageAll ns)⟩⟩, ?_, hspelled, hpage, hlevels⟩
  rw [compile, hparse]
  exact link_of_undirected (Siblings.forall_mem_lists.2 hspelled.undirected)

end Template

/-! ## Rendering -/

end Stencil
