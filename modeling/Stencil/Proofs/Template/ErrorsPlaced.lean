import Stencil.Proofs.Template.TagErrors
/-
  Every error of a template points into its source.

  A template is refused by a step of the reader or while its siblings are linked.  The reader keeps where it
  is and which tags are open, so a step is refused for what stands at the cursor, for a tag that was never
  closed, or for what was written on the tag that is complete.  Linking is refused for a directive of some
  tag, and every tag of the template that was read has its attributes in the source.
-/

namespace Stencil

open Text (byteLength)
open TemplateError (pointsInto_of_passes pointsInto_of_reads)
open Template.Reader (bind_eq_error map_eq_error)

/-! ## Leaves and closing tags -/

namespace Template

variable {source : String} {c : Cursor} {e : TemplateError}

/-- Where a form between two marks begins the source has the first mark. -/
theorem consume_of_formAt {rawText : Bool} {opening closing : String} {make : List Char → Span → Node}
    (h : formAt rawText c = .between opening closing make) : ∃ d, c.consume? opening = some d := by
  cases beginsAt_of_formAt h with
  | comment hmark => exact Cursor.startsWith_iff.1 hmark
  | raw hmark => exact Cursor.startsWith_iff.1 hmark
  | escaped hmark => exact Cursor.startsWith_iff.1 hmark
  | remark _ hmark => exact Cursor.startsWith_iff.1 hmark
  | declaration _ _ hmark =>
    -- the mark is only the bracket that both marks begin with
    have hbracket : ∃ rest, c.rest = '<' :: rest := by
      rcases hmark with hmark | hmark
      · obtain ⟨d, hd⟩ := Cursor.startsWith_iff.1 hmark
        exact ⟨_, (Cursor.reads_of_consume? hd).rest_eq⟩
      · obtain ⟨d, hd⟩ := Cursor.startsWith_iff.1 hmark
        exact ⟨_, (Cursor.reads_of_consume? hd).rest_eq⟩
    obtain ⟨rest, hrest⟩ := hbracket
    exact Cursor.startsWith_iff.1 (Cursor.startsWith_of_rest_eq "<" hrest)

/-- What is never closed is refused for the mark that opens it. -/
theorem pointsInto_of_readBetween {opening closing : String} {make : List Char → Span → Node}
    (hon : c.On source) (hopening : ∃ d, c.consume? opening = some d) (hne : opening.toList ≠ [])
    (h : readBetween opening closing make c = .error e) : e.PointsInto source := by
  unfold readBetween at h
  split at h
  · cases h
  · obtain rfl := Except.error.inj h
    obtain ⟨d, hd⟩ := hopening
    have hreads := Cursor.reads_of_consume? hd
    rw [← hreads.position_eq]
    exact pointsInto_of_reads hon hreads hne ⟨_, List.prefix_rfl, rfl⟩

/-- A closing tag that is seen and never ends is refused for its name, in the case it is written in. -/
theorem pointsInto_of_readClosing {tag : String} (hon : c.On source) (hname : Tag.IsTagName tag.toList)
    (hmark : c.startsWith "</" = true) (hahead : closingAhead tag c = true) (h : readClosing tag c = .error e) :
    e.PointsInto source := by
  obtain ⟨hreads, hlower⟩ := closingName_of_closingAhead hname hmark hahead
  unfold readClosing at h
  dsimp only at h
  split at h
  · cases h
  · obtain rfl := Except.error.inj h
    have hopening : (s!"</{tag}").toList = '<' :: '/' :: tag.toList := String.toList_append
    refine pointsInto_of_passes hon (hreads.passes.reads (Cursor.reads_skipBlanks _)) (List.cons_ne_nil _ _)
      fun _ _ hfront => ⟨_, hfront, ?_⟩
    rw [hopening, List.map_cons, List.map_cons, hlower]
    rfl

theorem pointsInto_unexpectedClosing (opened : Option String) (hon : c.On source)
    (hmark : c.startsWith "</" = true) : (unexpectedClosing opened c).PointsInto source := by
  refine pointsInto_of_reads hon (reads_closingName_of_startsWith hmark) (List.cons_ne_nil _ _) ?_
  show _ = '<' :: '/' :: (String.ofList (closingName c).1).toList
  rw [String.toList_ofList]

/-! ## Slot markers -/

/-- The directive a slot marker is refused for is one it has. -/
theorem blamed_of_slotDirective? {d : Directives} {name : String} {s : Span} (problem : DirectiveProblem)
    (h : slotDirective? d = some (name, s)) : d.Blamed ⟨.directive name problem, s⟩ := by
  unfold slotDirective? at h
  split at h
  · next hcondition =>
    obtain ⟨rfl, rfl⟩ := Prod.mk.inj (Option.some.inj h)
    exact .condition hcondition
  · next hloop =>
    obtain ⟨rfl, rfl⟩ := Prod.mk.inj (Option.some.inj h)
    exact .loop hloop
  · next hloop =>
    obtain ⟨rfl, rfl⟩ := Prod.mk.inj (Option.some.inj h)
    exact .loop hloop
  · cases h

/-- A fold that fails does so at one of the elements. -/
theorem exists_of_foldlM_eq_error {ε α β : Type} {f : β → α → Except ε β} {xs : List α} {b : β} {err : ε}
    (h : xs.foldlM f b = .error err) : ∃ a ∈ xs, ∃ b, f b a = .error err := by
  induction xs generalizing b with
  | nil => cases h
  | cons a xs ih =>
    rw [List.foldlM_cons] at h
    rcases bind_eq_error h with h | ⟨b', -, h⟩
    · exact ⟨a, List.mem_cons_self, b, h⟩
    · obtain ⟨x, hx, hfails⟩ := ih h
      exact ⟨x, List.mem_cons_of_mem _ hx, hfails⟩

/-- A slot marker without a name it can have is refused for the attribute that computes it. -/
theorem computed_of_slotName {attributes : List Attribute} (h : slotName attributes = .error e) :
    ∃ a ∈ attributes, a.name = "name" ∧ (∃ value, a.value = .expression value) ∧
      e = ⟨.computedSlotName, a.span⟩ := by
  obtain ⟨a, ha, name, hfails⟩ := exists_of_foldlM_eq_error h
  split at hfails
  next hname =>
    split at hfails
    next value hvalue =>
      exact ⟨a, ha, eq_of_beq hname, ⟨value, hvalue⟩, (Except.error.inj hfails).symm⟩
    next => cases hfails
    next => cases hfails
  next => cases hfails

/-- A tag that is complete is refused only as a slot marker, for an attribute that was written on it. -/
theorem pointsInto_of_tagNode {o : Dialect} {opening : Opening} {children : List Node} {stop : Nat}
    (htag : opening.tag.AttributesPlaced source) (h : tagNode o opening children stop = .error e) :
    e.PointsInto source := by
  unfold tagNode at h
  dsimp only at h
  split at h
  · unfold slotNode at h
    split at h
    next name s hdirective =>
      obtain rfl := Except.error.inj h
      exact htag.pointsInto_of_blamed (blamed_of_slotDirective? _ hdirective)
    next =>
      obtain ⟨a, ha, hname, ⟨value, hvalue⟩, rfl⟩ := computed_of_slotName (map_eq_error h)
      exact htag.pointsInto_of_computed ha hname hvalue
  · split at h <;> cases h

/-! ## The reader -/

namespace Reader

variable {o : Dialect} {r : Reader}

/-- Where the reader is, its open elements have their opening tags, and all tags so far have their
    attributes, in the source. -/
structure Located (o : Dialect) (source : String) (r : Reader) : Prop where
  levels : Invariant o source r
  tags : TagsHold (fun _ tag => tag.AttributesPlaced source) source r

theorem located_of_step {r' : Reader} (hr : Located o source r) (h : step o r = .ok (.next r')) :
    Located o source r' :=
  ⟨invariant_of_step hr.levels h, tagsHold_of_step attributesPlaced_of_readOpening hr.tags h⟩

theorem located_start : Located o source ⟨Cursor.start source, [], []⟩ :=
  ⟨invariant_start o source, tagsHold_start⟩

/-- The innermost open element has its opening tag in the source. -/
theorem Located.opened (hr : Located o source r) {opening : Opening} {before : List Node}
    {outer : List (Opening × List Node)} (hopened : r.opened = (opening, before) :: outer) :
    Opened source opening := by
  have hlevels := hr.levels.levels
  rw [hopened] at hlevels
  cases hlevels with
  | inner hopening => exact hopening

theorem pointsInto_of_openTag (hr : Located o source r) (hahead : openingAhead r.cursor.rest = true)
    (h : openTag o r = .error e) : e.PointsInto source := by
  have hon := hr.levels.on
  rcases bind_eq_error h with h | ⟨⟨opening, after⟩, hopening, h⟩
  · exact pointsInto_of_readOpening hon hahead h
  · obtain ⟨more, hreads, -, hstart, -⟩ := openingText_of_readOpening hahead hopening
    dsimp only at h
    split at h
    · split at h
      · obtain rfl := Except.error.inj h
        rw [hstart]
        exact pointsInto_of_reads hon hreads (List.cons_ne_nil _ _) ⟨_, rfl⟩
      · cases h
    · rcases bind_eq_error h with h | ⟨n, -, h⟩
      · exact pointsInto_of_tagNode (attributesPlaced_of_readOpening hon hahead hopening) h
      · cases h

theorem pointsInto_of_closeTag {opening : Opening} {before : List Node} {outer : List (Opening × List Node)}
    (hr : Located o source r) (hopened : r.opened = (opening, before) :: outer)
    (hmark : r.cursor.startsWith "</" = true) (hahead : closingAhead opening.tag.name r.cursor = true)
    (h : closeTag o r opening before outer = .error e) : e.PointsInto source := by
  rcases bind_eq_error h with h | ⟨after, -, h⟩
  · obtain ⟨text, -, hname, -⟩ := (hr.opened hopened).text
    exact pointsInto_of_readClosing hr.levels.on hname hmark hahead h
  · rcases bind_eq_error h with h | ⟨n, -, h⟩
    · have htag := hr.tags.opened _ (hopened ▸ List.mem_cons_self)
      exact pointsInto_of_tagNode htag.1 h
    · cases h

theorem pointsInto_of_readNode (hr : Located o source r) (h : readNode o r = .error e) :
    e.PointsInto source := by
  unfold readNode at h
  split at h
  · next opening closing make hform =>
    rcases bind_eq_error h with h | ⟨⟨n, after⟩, -, h⟩
    · exact pointsInto_of_readBetween hr.levels.on (consume_of_formAt hform)
        (List.length_pos_iff.1 (opening_of_formAt hform)) h
    · cases h
  · cases h
  · next hform => exact pointsInto_of_openTag hr (openingAhead_of_formAt hform) h

/-- A tag that was never closed stands where its span says. -/
theorem pointsInto_of_opened {opening : Opening} (hopened : Opened source opening) :
    TemplateError.PointsInto source ⟨.unclosedTag opening.tag.name, opening.span⟩ := by
  obtain ⟨text, hslice, -, more, written, htext, -⟩ := hopened.text
  obtain ⟨piece, hpiece, hsame⟩ := Option.map_eq_some_iff.1 hslice
  obtain rfl := String.ofList_injective hsame
  obtain ⟨before, after, hsource, hstart, hstop⟩ := Text.slice_eq_some hpiece
  refine ⟨before, piece, after, hsource, ?_, ?_, more, htext.symm⟩
  · rw [htext]
    exact List.cons_ne_nil _ _
  · show opening.span = ⟨byteLength before, byteLength before + byteLength piece⟩
    rw [← hstop, ← hstart]

theorem map_next_eq_error {x : Except TemplateError Reader} (h : Step.next <$> x = .error e) : x = .error e :=
  map_eq_error h

/-- A step that is refused points into the source. -/
theorem pointsInto_of_step (hr : Located o source r) (h : step o r = .error e) : e.PointsInto source := by
  unfold step at h
  split at h
  · split at h
    next opening before outer hopened =>
      obtain rfl := Except.error.inj h
      exact pointsInto_of_opened (hr.opened hopened)
    next => cases h
  · split at h
    next hmark =>
      split at h
      next =>
        obtain rfl := Except.error.inj h
        exact pointsInto_unexpectedClosing none hr.levels.on hmark
      next opening before outer hopened =>
        split at h
        next hahead => exact pointsInto_of_closeTag hr hopened hmark hahead (map_next_eq_error h)
        next =>
          split at h
          · exact pointsInto_of_readNode hr (map_next_eq_error h)
          · obtain rfl := Except.error.inj h
            exact pointsInto_unexpectedClosing _ hr.levels.on hmark
    next => exact pointsInto_of_readNode hr (map_next_eq_error h)

/-- What every step keeps holds of the reader whose step is refused. -/
theorem run_refused {I : Reader → Prop} (hstep : ∀ {r r' : Reader}, I r → step o r = .ok (.next r') → I r')
    (hr : I r) (h : run o r = .error e) : ∃ last : Reader, I last ∧ step o last = .error e := by
  fun_induction run o r with
  | case1 r e' hlast =>
    obtain rfl := Except.error.inj h
    exact ⟨r, hr, hlast⟩
  | case2 r nodes hlast => cases h
  | case3 r r' hnext _ ih => exact ih (hstep hr hnext) h

end Reader

/-- A source that cannot be read is refused for a piece of it. -/
theorem pointsInto_of_parse {o : Dialect} (h : parse o source = .error e) : e.PointsInto source := by
  obtain ⟨last, hlast, hstep⟩ :=
    Reader.run_refused Reader.located_of_step Reader.located_start (map_eq_error h)
  exact Reader.pointsInto_of_step hlast hstep

end Template

/-! ## Linking -/

namespace Siblings

variable {e : TemplateError}

theorem blamed_of_chainStep {d : Directives} {chain : Chain} (h : chainStep d chain = .error e) :
    d.Blamed e := by
  unfold chainStep at h
  split at h
  · cases h
  · next condition hcondition =>
    dsimp only at h
    split at h
    · cases h
    · cases h
    · cases h
    · obtain rfl := Except.error.inj h
      exact .condition hcondition
    · obtain rfl := Except.error.inj h
      exact .condition hcondition

theorem blamed_of_pairStep {d : Directives} {pair : Pair} (h : pairStep d pair = .error e) : d.Blamed e := by
  unfold pairStep at h
  split at h
  · cases h
  · cases h
  · next fallback hloop =>
    split at h
    · cases h
    · obtain rfl := Except.error.inj h
      exact .loop hloop
    · obtain rfl := Except.error.inj h
      exact .loop hloop

/-- A directive of a node of which something holds is at fault. -/
def BlamedWhere (P : Node → Prop) (e : TemplateError) : Prop :=
  ∃ (n : Node) (d : Directives), P n ∧ n.directives? = some d ∧ d.Blamed e

mutual

/-- Linking inside a node is refused for a directive of a node inside it. -/
theorem blamedWhere_of_linkNode {P : Node → Prop} {b : Bool} :
    (n : Node) → Throughout P n → linkNode b n = .error e → BlamedWhere P e
  | .text .., _, h => by cases h
  | .expression .., _, h => by cases h
  | .comment .., _, h => by cases h
  | .element _ _ children _, hn, h => by
    rcases bind_eq_error h with h | ⟨_, -, h⟩
    · exact blamedWhere_of_linkAll children (throughout_element.1 hn).2 h
    · cases h
  | .component _ children slots _, hn, h => by
    obtain ⟨-, hchildren, hslots⟩ := throughout_component.1 hn
    rcases bind_eq_error h with h | ⟨_, -, h⟩
    · exact blamedWhere_of_linkAll children hchildren h
    · rcases bind_eq_error h with h | ⟨_, -, h⟩
      · exact blamedWhere_of_linkSlots slots hslots h
      · cases h
  | .slot _ fallback _, hn, h => by
    rcases bind_eq_error h with h | ⟨_, -, h⟩
    · exact blamedWhere_of_linkAll fallback (throughout_slot.1 hn).2 h
    · cases h
termination_by structural n => n

/-- Linking siblings is refused for a directive of one of them, or of a node inside one of them. -/
theorem blamedWhere_of_linkAll {P : Node → Prop} {b : Bool} :
    (ns : List Node) → (∀ n ∈ ns, Throughout P n) → {before : Before} → linkAll b before ns = .error e →
      BlamedWhere P e
  | [], _, _, h => by cases h
  | n :: rest, hns, before, h => by
    obtain ⟨hn, hrest⟩ := List.forall_mem_cons.1 hns
    rcases bind_eq_error h with h | ⟨m, hm, h⟩
    · exact blamedWhere_of_linkNode n hn h
    have hlinked := answers_linkNode b n
    rw [hm] at hlinked
    -- the node that was linked has the directives it had
    split at h
    · next d hd =>
      rw [hlinked.2.directives?_eq] at hd
      rcases bind_eq_error h with h | ⟨_, -, h⟩
      · exact ⟨n, d, hn.1, hd, blamed_of_chainStep h⟩
      rcases bind_eq_error h with h | ⟨_, -, h⟩
      · exact ⟨n, d, hn.1, hd, blamed_of_pairStep h⟩
      rcases bind_eq_error h with h | ⟨_, -, h⟩
      · exact blamedWhere_of_linkAll rest hrest h
      · cases h
    · split at h
      · rcases bind_eq_error h with h | ⟨_, -, h⟩
        · exact blamedWhere_of_linkAll rest hrest h
        · cases h
      · rcases bind_eq_error h with h | ⟨_, -, h⟩
        · exact blamedWhere_of_linkAll rest hrest h
        · cases h
termination_by structural ns => ns

/-- Linking the contents of named slots is refused for a directive of a node in one of them. -/
theorem blamedWhere_of_linkSlots {P : Node → Prop} {b : Bool} :
    (slots : List (String × List Node)) → (∀ slot ∈ slots, ∀ n ∈ slot.2, Throughout P n) →
      linkSlots b slots = .error e → BlamedWhere P e
  | [], _, h => by cases h
  | (_, content) :: slots, hslots, h => by
    obtain ⟨hcontent, hmore⟩ := List.forall_mem_cons.1 hslots
    rcases bind_eq_error h with h | ⟨_, -, h⟩
    · exact blamedWhere_of_linkAll content hcontent h
    rcases bind_eq_error h with h | ⟨_, -, h⟩
    · exact blamedWhere_of_linkSlots slots hmore h
    · cases h
termination_by structural slots => slots

end

end Siblings

namespace Template

variable {source : String} {e : TemplateError}

/-- Linking the siblings of a template is refused for an attribute in the source. -/
theorem pointsInto_of_link {t : Template}
    (ht : ∀ ns ∈ t.siblingLists, ∀ n ∈ ns, n.TagHolds fun _ tag => tag.AttributesPlaced source)
    (h : t.link = .error e) : e.PointsInto source := by
  obtain ⟨n, d, hn, hd, hblamed⟩ :=
    Siblings.blamedWhere_of_linkAll t.children (Siblings.forall_mem_lists.1 ht) (map_eq_error h)
  obtain ⟨tag, htag, rfl⟩ := Option.map_eq_some_iff.1 hd
  exact (hn tag htag).pointsInto_of_blamed hblamed

/-- A source that does not compile is refused for a piece of it. -/
theorem pointsInto_of_compile {o : Dialect} (h : compile o source = .error e) : e.PointsInto source := by
  rcases bind_eq_error h with h | ⟨t, ht, h⟩
  · exact pointsInto_of_parse h
  · exact pointsInto_of_link (tagHolds_of_parse attributesPlaced_of_readOpening ht) h

end Template

end Stencil
