import Stencil.Proofs.Template.Faithful
/-
  Reading a template loses nothing.

  The invariant of the reader looks at the stack of open elements.  On each level the siblings that are
  complete tile the source from where the level begins, the start of the source or the end of the opening
  tag below, to where it is left, the opening tag above or the cursor; and they are faithful throughout.
  One step keeps this: a leaf or a tag without content is the next tile, an opening tag begins a level,
  and a closing tag turns the innermost level into a tile of the level below.

  The main statement follows at the end of the source, where one level is left.
-/

namespace Stencil.Template.Reader

open Siblings (Throughout)

variable {o : Dialect} {source : String}

/-! ## The invariant -/

/-- An opening tag that waits for its closing tag, as it stands in the source. -/
structure Opened (source : String) (opening : Opening) : Prop where
  isOpen : opening.isOpen = true
  start_eq : opening.span.start = opening.start
  name : NameStands source opening.tag opening.span
  text : ∃ text, opening.span.slice source = some (String.ofList text) ∧
    Tag.OpeningText opening.start opening.tag.name.toList false text

/-- The complete siblings of a level, back to front, tile the source from `start` to `stop` and are
    faithful throughout. -/
structure Level (o : Dialect) (source : String) (start : Nat) (siblings : List Node) (stop : Nat) :
    Prop where
  tile : Tile start siblings.reverse stop
  faithful : ∀ n ∈ siblings, Throughout (Faithful o source) n

/-- The levels of a reader that has come to the byte `stop`. -/
inductive Levels (o : Dialect) (source : String) : List Node → List (Opening × List Node) → Nat → Prop where
  | outermost {siblings : List Node} {stop : Nat} (h : Level o source 0 siblings stop) :
      Levels o source siblings [] stop
  | inner {opening : Opening} {siblings before : List Node} {outer : List (Opening × List Node)}
      {stop : Nat} (hopened : Opened source opening) (h : Level o source opening.span.stop siblings stop)
      (houter : Levels o source before outer opening.start) :
      Levels o source siblings ((opening, before) :: outer) stop

/-- What holds of a reader before and after every step. -/
structure Invariant (o : Dialect) (source : String) (r : Reader) : Prop where
  on : r.cursor.On source
  levels : Levels o source r.siblings r.opened r.cursor.position

theorem Level.push {start stop : Nat} {siblings : List Node} {n : Node}
    (h : Level o source start siblings stop) (hstart : n.span.start = stop)
    (hpos : n.span.start < n.span.stop) (hn : Throughout (Faithful o source) n) :
    Level o source start (n :: siblings) n.span.stop := by
  constructor
  · rw [List.reverse_cons]
    exact h.tile.concat hstart hpos
  · intro m hm
    rcases List.mem_cons.1 hm with rfl | hm
    · exact hn
    · exact h.faithful m hm

/-- The next node becomes the next tile of the innermost level. -/
theorem Levels.push {siblings : List Node} {opened : List (Opening × List Node)} {stop : Nat} {n : Node}
    (h : Levels o source siblings opened stop) (hstart : n.span.start = stop)
    (hpos : n.span.start < n.span.stop) (hn : Throughout (Faithful o source) n) :
    Levels o source (n :: siblings) opened n.span.stop := by
  cases h with
  | outermost h => exact .outermost (h.push hstart hpos hn)
  | inner hopened h houter => exact .inner hopened (h.push hstart hpos hn) houter

/-- The next node has been read from the text `w`. -/
theorem Invariant.push {r : Reader} {d : Cursor} {w : List Char} {n : Node}
    (h : Invariant o source r) (hreads : r.cursor.Reads w d) (hw : w ≠ [])
    (hspan : n.span = ⟨r.cursor.position, d.position⟩) (hn : Throughout (Faithful o source) n) :
    Invariant o source ⟨d, n :: r.siblings, r.opened⟩ := by
  have hlength := Text.byteLength_pos hw
  have hposition := hreads.position_eq
  refine ⟨h.on.of_reads hreads, ?_⟩
  have hlevels := h.levels.push (n := n) (by rw [hspan]) (by rw [hspan]; dsimp only; omega) hn
  rw [hspan] at hlevels
  exact hlevels

theorem invariant_start (o : Dialect) (source : String) :
    Invariant o source ⟨Cursor.start source, [], []⟩ :=
  ⟨Cursor.on_start source, .outermost ⟨.nil, fun _ hn => absurd hn List.not_mem_nil⟩⟩

/-! ## One step -/

/-- An opening tag that begins here: the next tile, or a new level. -/
theorem invariant_of_openTag {r r' : Reader} (hinv : Invariant o source r)
    (hahead : openingAhead r.cursor.rest = true) (h : openTag o r = .ok r') : Invariant o source r' := by
  obtain ⟨opening, d, hopening, hcases⟩ := openTag_cases h
  obtain ⟨more, hreads, htext, hstart, hspan, hnameSpan⟩ :=
    openingText_of_readOpening hahead hopening
  have hslice := hinv.on.slice hreads
  -- the name comes right after the bracket
  have hbracket : r.cursor.Reads ['<']
      ⟨r.cursor.position + 1, opening.tag.name.toList ++ more ++ d.rest⟩ := ⟨hreads.rest_eq, rfl⟩
  have hname : Cursor.Reads ⟨r.cursor.position + 1, opening.tag.name.toList ++ more ++ d.rest⟩
      opening.tag.name.toList ⟨_, more ++ d.rest⟩ := ⟨List.append_assoc _ _ _, rfl⟩
  have hnamed : NameStands source opening.tag ⟨r.cursor.position, d.position⟩ := by
    rw [NameStands, hnameSpan]
    refine ⟨rfl, ?_⟩
    rw [(hinv.on.of_reads hbracket).slice hname, String.ofList_toList]
  rcases hcases with ⟨hopen, -, rfl⟩ | ⟨hclosed, n, hn, rfl⟩
  · -- the tag waits for its closing tag
    have hself : opening.selfClosing = false := by
      simp only [Opening.isOpen, Bool.and_eq_true, Bool.not_eq_true'] at hopen
      exact hopen.1
    have hopened : Opened source opening := by
      refine ⟨hopen, ?_, ?_, '<' :: opening.tag.name.toList ++ more, ?_, ?_⟩
      · rw [hspan, hstart]
      · exact hspan ▸ hnamed
      · exact hspan ▸ hslice
      · exact hself ▸ hstart ▸ htext
    refine ⟨hinv.on.of_reads hreads, .inner hopened ⟨?_, ?_⟩ ?_⟩
    · rw [hspan]
      exact .nil
    · exact fun n hn => absurd hn List.not_mem_nil
    · exact hstart ▸ hinv.levels
  · -- the tag is complete, and becomes a tile by itself
    have halone : opening.selfClosing = true ∨ Element.isVoid opening.tag.name = true := by
      cases hself : opening.selfClosing with
      | true => exact .inl rfl
      | false => exact .inr (by simpa [Opening.isOpen, hself] using hclosed)
    obtain ⟨hfaithful, hnspan⟩ := faithful_of_tagNode hn (hstart ▸ hnamed)
      (.alone halone (hstart ▸ hslice) (hstart ▸ htext))
      (fun m hm => absurd hm List.not_mem_nil)
    exact hinv.push hreads (List.cons_ne_nil _ _) (hstart ▸ hnspan) hfaithful

/-- The closing tag of the innermost level: what it holds becomes a tile of the level below. -/
theorem invariant_of_closeTag {r r' : Reader} {opening : Opening} {before : List Node}
    {outer : List (Opening × List Node)} (hinv : Invariant o source r)
    (hopened : r.opened = (opening, before) :: outer) (hmark : r.cursor.startsWith "</" = true)
    (hahead : closingAhead opening.tag.name r.cursor = true)
    (h : closeTag o r opening before outer = .ok r') : Invariant o source r' := by
  obtain ⟨after, n, hclosing, hn, rfl⟩ := closeTag_eq_ok h
  have hlevels := hinv.levels
  rw [hopened] at hlevels
  cases hlevels with
  | inner hopening hlevel houter =>
    obtain ⟨text, hslice, htext⟩ := hopening.text
    obtain ⟨closing, hreads, hclosingText⟩ :=
      closingText_of_readClosing htext.1 hmark hahead hclosing
    have hclosingSlice := hinv.on.slice hreads
    have hopen := hopening.isOpen
    simp only [Opening.isOpen, Bool.and_eq_true, Bool.not_eq_true'] at hopen
    have hspan : opening.span = ⟨opening.start, opening.span.stop⟩ := by rw [← hopening.start_eq]
    have hnamed : NameStands source opening.tag ⟨opening.start, after.position⟩ := by
      rw [NameStands, ← hopening.start_eq]
      exact hopening.name
    have hstands : Stands source opening.tag.name ⟨opening.start, after.position⟩
        opening.selfClosing r.siblings.reverse := by
      rw [hopen.1]
      exact .around hopen.2 (hspan ▸ hslice) htext hlevel.tile hclosingSlice hclosingText
    obtain ⟨hfaithful, hnspan⟩ := faithful_of_tagNode hn hnamed hstands
      (fun m hm => hlevel.faithful m (List.mem_reverse.1 hm))
    -- the tags and what is between them take up some of the source
    have hpos : opening.start < after.position := by
      have hstop := Span.le_of_slice_eq_some hslice
      have htile := hlevel.tile.le
      have hlength : 0 < Text.byteLength closing := by
        obtain ⟨name', gap, rfl, -⟩ := hclosingText
        exact Text.byteLength_pos (List.cons_ne_nil _ _)
      have hposition := hreads.position_eq
      rw [hspan] at hstop
      dsimp only at hstop
      omega
    refine ⟨hinv.on.of_reads hreads, ?_⟩
    have hpushed := houter.push (n := n) (by rw [hnspan]) (by rw [hnspan]; exact hpos) hfaithful
    rw [hnspan] at hpushed
    exact hpushed

theorem openingAhead_of_formAt {rawText : Bool} {c : Cursor} (h : formAt rawText c = .tag) :
    openingAhead c.rest = true := by
  cases beginsAt_of_formAt h with
  | tag _ hahead => exact hahead

/-- A leaf or an opening tag. -/
theorem invariant_of_readNode {r r' : Reader} (hinv : Invariant o source r)
    (hne : r.cursor.atEnd = false) (h : readNode o r = .ok r') : Invariant o source r' := by
  rcases readNode_cases h with ⟨opening, closing, make, n, d, hform, hn, rfl⟩ | ⟨n, d, htext, rfl⟩ |
    ⟨hform, h⟩
  · obtain ⟨content, hreads, hfirst, rfl⟩ := reads_of_readBetween hn
    have hslice := hinv.on.slice hreads
    rw [String.ofList_append, String.ofList_append, String.ofList_toList, String.ofList_toList] at hslice
    obtain ⟨hfaithful, hspan⟩ := faithful_of_formAt (o := o) hform hslice hfirst
    have hopening : opening.toList ≠ [] := List.length_pos_iff.1 (opening_of_formAt hform)
    refine hinv.push hreads ?_ hspan hfaithful
    rw [List.append_assoc]
    exact List.append_ne_nil_of_left_ne_nil hopening _
  · obtain ⟨content, hcontent, hreads, hn⟩ := reads_of_readText r.inRawText hne
    rw [htext] at hreads hn
    dsimp only at hn
    subst hn
    refine hinv.push hreads hcontent rfl ?_
    exact ⟨hinv.on.slice hreads, fun l hl => by cases hl⟩
  · exact invariant_of_openTag hinv (openingAhead_of_formAt hform) h

/-- Every step keeps the invariant. -/
theorem invariant_of_step {r r' : Reader} (hinv : Invariant o source r)
    (h : step o r = .ok (.next r')) : Invariant o source r' := by
  obtain ⟨hne, ⟨opening, before, outer, hopened, hmark, hahead, h⟩ | h⟩ := step_next_cases h
  · exact invariant_of_closeTag hinv hopened hmark hahead h
  · exact invariant_of_readNode hinv hne h

/-! ## The whole reading -/

/-- A reading that succeeds tiles the source with nodes that are faithful throughout. -/
theorem lossless_of_run {r : Reader} {nodes : List Node} (hinv : Invariant o source r)
    (h : run o r = .ok nodes) :
    Tile 0 nodes (Text.byteLength source.toList) ∧ ∀ n ∈ nodes, Throughout (Faithful o source) n := by
  obtain ⟨last, hlast, hend, hopened, rfl⟩ := run_invariant invariant_of_step hinv h
  -- at the end one level is left
  have hlevels := hlast.levels
  rw [hopened, hlast.on.position_of_atEnd hend] at hlevels
  cases hlevels with
  | outermost h => exact ⟨h.tile, fun n hn => h.faithful n (List.mem_reverse.1 hn)⟩

end Stencil.Template.Reader

namespace Stencil.Template

/-- Reading loses nothing: the nodes of a template tile its source, and every node at every depth is what
    the source has in its spans. -/
theorem parse_lossless {o : Dialect} {source : String} {t : Template} (h : parse o source = .ok t) :
    t.span = ⟨0, Text.byteLength source.toList⟩ ∧ Tile 0 t.children (Text.byteLength source.toList) ∧
      ∀ ns ∈ t.siblingLists, ∀ n ∈ ns, Faithful o source n := by
  unfold parse at h
  cases hrun : Reader.run o ⟨Cursor.start source, [], []⟩ with
  | error e => rw [hrun] at h; cases h
  | ok nodes =>
    rw [hrun] at h
    obtain rfl := by simpa [Except.map] using h
    obtain ⟨htile, hfaithful⟩ := Reader.lossless_of_run (Reader.invariant_start o source) hrun
    exact ⟨rfl, htile, Siblings.forall_mem_lists.2 hfaithful⟩

/-- A component with a named slot behind its text, closed in capitals, and a void element behind it. -/
theorem parse_lossless_component :
    ∃ t, parse {} "<x-a>b<x-slot name=c>\x7b\x7b d \x7d\x7d</x-slot></X-A><br>" = .ok t ∧
      t.siblingLists.map List.length = [2, 1, 1, 0] ∧
      t.span = ⟨0, 47⟩ ∧ Tile 0 t.children 47 ∧
      ∀ ns ∈ t.siblingLists, ∀ n ∈ ns,
        Faithful {} "<x-a>b<x-slot name=c>\x7b\x7b d \x7d\x7d</x-slot></X-A><br>" n := by
  have hshape : (parse {} "<x-a>b<x-slot name=c>\x7b\x7b d \x7d\x7d</x-slot></X-A><br>").toOption.map
      (fun t => t.siblingLists.map List.length) = some [2, 1, 1, 0] := by decide +kernel
  cases ht : parse {} "<x-a>b<x-slot name=c>\x7b\x7b d \x7d\x7d</x-slot></X-A><br>" with
  | error e => rw [ht] at hshape; cases hshape
  | ok t =>
    rw [ht] at hshape
    exact ⟨t, rfl, Option.some.inj hshape, parse_lossless ht⟩

end Stencil.Template
