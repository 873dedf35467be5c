import Stencil.Template.Attributes
import Stencil.Ordered
/-
  From the source of a template to its tree.

  The reader keeps the elements that are open, innermost first, each with the siblings that were complete
  when it was opened.  One step reads a piece: a leaf becomes the next sibling, an opening tag is put on
  the stack, a closing tag takes the innermost element off it and makes it the next sibling.  Inside
  raw text only interpolations and the closing tag of the element itself are read.  Every step uses up
  some of the source, so the reader ends.
-/

namespace Stencil

/-- How tags are told apart, and how deep elements may nest. -/
structure Dialect where
  /-- What the names of components, and of slot markers, begin with. -/
  tagMarker : String := "x-"
  maxDepth : Nat := 128
deriving DecidableEq, Repr, Inhabited

/-- The name of the tag that marks a slot. -/
def Dialect.slotTag (o : Dialect) : String := o.tagMarker ++ "slot"

/-- Whether a tag refers to a component. -/
def Dialect.isComponent (o : Dialect) (tag : String) : Bool :=
  (Text.afterMark o.tagMarker.toList tag.toList).isSome

namespace Template

/-! ## Leaves -/

/-- Whether something other than plain text begins here. -/
def markupAhead (rawText : Bool) : List Char → Bool
  | '{' :: '{' :: _ => true
  | '{' :: '!' :: '!' :: _ => true
  | '<' :: '/' :: _ => true
  | '<' :: c :: _ => !rawText && (c.isAlpha || c == '!' || c == '?')
  | _ => false

/-- Plain text up to where something else begins. -/
def plainText (rawText : Bool) : List Char → List Char
  | [] => []
  | c :: cs => if markupAhead rawText (c :: cs) then [] else c :: plainText rawText cs

/-- The node made of what stands between two marks, the first of which comes next, and the cursor after
    the second mark. -/
def readBetween (opening closing : String) (make : List Char → Span → Node) (c : Cursor) :
    Except TemplateError (Node × Cursor) :=
  match (c.consume? opening).bind fun inside => inside.through? closing with
  | some (content, after) => .ok (make content (after.spanFrom c.position), after)
  | none =>
    .error ⟨.unterminated opening closing,
      ⟨c.position, c.position + Text.byteLength opening.toList⟩⟩

/-- Plain text: the next character whatever it is, and all that is plain after it. -/
def readText (rawText : Bool) (c : Cursor) : Node × Cursor :=
  let content := c.rest.take 1 ++ plainText rawText c.rest.tail
  let after : Cursor :=
    ⟨c.position + Text.byteLength content, c.rest.drop content.length⟩
  (.text (String.ofList content) (after.spanFrom c.position), after)

/-- Whether an opening tag begins here. -/
def openingAhead : List Char → Bool
  | '<' :: c :: _ => c.isAlpha
  | _ => false

/-- What begins at a place that is neither the end nor a closing tag. -/
inductive Form where
  /-- A leaf between two marks. -/
  | between (opening closing : String) (make : List Char → Span → Node)
  | plain
  | tag

/-- A remark. -/
def commentForm : Form :=
  .between "\x7b\x7b--" "--\x7d\x7d" fun content span => .comment (String.ofList content) span

/-- An interpolated expression between two marks. -/
def expressionForm (opening closing : String) (escaped : Bool) : Form :=
  .between opening closing fun content span =>
    .expression (String.ofList (Text.trim content)) escaped span

/-- Markup that is copied with its marks. -/
def verbatimForm (opening closing : String) : Form :=
  .between opening closing fun content span =>
    .text (opening ++ String.ofList content ++ closing) span

/-- What begins at a cursor. -/
def formAt (rawText : Bool) (c : Cursor) : Form :=
  if c.startsWith "\x7b\x7b--" then commentForm
  else if c.startsWith "\x7b!!" then expressionForm "\x7b!!" "!!\x7d" false
  else if c.startsWith "\x7b\x7b" then expressionForm "\x7b\x7b" "\x7d\x7d" true
  else if rawText then .plain
  else if c.startsWith "<!--" then verbatimForm "<!--" "-->"
  else if c.startsWith "<!" || c.startsWith "<?" then verbatimForm "<" ">"
  else if openingAhead c.rest then .tag
  else .plain

/-- What a form says of the place where it begins. -/
inductive Form.BeginsAt (rawText : Bool) (c : Cursor) : Form → Prop where
  | comment (h : c.startsWith "\x7b\x7b--" = true) : BeginsAt rawText c commentForm
  | raw (h : c.startsWith "\x7b!!" = true) : BeginsAt rawText c (expressionForm "\x7b!!" "!!\x7d" false)
  | escaped (h : c.startsWith "\x7b\x7b" = true) :
      BeginsAt rawText c (expressionForm "\x7b\x7b" "\x7d\x7d" true)
  | remark (hraw : rawText = false) (h : c.startsWith "<!--" = true) :
      BeginsAt rawText c (verbatimForm "<!--" "-->")
  | declaration (hraw : rawText = false) (hremark : c.startsWith "<!--" = false)
      (h : c.startsWith "<!" = true ∨ c.startsWith "<?" = true) : BeginsAt rawText c (verbatimForm "<" ">")
  | tag (hraw : rawText = false) (h : openingAhead c.rest = true) : BeginsAt rawText c .tag
  | plain : BeginsAt rawText c .plain

theorem beginsAt_formAt (rawText : Bool) (c : Cursor) : (formAt rawText c).BeginsAt rawText c := by
  unfold formAt
  split
  · next h => exact .comment h
  split
  · next h => exact .raw h
  split
  · next h => exact .escaped h
  split
  · exact .plain
  next hraw =>
  have hraw : rawText = false := by simpa using hraw
  split
  · next h => exact .remark hraw h
  next hremark =>
  split
  · next h => exact .declaration hraw (by simpa using hremark) (Bool.or_eq_true_iff.1 h)
  split
  · next h => exact .tag hraw h
  · exact .plain

theorem beginsAt_of_formAt {rawText : Bool} {c : Cursor} {form : Form} (h : formAt rawText c = form) :
    form.BeginsAt rawText c := h ▸ beginsAt_formAt rawText c

/-! ## Tags -/

/-- An opening tag: where it begins, its name, its attributes, and its span. -/
structure Opening where
  start : Nat
  tag : Tag
  selfClosing : Bool
  span : Span

/-- Whether an opening tag is waiting for a closing one. -/
def Opening.isOpen (o : Opening) : Bool := !o.selfClosing && !Element.isVoid o.tag.name

/-- The opening tag that begins here, and the cursor after it. -/
def readOpening (c : Cursor) : Except TemplateError (Opening × Cursor) := do
  let inside : Cursor := (c.consume? "<").getD c
  let (name, after) := (inside.tagName?).getD ([], inside)
  let tag := String.ofList name
  let (written, ending) := Tag.readAttributes tag c.position after
  let (attributes, directives) ← Tag.sort written
  let ending ← ending
  .ok (⟨c.position, ⟨tag, attributes, directives, after.spanFrom inside.position, {}⟩,
    ending.selfClosing, ending.after.spanFrom c.position⟩, ending.after)

/-- Whether the closing tag of an element begins here: its name, and then the end or a blank. -/
def closingAhead (tag : String) (c : Cursor) : Bool :=
  match c.afterIgnoringCase? ("</" ++ tag) with
  | some (d :: _) => d == '>' || d == ' ' || d == '\t' || d == '\n' || d == '\r'
  | _ => false

/-- The name in the closing tag that begins here, and the cursor after it. -/
def closingName (c : Cursor) : List Char × Cursor :=
  let inside := (c.consume? "</").getD c
  (inside.tagName?).getD ([], inside)

/-- The cursor after the closing tag of an element that begins here. -/
def readClosing (tag : String) (c : Cursor) : Except TemplateError Cursor :=
  let after := (closingName c).2.skipBlanks
  match after.consume? ">" with
  | some after => .ok after
  | none => .error ⟨.unterminated s!"</{tag}" ">", after.spanFrom c.position⟩

/-- The error of a closing tag that does not close the innermost element. -/
def unexpectedClosing (opened : Option String) (c : Cursor) : TemplateError :=
  let (name, after) := closingName c
  ⟨.unexpectedClosing (String.ofList name) opened, after.spanFrom c.position⟩

/-! ## Nodes of tags -/

/-- The first directive of a slot marker, which must have none. -/
def slotDirective? (d : Directives) : Option (String × Span) :=
  match d.condition, d.loop with
  | some condition, _ => some (condition.test.kind.written, condition.span)
  | none, some (.foreach loop) => some (":foreach", loop.span)
  | none, some (.forelse fallback) => some (":forelse", fallback.span)
  | none, none => none

/-- The name a slot marker is given by its attributes; the last one called `name` counts. -/
def slotName : List Attribute → Except TemplateError (Option String)
  | attributes => attributes.foldlM (fun name a =>
      if a.name == "name" then
        match a.value with
        | .expression _ => .error ⟨.computedSlotName, a.span⟩
        | .literal text => .ok (some text)
        | .bare => .ok none
      else .ok name) none

/-- A slot marker. -/
def slotNode (tag : Tag) (children : List Node) (span : Span) : Except TemplateError Node :=
  match slotDirective? tag.directives with
  | some (name, span) => .error ⟨.directive name (.onSlot tag.name), span⟩
  | none => (slotName tag.attributes).map fun name => .slot name children span

/-- Add content to a named slot, which is new or grows. -/
def addToSlot (slots : List (String × List Node)) (name : String) (content : List Node) :
    List (String × List Node) :=
  Ordered.put slots name ((Ordered.get? slots name).getD [] ++ content)

/-- Tell a child of a component from those before it: what a slot marker with a name holds goes to that
    slot, and all else, with what a marker named `default` holds, stays. -/
def placeChild (placed : List Node × List (String × List Node)) (child : Node) :
    List Node × List (String × List Node) :=
  match child with
  | .slot (some name) content _ =>
    if name == "default" then (placed.1 ++ content, placed.2)
    else (placed.1, addToSlot placed.2 name content)
  | other => (placed.1 ++ [other], placed.2)

/-- Tell the children of a component apart. -/
def liftSlots (children : List Node) : List Node × List (String × List Node) :=
  children.foldl placeChild ([], [])

/-- The node of a tag that is complete: a slot marker, a component or an element, by its name. -/
def tagNode (o : Dialect) (opening : Opening) (children : List Node) (stop : Nat) :
    Except TemplateError Node :=
  let span : Span := ⟨opening.start, stop⟩
  if opening.tag.name == o.slotTag then slotNode opening.tag children span
  else if o.isComponent opening.tag.name then
    let (children, slots) := liftSlots children
    .ok (.component opening.tag children slots span)
  else .ok (.element opening.tag opening.selfClosing children span)

/-! ## The reader -/

/-- Where the reader is: the cursor, the siblings read since the innermost opening tag, back to front,
    and the open elements, each with the siblings before it. -/
structure Reader where
  cursor : Cursor
  siblings : List Node
  opened : List (Opening × List Node)

/-- What a step of the reader leads to. -/
inductive Reader.Step where
  | done (nodes : List Node)
  | next (r : Reader)

namespace Reader

/-- Whether the innermost open element holds raw text. -/
def inRawText (r : Reader) : Bool :=
  match r.opened with
  | (opening, _) :: _ => Element.isRawText opening.tag.name
  | [] => false

/-- Read an opening tag: a tag without content is complete, any other is put on the stack. -/
def openTag (o : Dialect) (r : Reader) : Except TemplateError Reader := do
  let (opening, after) ← readOpening r.cursor
  if opening.isOpen then
    if r.opened.length ≥ o.maxDepth then
      .error ⟨.nestedTooDeeply o.maxDepth, after.spanFrom opening.start⟩
    else .ok ⟨after, [], (opening, r.siblings) :: r.opened⟩
  else
    let node ← tagNode o opening [] after.position
    .ok ⟨after, node :: r.siblings, r.opened⟩

/-- Read the closing tag of the innermost open element. -/
def closeTag (o : Dialect) (r : Reader) (opening : Opening) (before : List Node)
    (outer : List (Opening × List Node)) : Except TemplateError Reader := do
  let after ← readClosing opening.tag.name r.cursor
  let node ← tagNode o opening r.siblings.reverse after.position
  .ok ⟨after, node :: before, outer⟩

/-- Read a leaf or an opening tag. -/
def readNode (o : Dialect) (r : Reader) : Except TemplateError Reader :=
  match formAt r.inRawText r.cursor with
  | .between opening closing make => do
    let (node, after) ← readBetween opening closing make r.cursor
    .ok ⟨after, node :: r.siblings, r.opened⟩
  | .plain =>
    let (node, after) := readText r.inRawText r.cursor
    .ok ⟨after, node :: r.siblings, r.opened⟩
  | .tag => openTag o r

/-- Read what comes next. -/
def step (o : Dialect) (r : Reader) : Except TemplateError Step :=
  if r.cursor.atEnd then
    match r.opened with
    | (opening, _) :: _ => .error ⟨.unclosedTag opening.tag.name, opening.span⟩
    | [] => .ok (.done r.siblings.reverse)
  else if r.cursor.startsWith "</" then
    match r.opened with
    | [] => .error (unexpectedClosing none r.cursor)
    | (opening, before) :: outer =>
      if closingAhead opening.tag.name r.cursor then .next <$> closeTag o r opening before outer
      else if Element.isRawText opening.tag.name then .next <$> readNode o r
      else .error (unexpectedClosing (some opening.tag.name) r.cursor)
  else .next <$> readNode o r

/-! ## What a step does -/

/-- A success of one reading after another is a success of both. -/
theorem bind_eq_ok {ε α β : Type} {x : Except ε α} {f : α → Except ε β} {b : β}
    (h : (x >>= f) = .ok b) : ∃ a, x = .ok a ∧ f a = .ok b := by
  cases x with
  | error e => cases h
  | ok a => exact ⟨a, rfl, h⟩

theorem map_next_eq_ok {x : Except TemplateError Reader} {r : Reader}
    (h : Step.next <$> x = .ok (.next r)) : x = .ok r := by
  cases x with
  | error e => cases h
  | ok r' =>
    simp only [Functor.map, Except.map, Except.ok.injEq, Step.next.injEq] at h
    rw [h]

/-- A tag that waits for its closing tag begins a level that the limit allows; any other is a node. -/
theorem openTag_cases {o : Dialect} {r r' : Reader} (h : openTag o r = .ok r') :
    ∃ opening after, readOpening r.cursor = .ok (opening, after) ∧
      (opening.isOpen = true ∧ r.opened.length < o.maxDepth ∧
          r' = ⟨after, [], (opening, r.siblings) :: r.opened⟩ ∨
        opening.isOpen = false ∧ ∃ n, tagNode o opening [] after.position = .ok n ∧
          r' = ⟨after, n :: r.siblings, r.opened⟩) := by
  obtain ⟨⟨opening, after⟩, hopening, h⟩ := bind_eq_ok h
  refine ⟨opening, after, hopening, ?_⟩
  dsimp only at h
  split at h
  · next hopen =>
    split at h
    · cases h
    · next hdepth => exact .inl ⟨hopen, Nat.lt_of_not_le hdepth, (Except.ok.inj h).symm⟩
  · next hclosed =>
    obtain ⟨n, hn, h⟩ := bind_eq_ok h
    exact .inr ⟨by simpa using hclosed, n, hn, (Except.ok.inj h).symm⟩

/-- What the innermost level holds becomes a node of the level below. -/
theorem closeTag_eq_ok {o : Dialect} {r r' : Reader} {opening : Opening} {before : List Node}
    {outer : List (Opening × List Node)} (h : closeTag o r opening before outer = .ok r') :
    ∃ after n, readClosing opening.tag.name r.cursor = .ok after ∧
      tagNode o opening r.siblings.reverse after.position = .ok n ∧
      r' = ⟨after, n :: before, outer⟩ := by
  obtain ⟨after, hafter, h⟩ := bind_eq_ok h
  obtain ⟨n, hn, h⟩ := bind_eq_ok h
  exact ⟨after, n, hafter, hn, (Except.ok.inj h).symm⟩

/-- A leaf becomes a node of the innermost level. -/
theorem readNode_cases {o : Dialect} {r r' : Reader} (h : readNode o r = .ok r') :
    (∃ opening closing make n after,
      formAt r.inRawText r.cursor = .between opening closing make ∧
      readBetween opening closing make r.cursor = .ok (n, after) ∧
      r' = ⟨after, n :: r.siblings, r.opened⟩) ∨
    (∃ n after, readText r.inRawText r.cursor = (n, after) ∧ r' = ⟨after, n :: r.siblings, r.opened⟩) ∨
    (formAt r.inRawText r.cursor = .tag ∧ openTag o r = .ok r') := by
  unfold readNode at h
  split at h
  · next opening closing make hform =>
    obtain ⟨⟨n, after⟩, hn, h⟩ := bind_eq_ok h
    exact .inl ⟨opening, closing, make, n, after, hform, hn, (Except.ok.inj h).symm⟩
  · exact .inr (.inl ⟨_, _, rfl, (Except.ok.inj h).symm⟩)
  · next hform => exact .inr (.inr ⟨hform, h⟩)

/-- Before the end of the source a step reads the closing tag of the innermost level, or a node. -/
theorem step_next_cases {o : Dialect} {r r' : Reader} (h : step o r = .ok (.next r')) :
    r.cursor.atEnd = false ∧
      ((∃ opening before outer, r.opened = (opening, before) :: outer ∧
          r.cursor.startsWith "</" = true ∧ closingAhead opening.tag.name r.cursor = true ∧
          closeTag o r opening before outer = .ok r') ∨
        readNode o r = .ok r') := by
  unfold step at h
  split at h
  · split at h <;> cases h
  · next hend =>
    refine ⟨by simpa using hend, ?_⟩
    split at h
    · next hmark =>
      split at h
      · cases h
      · next opening before outer hopened =>
        split at h
        · next hahead =>
          exact .inl ⟨opening, before, outer, hopened, hmark, hahead, map_next_eq_ok h⟩
        · split at h
          · exact .inr (map_next_eq_ok h)
          · cases h
    · exact .inr (map_next_eq_ok h)

/-- Only at the end of the source, and outside all elements, is a step the last one. -/
theorem step_done {o : Dialect} {r : Reader} {nodes : List Node} (h : step o r = .ok (.done nodes)) :
    r.cursor.atEnd = true ∧ r.opened = [] ∧ r.siblings.reverse = nodes := by
  have hmap : ∀ {x : Except TemplateError Reader}, Step.next <$> x ≠ .ok (.done nodes) := by
    intro x hx
    cases x <;> cases hx
  unfold step at h
  split at h
  · next hend =>
    split at h
    · cases h
    · next hopened => exact ⟨hend, hopened, by simpa using h⟩
  · split at h
    · split at h
      · cases h
      · split at h
        · exact absurd h hmap
        · split at h
          · exact absurd h hmap
          · cases h
    · exact absurd h hmap

/-! ## Every step uses something up -/

theorem left_of_readBetween {opening closing : String} {make : List Char → Span → Node}
    {c d : Cursor} {n : Node} (h : readBetween opening closing make c = .ok (n, d))
    (hne : 0 < opening.toList.length) : d.left < c.left := by
  unfold readBetween at h
  split at h
  · next content after hb =>
    obtain ⟨c', hc, ht⟩ := Option.bind_eq_some_iff.1 hb
    obtain ⟨_, rfl⟩ := by simpa using h
    have h1 := Cursor.left_of_consume? hc
    have h2 := Cursor.left_of_through? ht
    omega
  · cases h

theorem opening_of_formAt {rawText : Bool} {c : Cursor} {opening closing : String}
    {make : List Char → Span → Node} (h : formAt rawText c = .between opening closing make) :
    0 < opening.toList.length := by
  cases beginsAt_of_formAt h <;> decide

theorem left_of_readText {rawText : Bool} {c : Cursor} (h : c.atEnd = false) :
    (readText rawText c).2.left < c.left := by
  have hpos : 0 < c.rest.length := List.length_pos_iff.2 (by simpa [Cursor.atEnd] using h)
  simp only [readText, Cursor.left, List.length_drop, List.length_append, List.length_take]
  omega

theorem left_consume?_getD (c : Cursor) (mark : String) : ((c.consume? mark).getD c).left ≤ c.left := by
  cases h : c.consume? mark with
  | none => exact Nat.le_refl _
  | some d => have := Cursor.left_of_consume? h; simp only [Option.getD_some]; omega

theorem left_tagName?_getD (c : Cursor) : ((c.tagName?).getD ([], c)).2.left ≤ c.left := by
  cases h : c.tagName? with
  | none => exact Nat.le_refl _
  | some found =>
    obtain ⟨name, d⟩ := found
    exact Cursor.left_of_tagName? h

theorem left_of_readOpening {c d : Cursor} {opening : Opening}
    (h : readOpening c = .ok (opening, d)) : d.left < c.left := by
  have h1 := left_consume?_getD c "<"
  have h2 := left_tagName?_getD ((c.consume? "<").getD c)
  obtain ⟨_, _, h⟩ := bind_eq_ok h
  obtain ⟨ending, he, h⟩ := bind_eq_ok h
  obtain ⟨_, rfl⟩ := by simpa using h
  exact Nat.lt_of_lt_of_le (Tag.left_of_readAttributes (Prod.ext rfl he)) (Nat.le_trans h2 h1)

theorem left_of_readClosing {tag : String} {c d : Cursor} (h : readClosing tag c = .ok d) :
    d.left < c.left := by
  have h1 := left_consume?_getD c "</"
  have h2 := left_tagName?_getD ((c.consume? "</").getD c)
  have h3 := Cursor.left_skipBlanks_le (closingName c).2
  unfold readClosing at h
  simp only at h
  split at h
  · next after ha =>
    obtain rfl := by simpa using h
    have := Cursor.left_of_consume? ha
    have : ">".toList.length = 1 := rfl
    simp only [closingName] at *
    omega
  · cases h

theorem left_of_openTag {o : Dialect} {r r' : Reader} (h : openTag o r = .ok r') :
    r'.cursor.left < r.cursor.left := by
  obtain ⟨opening, after, hopening, ⟨-, -, rfl⟩ | ⟨-, n, -, rfl⟩⟩ := openTag_cases h
  · exact left_of_readOpening hopening
  · exact left_of_readOpening hopening

theorem left_of_readNode {o : Dialect} {r r' : Reader} (h : readNode o r = .ok r')
    (he : r.cursor.atEnd = false) : r'.cursor.left < r.cursor.left := by
  rcases readNode_cases h with ⟨opening, closing, make, n, after, hform, hn, rfl⟩ | ⟨n, after, hn, rfl⟩ |
    ⟨-, h⟩
  · exact left_of_readBetween hn (opening_of_formAt hform)
  · have hleft : (readText r.inRawText r.cursor).2.left < r.cursor.left := left_of_readText he
    rwa [hn] at hleft
  · exact left_of_openTag h

/-- A step that does not end the reader uses up some of the source. -/
theorem left_of_step {o : Dialect} {r r' : Reader} (h : step o r = .ok (.next r')) :
    r'.cursor.left < r.cursor.left := by
  obtain ⟨hne, ⟨opening, before, outer, -, -, -, h⟩ | h⟩ := step_next_cases h
  · obtain ⟨after, n, hafter, -, rfl⟩ := closeTag_eq_ok h
    exact left_of_readClosing hafter
  · exact left_of_readNode h hne

/-- Read to the end of the source. -/
def run (o : Dialect) (r : Reader) : Except TemplateError (List Node) :=
  match h : step o r with
  | .error e => .error e
  | .ok (.done nodes) => .ok nodes
  | .ok (.next r') =>
    have := left_of_step h
    run o r'
termination_by r.cursor.left

/-- What every step keeps holds at the end of the source, outside all elements, of the reader that hands
    out its siblings. -/
theorem run_invariant {o : Dialect} {I : Reader → Prop}
    (hstep : ∀ {r r' : Reader}, I r → step o r = .ok (.next r') → I r') {r : Reader}
    {nodes : List Node} (hr : I r) (h : run o r = .ok nodes) :
    ∃ last : Reader, I last ∧ last.cursor.atEnd = true ∧ last.opened = [] ∧
      last.siblings.reverse = nodes := by
  fun_induction run o r with
  | case1 r e hlast => cases h
  | case2 r nodes' hlast =>
    obtain rfl := Except.ok.inj h
    exact ⟨r, hr, step_done hlast⟩
  | case3 r r' hnext _ ih => exact ih (hstep hr hnext) h

end Reader

/-- The tree of a source, as it is written. -/
def parse (o : Dialect) (source : String) : Except TemplateError Template :=
  (Reader.run o ⟨Cursor.start source, [], []⟩).map fun nodes =>
    ⟨nodes, ⟨0, Text.byteLength source.toList⟩⟩

/-- The nodes of a template that is read are those the reader hands out at the end. -/
theorem parse_eq_ok {o : Dialect} {source : String} {t : Template} (h : parse o source = .ok t) :
    Reader.run o ⟨Cursor.start source, [], []⟩ = .ok t.children := by
  unfold parse at h
  cases hrun : Reader.run o ⟨Cursor.start source, [], []⟩ with
  | error err => rw [hrun] at h; cases h
  | ok nodes =>
    rw [hrun] at h
    obtain rfl := Except.ok.inj h
    rfl

end Template

end Stencil
