import Stencil.Proofs.Template.TagsRead
/-
  Where the errors of opening tags point.

  An error points into a source when its span covers a piece of the source that is not empty, and the piece is
  what the problem is about: a mark that is never closed, a character that cannot stand where it does, an
  attribute with its value or without one.  A directive that cannot apply is told by its name, and the piece
  is then the attribute which it was written as.

  Most errors of a tag point from a place that was read to one behind it.  The errors of sorting point to an
  attribute, and every attribute that was read stands in the source where its span says, also where the tag
  is never read to its end.
-/

namespace Stencil

open Text (byteLength)

/-! ## Failures -/

namespace Template.Reader

/-- A failure of one reading after another is a failure of the first, or of the second after it. -/
theorem bind_eq_error {ε α β : Type} {x : Except ε α} {f : α → Except ε β} {e : ε}
    (h : (x >>= f) = .error e) : x = .error e ∨ ∃ a, x = .ok a ∧ f a = .error e := by
  cases x with
  | error e' =>
    obtain rfl := Except.error.inj h
    exact .inl rfl
  | ok a => exact .inr ⟨a, rfl, h⟩

theorem map_eq_error {ε α β : Type} {x : Except ε α} {f : α → β} {e : ε} (h : x.map f = .error e) :
    x = .error e := by
  cases x with
  | error e' => exact congrArg Except.error (Except.error.inj h)
  | ok a => cases h

end Template.Reader

/-! ## Pieces of a source -/

namespace Cursor

/-- One cursor stands behind another, and the text in between begins with `front`. -/
def Passes (c : Cursor) (front : List Char) (d : Cursor) : Prop := ∃ w, front <+: w ∧ c.Reads w d

theorem Passes.reads {c d e : Cursor} {front w : List Char} (h : c.Passes front d) (hreads : d.Reads w e) :
    c.Passes front e := by
  obtain ⟨v, hv, hfront⟩ := h
  exact ⟨v ++ w, hv.trans (List.prefix_append v w), hfront.trans hreads⟩

theorem Reads.passes {c d : Cursor} {w : List Char} (h : c.Reads w d) : c.Passes w d :=
  ⟨w, List.prefix_rfl, h⟩

end Cursor

/-- What a problem says of the piece of the source it is about, and of the text after that piece. -/
def TemplateProblem.Describes (after piece : List Char) : TemplateProblem → Prop
  | .unclosedTag tag => '<' :: tag.toList <+: piece
  -- the name of a closing tag may be written in another case
  | .unterminated opening _ =>
    ∃ front, front <+: piece ∧ front.map Char.toLower = opening.toList.map Char.toLower
  | .unexpectedClosing tag _ => piece = '<' :: '/' :: tag.toList
  | .nestedTooDeeply _ => ['<'] <+: piece
  | .unexpectedCharacter found _ => piece = [found]
  | .unterminatedValue name => name.toList <+: piece
  | .missingValue name => name.toList <+: piece
  | .valueRequired name => Tag.AttributeText after piece name none
  | .loopExpression value => Tag.AttributeText after piece ":foreach" (some value)
  | .computedSlotName => ∃ value, Tag.AttributeText after piece ":name" (some value)
  | .directive name _ =>
    name ∈ Tag.conditionNames ++ Tag.loopNames ∧ ∃ value, Tag.AttributeText after piece name value

namespace TemplateError

/-- An error points to a piece of a text, with what stands before it and after it. -/
structure PointsTo (e : TemplateError) (before piece after : List Char) : Prop where
  nonempty : piece ≠ []
  span_eq : e.span = ⟨byteLength before, byteLength before + byteLength piece⟩
  describes : e.problem.Describes after piece

/-- An error points into a source. -/
def PointsInto (source : String) (e : TemplateError) : Prop :=
  ∃ before piece after, source.toList = before ++ piece ++ after ∧ e.PointsTo before piece after

variable {source : String} {c d : Cursor} {problem : TemplateProblem}

/-- A problem with what was read points to it. -/
theorem pointsInto_of_reads {w : List Char} (hon : c.On source) (h : c.Reads w d) (hw : w ≠ [])
    (hproblem : problem.Describes d.rest w) : PointsInto source ⟨problem, d.spanFrom c.position⟩ := by
  obtain ⟨before, hsource, hposition⟩ := hon
  refine ⟨before, w, d.rest, ?_, hw, ?_, hproblem⟩
  · rw [hsource, h.rest_eq, List.append_assoc]
  · rw [Cursor.spanFrom, h.position_eq, hposition]

theorem pointsInto_of_passes {front : List Char} (hon : c.On source) (h : c.Passes front d) (hfront : front ≠ [])
    (hproblem : ∀ after piece, front <+: piece → problem.Describes after piece) :
    PointsInto source ⟨problem, d.spanFrom c.position⟩ := by
  obtain ⟨w, hw, hreads⟩ := h
  refine pointsInto_of_reads hon hreads ?_ (hproblem _ _ hw)
  rintro rfl
  exact hfront (List.prefix_nil.1 hw)

end TemplateError

/-! ## Attributes -/

/-- An attribute stands in a source where its span says. -/
def WrittenAttribute.PlacedIn (source : String) (a : WrittenAttribute) : Prop :=
  ∃ before text after, source.toList = before ++ text ++ after ∧
    a.span = ⟨byteLength before, byteLength before + byteLength text⟩ ∧
    Tag.AttributeText after text a.name a.value

namespace Tag

open Template.Reader (bind_eq_error map_eq_error)
open TemplateError (pointsInto_of_passes pointsInto_of_reads)

variable {source : String}

/-- An attribute begins with its name. -/
theorem AttributeText.name_prefix {next text : List Char} {name : String} {value : Option String}
    (h : AttributeText next text name value) : name.toList <+: text ∧ text ≠ [] := by
  cases h with
  | bare hname =>
    rw [String.toList_ofList]
    exact ⟨List.prefix_append _ _, List.append_ne_nil_of_left_ne_nil hname.nonempty _⟩
  | valued hname =>
    rw [String.toList_ofList]
    refine ⟨?_, ?_⟩
    · rw [List.append_assoc, List.append_assoc]
      exact List.prefix_append _ _
    · exact List.append_ne_nil_of_left_ne_nil
        (List.append_ne_nil_of_left_ne_nil (List.append_ne_nil_of_left_ne_nil hname.nonempty _) _) _

theorem placedIn_of_reads {c d : Cursor} {a : WrittenAttribute} {text : List Char} (hon : c.On source)
    (hreads : c.Reads text d) (htext : AttributeText d.rest text a.name a.value)
    (hspan : a.span = ⟨c.position, d.position⟩) : a.PlacedIn source := by
  obtain ⟨before, hsource, hposition⟩ := hon
  refine ⟨before, text, d.rest, ?_, ?_, htext⟩
  · rw [hsource, hreads.rest_eq, List.append_assoc]
  · rw [hspan, hreads.position_eq, hposition]

/-- An error is about an attribute: it has its span, and describes it. -/
structure About (e : TemplateError) (a : WrittenAttribute) : Prop where
  span_eq : e.span = a.span
  describes : ∀ {after piece : List Char}, AttributeText after piece a.name a.value →
    e.problem.Describes after piece

theorem About.pointsInto {e : TemplateError} {a : WrittenAttribute} (h : About e a)
    (ha : a.PlacedIn source) : e.PointsInto source := by
  obtain ⟨before, text, after, hsource, hspan, htext⟩ := ha
  exact ⟨before, text, after, hsource, htext.name_prefix.2, h.span_eq.trans hspan, h.describes htext⟩

/-! ## Reading attributes -/

/-- A value that cannot be read is missing, or its quote is never closed. -/
theorem pointsInto_of_readValue {name : String} {s c : Cursor} {e : TemplateError} (hs : s.On source)
    (hc : s.Passes name.toList c) (hname : name.toList ≠ []) (h : readValue name s.position c = .error e) :
    e.PointsInto source := by
  unfold readValue at h
  split at h
  · split at h
    · cases h
    · obtain rfl := Except.error.inj h
      exact pointsInto_of_passes hs hc hname fun _ _ hfront => hfront
  · dsimp only at h
    split at h
    · obtain rfl := Except.error.inj h
      exact pointsInto_of_passes hs (hc.reads (c.reads_takeWhile _)) hname fun _ _ hfront => hfront
    · cases h

theorem pointsInto_of_readAttribute {name : String} {s c : Cursor} {e : TemplateError} (hs : s.On source)
    (hc : s.Passes name.toList c) (hname : name.toList ≠ [])
    (h : readAttribute name s.position c = .failed e) : e.PointsInto source := by
  unfold readAttribute at h
  split at h
  · cases h
  · next after hequals =>
    split at h
    · next e' hvalue =>
      obtain rfl := Part.failed.inj h
      have hbehind := (hc.reads (Cursor.reads_of_consume? hequals)).reads after.reads_skipBlanks
      exact pointsInto_of_readValue hs hbehind hname hvalue
    · cases h

/-- A part that cannot be read: the source ends, or a character stands where none can, or a value is at
    fault. -/
theorem pointsInto_of_readPart {tag : String} {s c : Cursor} {e : TemplateError} (hs : s.On source)
    (hc : s.Passes ('<' :: tag.toList) c) (h : readPart tag s.position c = .failed e) : e.PointsInto source := by
  have hbehind := hc.reads c.reads_skipBlanks
  obtain ⟨w, -, hreads⟩ := hc.reads c.reads_skipBlanks
  have hon := hs.of_reads hreads
  unfold readPart at h
  dsimp only at h
  split at h
  · obtain rfl := Part.failed.inj h
    have hmark : (s!"<{tag}").toList = '<' :: tag.toList := String.toList_append
    refine pointsInto_of_passes hs hbehind (List.cons_ne_nil _ _) fun _ _ hfront => ⟨_, hfront, ?_⟩
    rw [hmark]
  · next hend =>
    split at h
    · cases h
    · cases h
    · split at h
      · split at h
        · cases h
        · obtain rfl := Part.failed.inj h
          obtain ⟨ch, rest, hrest⟩ : ∃ ch rest, c.skipBlanks.rest = ch :: rest :=
            List.exists_cons_of_ne_nil fun hnil => hend (List.isEmpty_iff.2 hnil)
          have hnext : c.skipBlanks.Reads [ch] ⟨c.skipBlanks.position + ch.utf8Size, rest⟩ := ⟨hrest, rfl⟩
          rw [Cursor.peek, hrest, List.head?_cons, Option.getD_some]
          exact pointsInto_of_reads hon hnext (List.cons_ne_nil _ _) rfl
      · next hname =>
        have hnonempty : c.skipBlanks.attributeName.1 ≠ [] := by simpa using hname
        have hpasses : c.skipBlanks.Passes c.skipBlanks.attributeName.1 c.skipBlanks.attributeName.2.skipBlanks :=
          (c.skipBlanks.reads_takeWhile _).passes.reads (Cursor.reads_skipBlanks _)
        rw [← String.toList_ofList (l := c.skipBlanks.attributeName.1)] at hpasses hnonempty
        exact pointsInto_of_readAttribute hon hpasses hnonempty h

/-- The attributes that are read stand in the source, and so does what keeps the rest from being read. -/
theorem placed_of_readAttributes {tag : String} {s c : Cursor} (hs : s.On source)
    (hc : s.Passes ('<' :: tag.toList) c) :
    (∀ a ∈ (readAttributes tag s.position c).1, a.PlacedIn source) ∧
      ∀ e, (readAttributes tag s.position c).2 = .error e → e.PointsInto source := by
  have hpart := readFrom_readPart tag s.position c
  generalize htagStart : s.position = tagStart at hpart ⊢
  fun_induction readAttributes tag tagStart c with
  | case1 c ending hp => exact ⟨fun _ ha => absurd ha List.not_mem_nil, fun e he => by cases he⟩
  | case2 c e hp =>
    refine ⟨fun _ ha => absurd ha List.not_mem_nil, fun e' he => ?_⟩
    obtain rfl := Except.error.inj he
    exact pointsInto_of_readPart hs hc (htagStart ▸ hp)
  | case3 c after hp hlt ih =>
    rw [hp] at hpart
    exact ih ((hc.reads c.reads_skipBlanks).reads hpart.1) (readFrom_readPart tag tagStart after)
  | case4 c a after hp hlt more ending hr ih =>
    rw [hp] at hpart
    obtain ⟨text, hreads, htext, hspan⟩ := hpart
    obtain ⟨w, -, hblanks⟩ := hc.reads c.reads_skipBlanks
    rw [hr] at ih
    obtain ⟨hmore, hending⟩ := ih ((hc.reads c.reads_skipBlanks).reads hreads) (readFrom_readPart tag tagStart after)
    exact ⟨List.forall_mem_cons.2 ⟨placedIn_of_reads (hs.of_reads hblanks) hreads htext hspan, hmore⟩, hending⟩

/-! ## Sorting attributes -/

theorem about_of_required {a : WrittenAttribute} {e : TemplateError} (h : required a = .error e) : About e a := by
  unfold required at h
  split at h
  next => cases h
  next hnone =>
    obtain rfl := Except.error.inj h
    refine ⟨rfl, fun htext => ?_⟩
    rw [hnone] at htext
    exact htext

theorem about_of_parse {a : WrittenAttribute} {value : String} {position : Nat} {e : TemplateError}
    (hname : a.name = ":foreach") (hvalue : a.value = some value)
    (h : Foreach.parse value position a.span = .error e) : About e a := by
  unfold Foreach.parse at h
  split at h
  next => cases h
  next =>
    obtain rfl := Except.error.inj h
    refine ⟨rfl, fun htext => ?_⟩
    rw [hname, hvalue] at htext
    exact htext

/-- A directive that cannot apply is refused by its name. -/
theorem about_of_directive {a : WrittenAttribute} {name : String} {problem : DirectiveProblem} {s : Span}
    (hname : name = a.name) (hmem : a.name ∈ conditionNames ++ loopNames) (hspan : s = a.span) :
    About ⟨.directive name problem, s⟩ a := by
  subst hname
  exact ⟨hspan, fun htext => ⟨hmem, a.value, htext⟩⟩

theorem about_of_addCondition {s : Sorted} {a : WrittenAttribute} {position : Nat}
    {test : Except TemplateError Test} {e : TemplateError} (hname : a.name ∈ conditionNames)
    (htest : ∀ e, test = .error e → About e a) (h : s.addCondition a position test = .error e) : About e a := by
  unfold Sorted.addCondition at h
  split at h
  · obtain rfl := Except.error.inj h
    exact about_of_directive rfl (List.mem_append_left _ hname) rfl
  · exact htest e (map_eq_error h)

theorem about_of_addLoop {s : Sorted} {a : WrittenAttribute} {loop : Except TemplateError LoopDirective}
    {e : TemplateError} (hname : a.name ∈ loopNames) (hloop : ∀ e, loop = .error e → About e a)
    (h : s.addLoop a loop = .error e) : About e a := by
  unfold Sorted.addLoop at h
  split at h
  · obtain rfl := Except.error.inj h
    exact about_of_directive rfl (List.mem_append_right _ hname) rfl
  · exact hloop e (map_eq_error h)

/-- An attribute that cannot be sorted is what the error is about. -/
theorem about_of_add {s : Sorted} {a : WrittenAttribute} {position : Nat} {e : TemplateError}
    (h : s.add a position = .error e) : About e a := by
  have hnamed : ∀ name : String, a.name.toList = name.toList → a.name = name := fun _ => String.ext
  have hrequired : ∀ {α : Type} {make : String → α} (e : TemplateError), (required a).map make = .error e →
      About e a := fun e he => about_of_required (map_eq_error he)
  unfold Sorted.add at h
  split at h
  next hname =>
    exact about_of_addCondition (by rw [hnamed ":if" hname]; decide) hrequired h
  next hname =>
    exact about_of_addCondition (by rw [hnamed ":elseif" hname]; decide) hrequired h
  next hname =>
    refine about_of_addCondition (by rw [hnamed ":else" hname]; decide) (fun e he => ?_) h
    cases he
  next hname =>
    refine about_of_addLoop (by rw [hnamed ":foreach" hname]; decide) (fun e he => ?_) h
    rcases bind_eq_error he with he | ⟨value, hvalue, he⟩
    · exact about_of_required he
    · rcases bind_eq_error he with he | ⟨loop, -, he⟩
      · exact about_of_parse (hnamed ":foreach" hname) (required_eq_ok hvalue) he
      · cases he
  next hname =>
    refine about_of_addLoop (by rw [hnamed ":forelse" hname]; decide) (fun e he => ?_) h
    cases he
  next => cases h
  next =>
    rcases bind_eq_error h with h | ⟨value, -, h⟩
    · exact about_of_required h
    · cases h
  next => cases h

theorem about_of_sortFrom {written : List WrittenAttribute} {s : Sorted} {position : Nat} {e : TemplateError}
    (h : sortFrom s position written = .error e) : ∃ a ∈ written, About e a := by
  induction written generalizing s position with
  | nil => cases h
  | cons a written ih =>
    rcases bind_eq_error h with h | ⟨s', -, h⟩
    · exact ⟨a, List.mem_cons_self, about_of_add h⟩
    · obtain ⟨b, hb, habout⟩ := ih h
      exact ⟨b, List.mem_cons_of_mem _ hb, habout⟩

/-- Attributes that cannot be sorted are refused for one of them. -/
theorem about_of_sort {written : List WrittenAttribute} {e : TemplateError} (h : sort written = .error e) :
    ∃ a ∈ written, About e a := by
  rcases bind_eq_error h with h | ⟨s, -, h⟩
  · exact about_of_sortFrom h
  · cases h

/-! ## What a tag keeps -/

/-- What was written on a tag stands in a source, and was sorted into what the tag has. -/
def AttributesPlaced (source : String) (tag : Tag) : Prop :=
  ∃ written : List WrittenAttribute, (∀ a ∈ written, a.PlacedIn source) ∧
    sort written = .ok (tag.attributes, tag.directives)

/-- An attribute that is kept has the span it was written with. -/
theorem Kept.span_eq {w : WrittenAttribute} {a : Attribute} (h : Kept w a) : a.span = w.span := by
  cases h <;> rfl

theorem ConditionFrom.written_eq {a : WrittenAttribute} {test : Test} (h : ConditionFrom a test) :
    test.kind.written = a.name := by
  cases h with
  | ifTrue hname => exact hname.symm
  | elseIf hname => exact hname.symm
  | otherwise hname => exact hname.symm

end Tag

/-- How a loop directive is written. -/
def LoopDirective.written : LoopDirective → String
  | .foreach _ => ":foreach"
  | .forelse _ => ":forelse"

theorem Tag.LoopFrom.written_eq {a : WrittenAttribute} {position : Nat} {l : LoopDirective}
    (h : LoopFrom a position l) : l.written = a.name := by
  cases h with
  | foreach hname => exact hname.symm
  | forelse hname => exact hname.symm

/-- An error says that one of the directives cannot apply. -/
inductive Directives.Blamed (d : Directives) : TemplateError → Prop where
  | condition {c : Condition} {problem : DirectiveProblem} (h : d.condition = some c) :
      Blamed d ⟨.directive c.test.kind.written problem, c.span⟩
  | loop {l : LoopDirective} {problem : DirectiveProblem} (h : d.loop = some l) :
      Blamed d ⟨.directive l.written problem, l.span⟩

namespace Tag

variable {source : String} {tag : Tag} {e : TemplateError}

/-- A directive that is blamed is an attribute that was written on the tag. -/
theorem AttributesPlaced.pointsInto_of_blamed (h : tag.AttributesPlaced source)
    (he : tag.directives.Blamed e) : e.PointsInto source := by
  obtain ⟨written, hplaced, hsort⟩ := h
  have hsorts := sortsInto_of_sort hsort
  cases he with
  | @condition c problem hc =>
    obtain ⟨a, ha, hfrom, hspan⟩ := hsorts.condition c hc
    have habout : About ⟨.directive c.test.kind.written problem, c.span⟩ a :=
      about_of_directive hfrom.written_eq (List.mem_append_left _ hfrom.mem) hspan
    exact habout.pointsInto (hplaced a (List.mem_of_getElem? ha))
  | @loop l problem hl =>
    obtain ⟨a, ha, hfrom⟩ := hsorts.loop l hl
    have habout : About ⟨.directive l.written problem, l.span⟩ a :=
      about_of_directive hfrom.written_eq (List.mem_append_right _ hfrom.mem) hfrom.position_eq.2
    exact habout.pointsInto (hplaced a (List.mem_of_getElem? ha))

/-- An attribute that is kept as an expression was written with a colon in front. -/
theorem Kept.computed {w : WrittenAttribute} {a : Attribute} {value : String} (h : Kept w a)
    (hvalue : a.value = .expression value) : w.name = ":" ++ a.name ∧ w.value = some value := by
  have hliteral : literalValue w.value ≠ .expression value := by
    intro heq
    unfold literalValue at heq
    split at heq <;> cases heq
  cases h with
  | literal => exact absurd hvalue hliteral
  | colon => exact absurd hvalue hliteral
  | expression hname hwritten =>
    obtain rfl := AttributeValue.expression.inj hvalue
    refine ⟨String.ext ?_, hwritten⟩
    rw [hname, String.toList_append]
    exact congrArg (':' :: ·) String.toList_ofList.symm

/-- A name that is computed points to the attribute that computes it. -/
theorem AttributesPlaced.pointsInto_of_computed (h : tag.AttributesPlaced source) {a : Attribute}
    (ha : a ∈ tag.attributes) (hname : a.name = "name") {value : String} (hvalue : a.value = .expression value) :
    TemplateError.PointsInto source ⟨.computedSlotName, a.span⟩ := by
  obtain ⟨written, hplaced, hsort⟩ := h
  obtain ⟨w, hw, hkept⟩ := exists_kept_of_sort hsort a ha
  obtain ⟨hwritten, hcomputes⟩ := hkept.computed hvalue
  have habout : About ⟨.computedSlotName, a.span⟩ w := by
    refine ⟨hkept.span_eq, fun htext => ⟨value, ?_⟩⟩
    rw [hwritten, hname, hcomputes] at htext
    exact htext
  exact habout.pointsInto (hplaced w hw)

end Tag

/-! ## Names and opening tags -/

namespace Template

variable {source : String} {c : Cursor}

/-- Behind a mark a name of a tag may be read. -/
theorem reads_tagName {mark : String} (h : c.startsWith mark = true) :
    c.Reads (mark.toList ++ ((((c.consume? mark).getD c).tagName?).getD ([], (c.consume? mark).getD c)).1)
      ((((c.consume? mark).getD c).tagName?).getD ([], (c.consume? mark).getD c)).2 := by
  obtain ⟨inside, hinside⟩ := Cursor.startsWith_iff.1 h
  rw [hinside, Option.getD_some]
  exact (Cursor.reads_of_consume? hinside).trans (reads_tagName?_getD inside)

/-- The name in the opening tag that begins here, and the cursor after it. -/
def openingName (c : Cursor) : List Char × Cursor :=
  let inside := (c.consume? "<").getD c
  (inside.tagName?).getD ([], inside)

theorem reads_openingName (hahead : openingAhead c.rest = true) :
    c.Reads ('<' :: (openingName c).1) (openingName c).2 := by
  have hmark : c.startsWith "<" = true := by
    unfold openingAhead at hahead
    split at hahead
    · next ch cs hrest => exact Cursor.startsWith_of_rest_eq "<" hrest
    · cases hahead
  exact reads_tagName hmark

theorem reads_closingName_of_startsWith (hmark : c.startsWith "</" = true) :
    c.Reads ('<' :: '/' :: (closingName c).1) (closingName c).2 := reads_tagName hmark

/-- What is written on an opening tag, as far as it can be read, stands in the source. -/
theorem placed_of_openingAhead (hon : c.On source) (hahead : openingAhead c.rest = true) :
    let opening := Tag.readAttributes (String.ofList (openingName c).1) c.position (openingName c).2
    (∀ a ∈ opening.1, a.PlacedIn source) ∧ ∀ e, opening.2 = .error e → e.PointsInto source := by
  have hpasses := (reads_openingName hahead).passes
  rw [← String.toList_ofList (l := (openingName c).1)] at hpasses
  exact Tag.placed_of_readAttributes hon hpasses

theorem attributesPlaced_of_readOpening {d : Cursor} {opening : Opening} (hon : c.On source)
    (hahead : openingAhead c.rest = true) (h : readOpening c = .ok (opening, d)) :
    opening.tag.AttributesPlaced source := by
  obtain ⟨⟨attributes, directives⟩, hsort, h⟩ := Reader.bind_eq_ok h
  obtain ⟨ending, -, h⟩ := Reader.bind_eq_ok h
  obtain ⟨rfl, -⟩ := Prod.mk.inj (Except.ok.inj h)
  exact ⟨_, (placed_of_openingAhead hon hahead).1, hsort⟩

theorem pointsInto_of_readOpening {e : TemplateError} (hon : c.On source)
    (hahead : openingAhead c.rest = true) (h : readOpening c = .error e) : e.PointsInto source := by
  obtain ⟨hplaced, hending⟩ := placed_of_openingAhead hon hahead
  rcases Reader.bind_eq_error h with h | ⟨sorted, -, h⟩
  · obtain ⟨a, ha, habout⟩ := Tag.about_of_sort h
    exact habout.pointsInto (hplaced a ha)
  · rcases Reader.bind_eq_error h with h | ⟨ending, -, h⟩
    · exact hending e h
    · cases h

end Template

end Stencil
