import Stencil.Template.Cursor
import Stencil.Template.Loop
import Stencil.Template.Node
/-
  Attributes: reading them off a tag, and telling the kept ones from directives.

  Reading gives the attributes in the order they are written, and how the reading ended: at the end of
  the tag, or with an error.  Sorting then takes them one by one; an attribute that cannot be sorted is an
  error before any error of the text after it.
-/

namespace Stencil

/-- An attribute as it is written. -/
structure WrittenAttribute where
  name : String
  value : Option String
  span : Span
deriving DecidableEq, Repr

/-- How an opening tag ends: whether with a slash, and the cursor after it. -/
structure TagEnd where
  selfClosing : Bool
  after : Cursor

namespace Tag

/-- What comes next in an opening tag. -/
inductive Part where
  | close (ending : TagEnd)
  | written (a : WrittenAttribute) (after : Cursor)
  /-- A slash that ends nothing. -/
  | stray (after : Cursor)
  | failed (e : TemplateError)

/-- The value of an attribute, after its equals sign.  `start` is where the attribute began. -/
def readValue (name : String) (start : Nat) (c : Cursor) :
    Except TemplateError (String × Cursor) :=
  if c.startsWith "\"" || c.startsWith "'" then
    match c.quoted? with
    | some ((value, _), after) => .ok (String.ofList value, after)
    | none => .error ⟨.unterminatedValue name, c.spanFrom start⟩
  else
    let ((value, _), after) := c.unquoted
    if value.isEmpty then .error ⟨.missingValue name, after.spanFrom start⟩
    else .ok (String.ofList value, after)

/-- An attribute whose name has been read, from its possible equals sign on. -/
def readAttribute (name : String) (start : Nat) (c : Cursor) : Part :=
  match c.consume? "=" with
  | none => .written ⟨name, none, c.spanFrom start⟩ c
  | some c =>
    match readValue name start c.skipBlanks with
    | .error e => .failed e
    | .ok (value, after) => .written ⟨name, some value, after.spanFrom start⟩ after

/-- The next part of an opening tag that began at `tagStart`. -/
def readPart (tag : String) (tagStart : Nat) (c : Cursor) : Part :=
  let c := c.skipBlanks
  if c.atEnd then .failed ⟨.unterminated s!"<{tag}" ">", c.spanFrom tagStart⟩
  else
    match c.consume? "/>", c.consume? ">" with
    | some after, _ => .close ⟨true, after⟩
    | none, some after => .close ⟨false, after⟩
    | none, none =>
      let (name, after) := c.attributeName
      if name.isEmpty then
        match c.consume? "/" with
        | some after => .stray after
        | none =>
          let found := c.peek.getD '\x00'
          .failed ⟨.unexpectedCharacter found tag,
            ⟨c.position, c.position + found.utf8Size⟩⟩
      else readAttribute (String.ofList name) c.position after.skipBlanks

theorem left_of_readValue {name value : String} {start : Nat} {c d : Cursor}
    (h : readValue name start c = .ok (value, d)) : d.left ≤ c.left := by
  unfold readValue at h
  split at h
  · split at h
    · next hq =>
      obtain ⟨rfl, rfl⟩ := by simpa using h
      exact Nat.le_of_lt (Cursor.left_of_quoted? hq)
    · cases h
  · have := c.left_unquoted_le
    revert h
    simp only
    split
    · intro h; cases h
    · intro h
      obtain ⟨rfl, rfl⟩ := by simpa using h
      exact this

theorem left_of_readAttribute {name : String} {start : Nat} {c d : Cursor} {a : WrittenAttribute}
    (h : readAttribute name start c = .written a d) : d.left ≤ c.left := by
  unfold readAttribute at h
  split at h
  · obtain ⟨rfl, rfl⟩ := by simpa using h
    exact Nat.le_refl _
  · next c' hc =>
    have h1 := Cursor.left_of_consume? hc
    have h2 := c'.left_skipBlanks_le
    split at h
    · cases h
    · next hv =>
      obtain ⟨rfl, rfl⟩ := by simpa using h
      have h3 := left_of_readValue hv
      omega

/-- Every part of a tag uses something up. -/
theorem left_of_readPart {tag : String} {tagStart : Nat} {c d : Cursor}
    (h : (∃ a, readPart tag tagStart c = .written a d) ∨ readPart tag tagStart c = .stray d) :
    d.left < c.left := by
  have hs := c.left_skipBlanks_le
  unfold readPart at h
  simp only at h
  split at h
  · simp at h
  · split at h
    · simp at h
    · simp at h
    · split at h
      · split at h
        · next after ha =>
          obtain rfl : after = d := by simpa using h
          have := Cursor.left_of_consume? ha
          have : "/".toList.length = 1 := rfl
          omega
        · simp at h
      · next hn =>
        have ha := c.skipBlanks.left_takeWhile_add Cursor.isAttributeChar
        have hpos : 0 < (c.skipBlanks.attributeName).1.length :=
          List.length_pos_iff.2 (by simpa using hn)
        have hb := Cursor.left_skipBlanks_le c.skipBlanks.attributeName.2
        rcases h with ⟨a, h⟩ | h
        · have := left_of_readAttribute h
          simp only [Cursor.attributeName] at *
          omega
        · unfold readAttribute at h
          split at h
          · cases h
          · split at h <;> cases h

/-- The end of an opening tag, if it is what comes next. -/
theorem left_of_readPart_close {tag : String} {tagStart : Nat} {c : Cursor} {e : TagEnd}
    (h : readPart tag tagStart c = .close e) : e.after.left < c.left := by
  have hs := c.left_skipBlanks_le
  unfold readPart at h
  simp only at h
  split at h
  · cases h
  · split at h
    · next after ha =>
      obtain rfl : (⟨true, after⟩ : TagEnd) = e := by simpa using h
      simp only
      have := Cursor.left_of_consume? ha
      have : "/>".toList.length = 2 := rfl
      omega
    · next after _ ha =>
      obtain rfl : (⟨false, after⟩ : TagEnd) = e := by simpa using h
      simp only
      have := Cursor.left_of_consume? ha
      have : ">".toList.length = 1 := rfl
      omega
    · split at h
      · split at h <;> cases h
      · unfold readAttribute at h
        split at h
        · cases h
        · split at h <;> cases h

/-- The attributes of an opening tag from a cursor on, and how the tag ends. -/
def readAttributes (tag : String) (tagStart : Nat) (c : Cursor) :
    List WrittenAttribute × Except TemplateError TagEnd :=
  match h : readPart tag tagStart c with
  | .close ending => ([], .ok ending)
  | .failed e => ([], .error e)
  | .stray after =>
    have := left_of_readPart (.inr h)
    readAttributes tag tagStart after
  | .written a after =>
    have := left_of_readPart (.inl ⟨a, h⟩)
    let (more, ending) := readAttributes tag tagStart after
    (a :: more, ending)
termination_by c.left

theorem left_of_readAttributes {tag : String} {tagStart : Nat} {c : Cursor}
    {written : List WrittenAttribute} {e : TagEnd}
    (h : readAttributes tag tagStart c = (written, .ok e)) : e.after.left < c.left := by
  fun_induction readAttributes tag tagStart c generalizing written with
  | case1 c ending hp =>
    obtain ⟨_, rfl⟩ := by simpa using h
    exact left_of_readPart_close hp
  | case2 c e' hp => simp at h
  | case3 c after hp hlt ih => exact Nat.lt_trans (ih h) hlt
  | case4 c a after hp hlt more ending hr ih =>
    obtain ⟨_, rfl⟩ := by simpa using h
    exact Nat.lt_trans (ih hr) hlt

/-! ## Sorting -/

/-- The attributes and directives sorted so far, the attributes back to front. -/
structure Sorted where
  attributes : List Attribute
  directives : Directives

/-- The value of an attribute that must have one. -/
def required (a : WrittenAttribute) : Except TemplateError String :=
  match a.value with
  | some value => .ok value
  | none => .error ⟨.valueRequired a.name, a.span⟩

/-- Add a condition, unless the tag has one. -/
def Sorted.addCondition (s : Sorted) (a : WrittenAttribute) (position : Nat)
    (test : Except TemplateError Test) : Except TemplateError Sorted :=
  if s.directives.condition.isSome then .error ⟨.directive a.name .severalConditions, a.span⟩
  else test.map fun test =>
    { s with directives := { s.directives with condition := some ⟨test, position, a.span⟩ } }

/-- Add a loop directive, unless the tag has one. -/
def Sorted.addLoop (s : Sorted) (a : WrittenAttribute) (loop : Except TemplateError LoopDirective) :
    Except TemplateError Sorted :=
  if s.directives.loop.isSome then .error ⟨.directive a.name .severalLoops, a.span⟩
  else loop.map fun loop => { s with directives := { s.directives with loop := some loop } }

/-- Keep an attribute. -/
def Sorted.keep (s : Sorted) (a : Attribute) : Sorted :=
  { s with attributes := a :: s.attributes }

/-- The value of an attribute that is kept as it is written. -/
def literalValue : Option String → AttributeValue
  | some text => .literal text
  | none => .bare

/-- Sort the attribute at a position: the five names of directives, names with two colons, which lose
    one of them, names with one colon, which have an expression as value, and all others. -/
def Sorted.add (s : Sorted) (a : WrittenAttribute) (position : Nat) :
    Except TemplateError Sorted :=
  match a.name.toList with
  | [':', 'i', 'f'] => s.addCondition a position ((required a).map .ifTrue)
  | [':', 'e', 'l', 's', 'e', 'i', 'f'] => s.addCondition a position ((required a).map .elseIf)
  | [':', 'e', 'l', 's', 'e'] => s.addCondition a position (.ok .otherwise)
  | [':', 'f', 'o', 'r', 'e', 'a', 'c', 'h'] =>
    s.addLoop a (do
      let value ← required a
      let loop ← Foreach.parse value position a.span
      .ok (.foreach loop))
  | [':', 'f', 'o', 'r', 'e', 'l', 's', 'e'] =>
    s.addLoop a (.ok (.forelse ⟨position, a.span⟩))
  | ':' :: ':' :: name =>
    .ok (s.keep ⟨String.ofList (':' :: name), literalValue a.value, a.span⟩)
  | ':' :: name => do
    let value ← required a
    .ok (s.keep ⟨String.ofList name, .expression value, a.span⟩)
  | _ => .ok (s.keep ⟨a.name, literalValue a.value, a.span⟩)

/-- Sort attributes of which the first is at a position. -/
def sortFrom (s : Sorted) (position : Nat) : List WrittenAttribute → Except TemplateError Sorted
  | [] => .ok s
  | a :: more => do
    let s ← s.add a position
    sortFrom s (position + 1) more

/-- The attributes that are kept, in order, and the directives. -/
def sort (written : List WrittenAttribute) : Except TemplateError (List Attribute × Directives) := do
  let s ← sortFrom ⟨[], {}⟩ 0 written
  .ok (s.attributes.reverse, s.directives)

end Tag

end Stencil
