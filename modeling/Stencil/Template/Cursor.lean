import Stencil.Source.Span
import Stencil.Text.Blank
/-
  A cursor over the source of a template.

  A cursor is the offset it stands at and the text from there on.  Every operation that moves it takes a
  front off that text and adds its bytes to the offset, so the offset always falls between characters; an
  operation that fails hands back no cursor, and its caller goes on with the old one.  The laws count
  what is left: no operation adds to it, and those that must make progress use something up.
-/

namespace Stencil

/-- A place in a source: the bytes before it, and the text from it on. -/
structure Cursor where
  position : Nat
  rest : List Char
deriving Repr

namespace Cursor

/-- The start of a source. -/
def start (source : String) : Cursor := ⟨0, source.toList⟩

/-- Whether nothing is left. -/
def atEnd (c : Cursor) : Bool := c.rest.isEmpty

/-- The next character. -/
def peek (c : Cursor) : Option Char := c.rest.head?

/-- The character after the next one. -/
def peekSecond (c : Cursor) : Option Char := c.rest.tail.head?

/-- The span from an offset to the cursor. -/
def spanFrom (c : Cursor) (start : Nat) : Span := ⟨start, c.position⟩

/-- The next character and the cursor after it. -/
def next? (c : Cursor) : Option (Char × Cursor) :=
  match c.rest with
  | [] => none
  | ch :: rest => some (ch, ⟨c.position + ch.utf8Size, rest⟩)

/-- The longest front whose characters all satisfy `p`, and the cursor after it. -/
def takeWhile (c : Cursor) (p : Char → Bool) : List Char × Cursor :=
  let front := c.rest.takeWhile p
  (front, ⟨c.position + Text.byteLength front, c.rest.dropWhile p⟩)

/-- The cursor after the blanks it stands at. -/
def skipBlanks (c : Cursor) : Cursor := (c.takeWhile Text.isBlank).2

/-- Whether the text from here on begins with a mark. -/
def startsWith (c : Cursor) (mark : String) : Bool := (Text.afterMark mark.toList c.rest).isSome

/-- The cursor after a mark, if it comes next. -/
def consume? (c : Cursor) (mark : String) : Option Cursor :=
  (Text.afterMark mark.toList c.rest).map fun rest =>
    ⟨c.position + Text.byteLength mark.toList, rest⟩

/-- What follows a text that the source has here in some mixture of cases of the letters A to Z. -/
def afterIgnoringCase? (c : Cursor) (text : String) : Option (List Char) :=
  let n := text.toList.length
  if n ≤ c.rest.length && Text.equalIgnoringCase (c.rest.take n) text.toList then
    some (c.rest.drop n)
  else none

/-- Whether the source has a text here in some mixture of cases of the letters A to Z. -/
def startsWithIgnoringCase (c : Cursor) (text : String) : Bool :=
  (c.afterIgnoringCase? text).isSome

/-- What stands before the next occurrence of a mark, and the cursor after that occurrence. -/
def through? (c : Cursor) (mark : String) : Option (List Char × Cursor) :=
  (Text.splitAtFirst mark.toList c.rest).map fun (before, after) =>
    (before, ⟨c.position + Text.byteLength before + Text.byteLength mark.toList, after⟩)

/-- Characters of the names of tags. -/
def isTagChar (c : Char) : Bool := c.isAlphanum || c == '-' || c == '_' || c == ':' || c == '.'

/-- The name of a tag: a letter, and then tag characters. -/
def tagName? (c : Cursor) : Option (List Char × Cursor) :=
  if c.peek.any Char.isAlpha then some (c.takeWhile isTagChar) else none

/-- Characters of the names of attributes: all but blanks and those that end a name. -/
def isAttributeChar (c : Char) : Bool :=
  !Text.isBlank c && !(c == '=' || c == '>' || c == '/' || c == '"' || c == '\'' || c == '<')

/-- The name of an attribute, which may be empty. -/
def attributeName (c : Cursor) : List Char × Cursor := c.takeWhile isAttributeChar

/-- A text between two quotes of a kind, with its span, and the cursor after the second quote. -/
def quoted? (c : Cursor) : Option ((List Char × Span) × Cursor) :=
  match c.rest with
  | quote :: rest =>
    if quote == '"' || quote == '\'' then
      (Text.splitAtFirst [quote] rest).map fun (value, after) =>
        let first := c.position + 1
        let last := first + Text.byteLength value
        ((value, ⟨first, last⟩), ⟨last + 1, after⟩)
    else none
  | [] => none

/-- A value without quotes, which ends at a blank or at the end of its tag. -/
def unquoted (c : Cursor) : (List Char × Span) × Cursor :=
  let (value, after) := c.takeWhile fun ch => !Text.isBlank ch && ch != '>'
  ((value, after.spanFrom c.position), after)

/-! ## What is left -/

/-- How many characters are left. -/
def left (c : Cursor) : Nat := c.rest.length

theorem left_takeWhile_le (c : Cursor) (p : Char → Bool) : (c.takeWhile p).2.left ≤ c.left :=
  (List.dropWhile_sublist p).length_le

theorem left_takeWhile_add (c : Cursor) (p : Char → Bool) :
    (c.takeWhile p).1.length + (c.takeWhile p).2.left = c.left := by
  simp only [takeWhile, left, ← List.length_append, List.takeWhile_append_dropWhile]

theorem left_skipBlanks_le (c : Cursor) : c.skipBlanks.left ≤ c.left := left_takeWhile_le c _

theorem left_of_consume? {c d : Cursor} {mark : String} (h : c.consume? mark = some d) :
    d.left + mark.toList.length = c.left := by
  obtain ⟨rest, hr, rfl⟩ := Option.map_eq_some_iff.1 h
  simp [left, Text.afterMark_eq_some_iff.1 hr, Nat.add_comm]

theorem left_of_through? {c d : Cursor} {mark : String} {before : List Char}
    (h : c.through? mark = some (before, d)) : d.left + mark.toList.length ≤ c.left := by
  obtain ⟨⟨b, a⟩, hs, e⟩ := Option.map_eq_some_iff.1 h
  obtain ⟨rfl, rfl⟩ := by simpa using e
  have := congrArg List.length (Text.splitAtFirst_eq_some hs)
  simp only [List.length_append] at this
  simp only [left]
  omega

theorem left_of_quoted? {c d : Cursor} {value : List Char × Span}
    (h : c.quoted? = some (value, d)) : d.left < c.left := by
  unfold quoted? at h
  split at h
  · next quote rest hr =>
    split at h
    · obtain ⟨⟨b, a⟩, hs, e⟩ := Option.map_eq_some_iff.1 h
      obtain ⟨rfl, rfl⟩ := by simpa using e
      have := congrArg List.length (Text.splitAtFirst_eq_some hs)
      simp only [List.length_append] at this
      simp only [left, hr, List.length_cons]
      omega
    · cases h
  · cases h

theorem left_unquoted_le (c : Cursor) : c.unquoted.2.left ≤ c.left := left_takeWhile_le c _

theorem left_of_tagName? {c d : Cursor} {name : List Char} (h : c.tagName? = some (name, d)) :
    d.left ≤ c.left := by
  unfold tagName? at h
  split at h
  · have := left_takeWhile_le c isTagChar
    rw [Option.some.inj h] at this
    exact this
  · cases h

end Cursor

end Stencil
