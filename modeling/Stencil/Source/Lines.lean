import Stencil.Source.Span
/-
  Lines of a text and the positions in them.

  A text is cut into lines after each newline.  A byte offset is then a line and a column, both counted
  from zero, the column in bytes; people are shown both counted from one.  An offset past the end
  stands for the end.  The way back adds a column to the start of its line: it asks only that the sum,
  a word of 32 bits, lies in the text, so a column may reach into later lines.
-/

namespace Stencil

/-- A line and a column, both counted from zero. -/
structure Position where
  line : Nat
  column : Nat
deriving DecidableEq, Repr, Inhabited

/-- A position as people read it: line and column from one, with a colon between. -/
def Position.display (p : Position) : String := s!"{p.line + 1}:{p.column + 1}"

/-- Where the lines of a text begin, and how long the text is. -/
structure Lines where
  starts : List Nat
  length : Nat
deriving Repr

namespace Lines

/-- The offsets just after each newline of a text that begins at `offset`. -/
def startsAfter (offset : Nat) : List Char → List Nat
  | [] => []
  | c :: cs =>
    let next := offset + c.utf8Size
    if c == '\n' then next :: startsAfter next cs else startsAfter next cs

/-- The lines of a text. -/
def ofText (text : String) : Lines :=
  ⟨0 :: startsAfter 0 text.toList, Text.byteLength text.toList⟩

/-- The number of lines: one more than there are newlines. -/
def count (ls : Lines) : Nat := ls.starts.length

/-- The position of an offset: the last line that starts at or before it. -/
def position (ls : Lines) (offset : Nat) : Position :=
  let offset := min offset ls.length
  let line := ls.starts.countP (· ≤ offset) - 1
  ⟨line, offset - (ls.starts[line]?).getD 0⟩

/-- The offset of a position, if its line exists and its word lies in the text. -/
def offset? (ls : Lines) (p : Position) : Option Nat :=
  match ls.starts[p.line]? with
  | none => none
  | some start =>
    let offset := (start + p.column) % UInt32.size
    if offset ≤ ls.length then some offset else none

/-- The position where a span starts. -/
def locate (ls : Lines) (s : Span) : Position := ls.position s.start

theorem length_startsAfter (offset : Nat) (cs : List Char) :
    (startsAfter offset cs).length = cs.count '\n' := by
  induction cs generalizing offset with
  | nil => rfl
  | cons c cs ih => by_cases h : c = '\n' <;> simp [startsAfter, h, ih]

end Lines

end Stencil
