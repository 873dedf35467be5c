import Stencil.Text.Slice
/-
  Spans: half-open stretches of bytes of a source text.

  Every node, attribute and error of a template carries the span it was read from.  A span is only a
  pair of offsets; whether it covers a piece of a given text is asked when it is sliced.
-/

namespace Stencil

/-- The bytes from `start` up to but not including `stop`. -/
structure Span where
  start : Nat
  stop : Nat
deriving DecidableEq, Repr, Inhabited

namespace Span

/-- The empty span at an offset. -/
def emptyAt (offset : Nat) : Span := ⟨offset, offset⟩

/-- The number of bytes covered. -/
def length (s : Span) : Nat := s.stop - s.start

/-- Whether nothing is covered. -/
def isEmpty (s : Span) : Bool := s.start == s.stop

/-- Whether the byte at an offset is covered. -/
def covers (s : Span) (offset : Nat) : Bool := s.start ≤ offset && offset < s.stop

/-- The least span that covers both. -/
def merge (s t : Span) : Span := ⟨min s.start t.start, max s.stop t.stop⟩

/-- The piece of a text that is covered, when both ends fall between its characters. -/
def slice (s : Span) (text : String) : Option String :=
  (Text.slice s.start s.stop text.toList).map String.ofList

end Span

end Stencil
