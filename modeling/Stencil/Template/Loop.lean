import Stencil.Template.Directive
import Stencil.Template.Error
import Stencil.Text.Slice
import Stencil.Text.Blank
/-
  The value of a loop directive: `<iterable> as $item` or `<iterable> as $key => $item`.

  The names at the end are read first: a text has at most one place where the word `as`, blanks on both
  sides, is followed by nothing but such names.  What stands before it is the iterable, which needs a
  character besides the blank in front of the word.
-/

namespace Stencil.Foreach

/-- A dollar sign and a name at the front of a text. -/
def name? : List Char → Option (String × List Char)
  | '$' :: c :: rest =>
    if c.isAlpha || c == '_' then
      let isNameChar := fun d : Char => d.isAlphanum || d == '_'
      some (String.ofList (c :: rest.takeWhile isNameChar), rest.dropWhile isNameChar)
    else none
  | _ => none

/-- The names that make up a whole text: an item, or a key, an arrow and an item.  Blanks may stand
    around the arrow and at the end. -/
def names? (cs : List Char) : Option (Option String × String) := do
  let (first, rest) ← name? cs
  match Text.trimStart rest with
  | [] => some (none, first)
  | '=' :: '>' :: rest =>
    let (second, rest) ← name? (Text.trimStart rest)
    if (Text.trimStart rest).isEmpty then some (some first, second) else none
  | _ => none

/-- The names after the word `as` and at least one blank. -/
def binding? : List Char → Option (Option String × String)
  | 'a' :: 's' :: c :: rest => if Text.isBlank c then names? (Text.trimStart rest) else none
  | _ => none

/-- Whether a text, given back to front, can stand before the word `as`: it ends in a blank, and
    something comes before that blank. -/
def canPrecede : List Char → Bool
  | c :: _ :: _ => Text.isBlank c
  | _ => false

/-- The iterable and the names of a loop; `before` is the part already read, back to front. -/
def split? (before : List Char) : List Char → Option (List Char × Option String × String)
  | [] => none
  | c :: cs =>
    match if canPrecede before then binding? (c :: cs) else none with
    | some (key, item) => some (Text.trim before.reverse, key, item)
    | none => split? (c :: before) cs

/-- The loop that a value describes. -/
def parse (value : String) (position : Nat) (span : Span) : Except TemplateError Foreach :=
  match split? [] value.toList with
  | some (iterable, key, item) =>
    .ok ⟨value, String.ofList iterable, key, item, position, span⟩
  | none => .error ⟨.loopExpression value, span⟩

end Stencil.Foreach
