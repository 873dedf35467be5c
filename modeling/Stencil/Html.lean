import Stencil.Value.Display
/-
  Text on a page.

  Escaping replaces the five characters that could end a piece of text or of an attribute; pieces of
  markup are not escaped.  Names written with hyphens become names of variables by capitals.
-/

namespace Stencil.Html

/-- A character that has no meaning but itself on a page. -/
def escapeChar : Char → List Char
  | '&' => "&amp;".toList
  | '<' => "&lt;".toList
  | '>' => "&gt;".toList
  | '"' => "&quot;".toList
  | '\'' => "&#039;".toList
  | c => [c]

/-- A text whose characters have no meaning but themselves on a page. -/
def escape (s : String) : String := String.ofList (s.toList.flatMap escapeChar)

/-- A value as text on a page; markup is passed through. -/
def escapeValue : Value → String
  | .html markup => markup
  | v => escape v.display

/-- A text between the double quotes of an attribute: only they are escaped. -/
def attributeText (s : String) : String :=
  String.ofList (s.toList.flatMap fun c => if c == '"' then "&quot;".toList else [c])

/-- Drop hyphens; `started` says whether anything has been kept, `capital` whether the next character
    follows a hyphen. -/
def dropHyphens (started capital : Bool) : List Char → List Char
  | [] => []
  | c :: cs =>
    if c == '-' then dropHyphens started started cs
    else (if capital then c.toUpper else c) :: dropHyphens true false cs

/-- A name without its hyphens, each of which makes the next letter a capital, except at the front. -/
def camelCase (s : String) : String := String.ofList (dropHyphens false false s.toList)

/-- Whether a name can be that of a variable: a letter or an underscore, and then these and digits. -/
def isVariableName (s : String) : Bool :=
  match s.toList with
  | [] => false
  | c :: cs => (c.isAlpha || c == '_') && cs.all fun d => d.isAlphanum || d == '_'

end Stencil.Html
