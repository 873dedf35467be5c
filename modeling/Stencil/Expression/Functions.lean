import Stencil.Expression.Error
import Stencil.Value.Comparison
import Stencil.Text.Slice
import Stencil.Text.Case
import Stencil.Text.Blank
import Stencil.Text.Quoted
/-
  The functions that expressions can call.

  A table of functions is a map from names in small letters; registering and asking ignore the case of
  the letters A to Z.  The built-in functions work on the text a value is shown as, on the entries of a
  list or map, or on what kind of value they are given.
-/

namespace Stencil

/-- A function of expressions: its arguments are values, and it may fail. -/
abbrev Function := List Value → Except EvalError Value

/-- Functions by their names in small letters. -/
structure Functions where
  table : Ordered Function := []

namespace Functions

/-- No functions. -/
def none : Functions := ⟨[]⟩

/-- Add a function, or replace the one of that name. -/
def register (fs : Functions) (name : String) (f : Function) : Functions :=
  ⟨Ordered.put fs.table (Text.lowerAscii name) f⟩

/-- The function with a name that is in small letters already. -/
def get? (fs : Functions) (name : String) : Option Function := Ordered.get? fs.table name

/-- Whether there is a function with a name. -/
def has (fs : Functions) (name : String) : Bool := (fs.get? (Text.lowerAscii name)).isSome

/-- The names in order of their characters. -/
def names (fs : Functions) : List String :=
  (Ordered.keys fs.table).mergeSort fun a b => compare a b != .gt

/-- A description of an evaluator with these functions. -/
def describe (fs : Functions) : String :=
  "ExpressionEvaluator \x7b functions: " ++ Text.quotedList fs.names ++ ", .. \x7d"

/-- A function that accepts only so many arguments. -/
def checked (name : String) (arity : Arity) (f : Function) : Function := fun arguments =>
  if arity.accepts arguments.length then f arguments
  else .error (.argumentCount name arity arguments.length)

/-- A function of one argument. -/
def unary (name : String) (f : Value → Except EvalError Value) : Function :=
  checked name ⟨1, some 1⟩ fun arguments =>
    match arguments with
    | argument :: _ => f argument
    | [] => .ok .null

/-- A function from the text of its argument to a text. -/
def onText (name : String) (f : List Char → List Char) : Function :=
  unary name fun v => .ok (.text (String.ofList (f v.display.toList)))

/-- The number of entries of a list or map. -/
def count (v : Value) : Except EvalError Value :=
  match v with
  | .list items => .ok (Value.ofNat items.length)
  | .map entries => .ok (Value.ofNat entries.length)
  | v => .error (.type (.count v.kind))

/-- The texts of the entries of a value, with a text between. -/
def implode (separator : String) (pieces : Value) : Except EvalError Value :=
  match pieces.entries? with
  | some entries => .ok (.text (separator.intercalate (entries.map fun entry => entry.2.display)))
  | Option.none => .error (.type (.implode pieces.kind))

/-- Whether an entry of a value is loosely equal to another value. -/
def contains (needle haystack : Value) : Bool :=
  ((haystack.entries?).getD []).any fun entry => entry.2.looselyEqual needle

/-- The built-in functions with their names. -/
def builtinList : List (String × Function) :=
  [("strtoupper", onText "strtoupper" Text.upper),
   ("strtolower", onText "strtolower" Text.lower),
   ("ucfirst", onText "ucfirst" (Text.mapFirst Text.upperChar)),
   ("lcfirst", onText "lcfirst" (Text.mapFirst Text.lowerChar)),
   ("trim", onText "trim" Text.trim),
   ("strlen", unary "strlen" fun v => .ok (Value.ofNat (Text.byteLength v.display.toList))),
   ("count", unary "count" count),
   ("implode", checked "implode" ⟨1, some 2⟩ fun arguments =>
      match arguments with
      | [separator, pieces] => implode separator.display pieces
      | pieces :: _ => implode "" pieces
      | [] => .ok .null),
   ("json_encode", unary "json_encode" fun v => .ok (.text v.toJson.line)),
   ("in_array", checked "in_array" ⟨2, some 2⟩ fun arguments =>
      match arguments with
      | needle :: haystack :: _ => .ok (.bool (contains needle haystack))
      | _ => .ok .null),
   ("empty", unary "empty" fun v => .ok (.bool !v.truthy)),
   ("isset", checked "isset" ⟨1, Option.none⟩ fun arguments =>
      .ok (.bool (arguments.all fun v => !v.isNull))),
   ("is_null", unary "is_null" fun v => .ok (.bool v.isNull))]

/-- The table of the built-in functions. -/
def builtin : Functions := builtinList.foldl (fun fs entry => fs.register entry.1 entry.2) none

end Functions

end Stencil
