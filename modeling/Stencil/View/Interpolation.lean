import Stencil.Expression.Eval
import Stencil.Html
/-
  Expressions inside literal attribute text.

  A text is split into pieces: what stands between an opening mark and the next closing mark of its kind is
  an expression, escaped for double braces and raw for the braces with exclamation marks; all else is
  literal.  From an opening mark on that is never closed, the rest of the text is literal.
-/

namespace Stencil.Interpolation

/-- A piece of a text. -/
inductive Piece where
  | literal (text : String)
  | expression (source : String) (escaped : Bool)
deriving DecidableEq, Repr

/-- The mark that opens an expression. -/
def opening (escaped : Bool) : List Char :=
  if escaped then ['\x7b', '\x7b'] else ['\x7b', '!', '!']

/-- The mark that closes an expression. -/
def closing (escaped : Bool) : List Char :=
  if escaped then ['\x7d', '\x7d'] else ['!', '!', '\x7d']

/-- The first opening mark of a text: what stands before it, its kind, and what follows it. -/
def findOpening : List Char → Option (List Char × Bool × List Char)
  | [] => none
  | c :: cs =>
    match Text.afterMark (opening false) (c :: cs), Text.afterMark (opening true) (c :: cs) with
    | some rest, _ => some ([], false, rest)
    | none, some rest => some ([], true, rest)
    | none, none => (findOpening cs).map fun (before, found) => (c :: before, found)

theorem findOpening_eq_some {cs before rest : List Char} {escaped : Bool}
    (h : findOpening cs = some (before, escaped, rest)) :
    cs = before ++ opening escaped ++ rest := by
  induction cs generalizing before with
  | nil => cases h
  | cons c cs ih =>
    unfold findOpening at h
    split at h
    · next hm =>
      obtain ⟨rfl, rfl, rfl⟩ := by simpa using h
      simpa using Text.afterMark_eq_some_iff.1 hm
    · next hm =>
      obtain ⟨rfl, rfl, rfl⟩ := by simpa using h
      simpa using Text.afterMark_eq_some_iff.1 hm
    · obtain ⟨⟨b, found⟩, hf, e⟩ := Option.map_eq_some_iff.1 h
      obtain ⟨rfl, rfl⟩ := by simpa using e
      simp [ih hf]

theorem length_after_lt {cs before inner content after : List Char} {escaped : Bool}
    (hf : findOpening cs = some (before, escaped, inner))
    (hc : Text.splitAtFirst (closing escaped) inner = some (content, after)) :
    after.length < cs.length := by
  have h1 := congrArg List.length (findOpening_eq_some hf)
  have h2 := congrArg List.length (Text.splitAtFirst_eq_some hc)
  have h3 : 0 < (closing escaped).length := by cases escaped <;> decide
  simp only [List.length_append] at h1 h2
  omega

/-- Split a text into its pieces. -/
def split (cs : List Char) : List Piece :=
  match hf : findOpening cs with
  | none => [.literal (String.ofList cs)]
  | some (before, escaped, inner) =>
    match hc : Text.splitAtFirst (closing escaped) inner with
    | none => [.literal (String.ofList cs)]
    | some (content, after) =>
      have : after.length < cs.length := length_after_lt hf hc
      .literal (String.ofList before) :: .expression (String.ofList (Text.trim content)) escaped ::
        split after
termination_by cs.length

/-- The text of a value in place of an expression. -/
def shown (escaped : Bool) (v : Value) : String :=
  if escaped then Html.escapeValue v else v.display

/-- The text of a piece. -/
def Piece.render (evaluate : Evaluator) (scope : Scope) : Piece → Except EvalError String
  | .literal text => .ok text
  | .expression source escaped => (evaluate source scope).map (shown escaped)

/-- The texts of pieces, from left to right. -/
def renderAll (evaluate : Evaluator) (scope : Scope) : List Piece → Except EvalError String
  | [] => .ok ""
  | piece :: pieces => do
    let text ← piece.render evaluate scope
    let more ← renderAll evaluate scope pieces
    .ok (text ++ more)

/-- A text with its expressions replaced by the texts of their values. -/
def interpolate (evaluate : Evaluator) (scope : Scope) (text : String) : Except EvalError String :=
  renderAll evaluate scope (split text.toList)

end Stencil.Interpolation
