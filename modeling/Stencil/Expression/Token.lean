import Stencil.Expression.Error
import Stencil.Decimal.Nearest
import Stencil.Text.Slice
/-
  Tokens of expressions, and reading them off a text.

  At each place the longest token that can start there is taken.  Between tokens stand blanks, tabs, line
  ends and form feeds.  A quoted text ends at the first quote of its kind that no backslash precedes; the
  single-quoted kind undoes escapes of the quote and the backslash only, the double-quoted kind also has
  letters for controls and an escape for the dollar sign.  A whole number must fit 64 bits.
-/

namespace Stencil

/-- Tokens that are always written the same way. -/
inductive Mark where
  | leftParen
  | rightParen
  | leftBracket
  | rightBracket
  | comma
  | arrow
  | nullsafeArrow
  | fatArrow
  | question
  | colon
  | coalesce
  | orOr
  | andAnd
  | identical
  | notIdentical
  | equal
  | notEqual
  | lessEqual
  | greaterEqual
  | less
  | greater
  | dot
  | plus
  | minus
  | star
  | slash
  | percent
  | bang
deriving DecidableEq, Repr

/-- How the marks are written, the longer ones first. -/
def Mark.table : List (String × Mark) :=
  [("?->", .nullsafeArrow), ("===", .identical), ("!==", .notIdentical),
   ("->", .arrow), ("=>", .fatArrow), ("??", .coalesce), ("||", .orOr), ("&&", .andAnd),
   ("==", .equal), ("!=", .notEqual), ("<>", .notEqual), ("<=", .lessEqual), (">=", .greaterEqual),
   ("(", .leftParen), (")", .rightParen), ("[", .leftBracket), ("]", .rightBracket),
   (",", .comma), ("?", .question), (":", .colon), ("<", .less), (">", .greater), (".", .dot),
   ("+", .plus), ("-", .minus), ("*", .star), ("/", .slash), ("%", .percent), ("!", .bang)]

/-- A token. -/
inductive Token where
  | mark (m : Mark)
  /-- A name after a dollar sign, without the sign. -/
  | variable (name : String)
  | ident (name : String)
  | int (value : Int64)
  | float (value : Float)
  /-- A quoted text with its escapes undone. -/
  | string (value : String)

/-- A token where it stands: the offset of its first byte and the text it was read from. -/
structure Lexeme where
  token : Token
  start : Nat
  text : List Char

/-- The offset just after a token. -/
def Lexeme.stop (l : Lexeme) : Nat := l.start + Text.byteLength l.text

namespace Token

/-- Characters that may stand between tokens. -/
def isGap (c : Char) : Bool := c == ' ' || c == '\t' || c == '\r' || c == '\n' || c == '\x0c'

/-- Characters a name may start with. -/
def isNameStart (c : Char) : Bool := c.isAlpha || c == '_'

/-- Characters a name may go on with. -/
def isNameChar (c : Char) : Bool := c.isAlphanum || c == '_'

/-- What an escape stands for. -/
def unescape (quote c : Char) : List Char :=
  if c == quote || c == '\\' then [c]
  else if quote == '"' then
    match c with
    | 'n' => ['\n']
    | 't' => ['\t']
    | 'r' => ['\r']
    | '$' => ['$']
    | c => ['\\', c]
  else ['\\', c]

/-- The rest of a quoted text after its opening quote: its value, and what follows its closing quote. -/
def quotedBody (quote : Char) : List Char → Option (List Char × List Char)
  | [] => none
  | [c] => if c == quote then some ([], []) else none
  | c :: d :: rest =>
    if c == quote then some ([], d :: rest)
    else if c == '\\' then
      (quotedBody quote rest).map fun (value, rest) => (unescape quote d ++ value, rest)
    else (quotedBody quote (d :: rest)).map fun (value, rest) => (c :: value, rest)

/-- An exponent at the front of a text: its letter, perhaps a sign, and digits. -/
def exponentPart : List Char → Option (List Char × List Char)
  | c :: rest =>
    if c == 'e' || c == 'E' then
      let (sign, digits) :=
        match rest with
        | '+' :: digits => (['+'], digits)
        | '-' :: digits => (['-'], digits)
        | digits => ([], digits)
      let run := digits.takeWhile Char.isDigit
      if run.isEmpty then none else some (c :: sign ++ run, digits.dropWhile Char.isDigit)
    else none
  | [] => none

/-- A point and the digits after it, at the front of a text. -/
def fractionPart : List Char → Option (List Char × List Char)
  | '.' :: rest =>
    let run := rest.takeWhile Char.isDigit
    if run.isEmpty then none else some ('.' :: run, rest.dropWhile Char.isDigit)
  | _ => none

/-- What may follow the whole digits of a number: its fraction, its exponent, and the text after. -/
def numberTail (cs : List Char) : (List Char × List Char) × List Char :=
  let (fraction, rest) := (fractionPart cs).getD ([], cs)
  let (exponent, rest) := (exponentPart rest).getD ([], rest)
  ((fraction, exponent), rest)

/-- The token for the parts of a number. -/
def numberToken (whole fraction exponent : List Char) : Except SyntaxProblem Token :=
  if fraction.isEmpty && exponent.isEmpty then
    match Decimal.word? (Decimal.digitsValue whole) with
    | some n => .ok (.int n)
    | none => .error (.unexpected (String.ofList whole))
  else .ok (.float ((Decimal.float? (whole ++ fraction ++ exponent)).getD 0))

/-- The number that starts with the digits `whole`. -/
def number (whole cs : List Char) : Except SyntaxProblem (Token × List Char) :=
  let tail := numberTail cs
  (numberToken whole tail.1.1 tail.1.2).map fun token => (token, tail.2)

/-- The longest mark at the front of a text. -/
def markAt (cs : List Char) : Option (Mark × List Char) :=
  Mark.table.findSome? fun (text, m) => (Text.afterMark text.toList cs).map fun rest => (m, rest)

/-- The longest token that starts with the character `c` and goes on into `rest`. -/
def read (c : Char) (rest : List Char) : Except SyntaxProblem (Token × List Char) :=
  if isNameStart c then
    .ok (.ident (String.ofList (c :: rest.takeWhile isNameChar)), rest.dropWhile isNameChar)
  else if c.isDigit then
    number (c :: rest.takeWhile Char.isDigit) (rest.dropWhile Char.isDigit)
  else if c == '\'' || c == '"' then
    match quotedBody c rest with
    | some (value, rest) => .ok (.string (String.ofList value), rest)
    | none => .error .unterminatedString
  else if c == '$' && (rest.head?.any isNameStart) then
    .ok (.variable (String.ofList (rest.takeWhile isNameChar)), rest.dropWhile isNameChar)
  else
    match markAt (c :: rest) with
    | some (m, rest) => .ok (.mark m, rest)
    | none => .error (.unexpected c.toString)

theorem length_of_quotedBody {quote : Char} {cs value rest : List Char}
    (h : quotedBody quote cs = some (value, rest)) : rest.length < cs.length := by
  fun_induction quotedBody quote cs generalizing value rest with
  | case1 => cases h
  | case2 c hc => simp_all
  | case3 c hc => cases h
  | case4 c d tail hc =>
    obtain ⟨rfl, rfl⟩ := by simpa using h
    simp
  | case5 c d tail hc hb ih =>
    obtain ⟨⟨v, r⟩, hq, hv⟩ := Option.map_eq_some_iff.1 h
    obtain ⟨rfl, rfl⟩ := by simpa using hv
    have := ih hq
    simp only [List.length_cons]
    omega
  | case6 c d tail hc hb ih =>
    obtain ⟨⟨v, r⟩, hq, hv⟩ := Option.map_eq_some_iff.1 h
    obtain ⟨rfl, rfl⟩ := by simpa using hv
    have := ih hq
    simp only [List.length_cons] at this ⊢
    omega

theorem length_dropWhile_le (p : Char → Bool) (cs : List Char) :
    (cs.dropWhile p).length ≤ cs.length := (List.dropWhile_sublist p).length_le

theorem length_of_exponentPart {cs part rest : List Char}
    (h : exponentPart cs = some (part, rest)) : rest.length ≤ cs.length := by
  unfold exponentPart at h
  grind [length_dropWhile_le]

theorem length_of_fractionPart {cs part rest : List Char}
    (h : fractionPart cs = some (part, rest)) : rest.length ≤ cs.length := by
  unfold fractionPart at h
  grind [length_dropWhile_le]

theorem length_of_afterMark {mark cs rest : List Char} (h : Text.afterMark mark cs = some rest) :
    rest.length + mark.length = cs.length := by
  rw [Text.afterMark_eq_some_iff.1 h]
  simp [Nat.add_comm]

theorem length_of_numberTail (cs : List Char) : (numberTail cs).2.length ≤ cs.length := by
  have part : ∀ (read : List Char → Option (List Char × List Char)),
      (∀ xs p r, read xs = some (p, r) → r.length ≤ xs.length) →
      ∀ xs, ((read xs).getD ([], xs)).2.length ≤ xs.length := by
    intro read hread xs
    cases hr : read xs with
    | none => simp
    | some pr => exact hread xs pr.1 pr.2 hr
  have h1 := part fractionPart (fun _ _ _ => length_of_fractionPart) cs
  have h2 := part exponentPart (fun _ _ _ => length_of_exponentPart)
    ((fractionPart cs).getD ([], cs)).2
  exact Nat.le_trans h2 h1

theorem length_of_number {whole cs rest : List Char} {t : Token}
    (h : number whole cs = .ok (t, rest)) : rest.length ≤ cs.length := by
  unfold number at h
  cases ht : numberToken whole (numberTail cs).1.1 (numberTail cs).1.2 with
  | error e => simp [ht, Except.map] at h
  | ok token =>
    simp only [ht, Except.map, Except.ok.injEq, Prod.mk.injEq] at h
    exact h.2 ▸ length_of_numberTail cs

theorem mark_nonempty : (Mark.table.all fun entry => !entry.1.toList.isEmpty) = true := by
  decide +kernel

theorem length_of_markAt {cs rest : List Char} {m : Mark} (h : markAt cs = some (m, rest)) :
    rest.length < cs.length := by
  obtain ⟨⟨text, m'⟩, hmem, hm⟩ := List.exists_of_findSome?_eq_some h
  obtain ⟨r, hr, e⟩ := Option.map_eq_some_iff.1 hm
  obtain ⟨rfl, rfl⟩ := by simpa using e
  have hlen := length_of_afterMark hr
  have := List.all_eq_true.1 mark_nonempty _ hmem
  simp only [Bool.not_eq_eq_eq_not, Bool.not_true, List.isEmpty_eq_false_iff] at this
  have := List.length_pos_iff.2 this
  omega

/-- Reading a token uses up its first character at least. -/
theorem length_of_read {c : Char} {cs rest : List Char} {t : Token}
    (h : read c cs = .ok (t, rest)) : rest.length ≤ cs.length := by
  unfold read at h
  split at h
  · have := length_dropWhile_le isNameChar cs
    grind
  · split at h
    · have := length_dropWhile_le Char.isDigit cs
      have := length_of_number h
      omega
    · split at h
      · split at h
        · next hq =>
          have := length_of_quotedBody hq
          grind
        · cases h
      · split at h
        · have := length_dropWhile_le isNameChar cs
          grind
        · split at h
          · next hm =>
            have := length_of_markAt hm
            grind
          · cases h

end Token

/-- Where in a text something went wrong, and what. -/
abbrev SyntaxFailure := Nat × SyntaxProblem

namespace Lexeme

/-- The tokens of a text whose first character is at the offset `start`. -/
def readAll (start : Nat) (cs : List Char) : Except SyntaxFailure (List Lexeme) :=
  match cs with
  | [] => .ok []
  | c :: tail =>
    if Token.isGap c then readAll (start + c.utf8Size) tail
    else
      match h : Token.read c tail with
      | .error problem => .error (start, problem)
      | .ok (token, rest) =>
        let text := (c :: tail).take (tail.length + 1 - rest.length)
        have := Token.length_of_read h
        match readAll (start + Text.byteLength text) rest with
        | .error failure => .error failure
        | .ok more => .ok (⟨token, start, text⟩ :: more)
termination_by cs.length
decreasing_by all_goals (simp only [List.length_cons]; omega)

end Lexeme

/-- The tokens of an expression, or the place where none can be read. -/
def tokenize (expression : String) : Except EvalError (List Lexeme) :=
  match Lexeme.readAll 0 expression.toList with
  | .ok lexemes => .ok lexemes
  | .error (offset, problem) => .error (.malformed expression offset problem)

end Stencil
