import Stencil.Expression.Basic
import Stencil.Expression.Token
/-
  From tokens to expressions.

  From the loosest to the tightest the levels are: the choice `a ? b : c` and its short form `a ?: c`, both
  nesting to the right; `??`, to the right; then, to the left, `||` and `or`; `&&` and `and`; equality;
  comparison; `.`; sums; products; then the signs `!`, `-` and `+` in front, of which the last leaves no
  trace; and tightest the accesses `->name`, `?->name` and `[key]` behind.

  Each rule takes tokens off the front of a list and hands back the rest together with a proof that it is
  shorter, which is why the rules end.  A failure is placed at the token that could not be used, or at
  the end of the text.
-/

namespace Stencil

/-- The levels of operators that nest to the left. -/
inductive LeftLevel where
  | or
  | and
  | equality
  | comparison
  | concat
  | sum
  | product
deriving DecidableEq, Repr

namespace LeftLevel

/-- The operator of a level that a token writes, if it writes one. -/
def operator? : LeftLevel → Token → Option BinaryOp
  | .or, .mark .orOr => some .or
  | .or, .ident word => if Text.lowerAscii word == "or" then some .or else none
  | .and, .mark .andAnd => some .and
  | .and, .ident word => if Text.lowerAscii word == "and" then some .and else none
  | .equality, .mark .equal => some .equal
  | .equality, .mark .notEqual => some .notEqual
  | .equality, .mark .identical => some .identical
  | .equality, .mark .notIdentical => some .notIdentical
  | .comparison, .mark .less => some .less
  | .comparison, .mark .lessEqual => some .lessEqual
  | .comparison, .mark .greater => some .greater
  | .comparison, .mark .greaterEqual => some .greaterEqual
  | .concat, .mark .dot => some .concat
  | .sum, .mark .plus => some (.arithmetic .add)
  | .sum, .mark .minus => some (.arithmetic .subtract)
  | .product, .mark .star => some (.arithmetic .multiply)
  | .product, .mark .slash => some (.arithmetic .divide)
  | .product, .mark .percent => some (.arithmetic .modulo)
  | _, _ => none

/-- The next tighter level that nests to the left. -/
def tighter? : LeftLevel → Option LeftLevel
  | .or => some .and
  | .and => some .equality
  | .equality => some .comparison
  | .comparison => some .concat
  | .concat => some .sum
  | .sum => some .product
  | .product => none

/-- How many levels are tighter. -/
def rank : LeftLevel → Nat
  | .or => 6
  | .and => 5
  | .equality => 4
  | .comparison => 3
  | .concat => 2
  | .sum => 1
  | .product => 0

theorem rank_le (l : LeftLevel) : l.rank ≤ 6 := by cases l <;> decide

theorem rank_of_tighter? {l m : LeftLevel} (h : l.tighter? = some m) : m.rank + 1 = l.rank := by
  cases l <;> simp_all [tighter?] <;> subst h <;> rfl

end LeftLevel

namespace Expr

/-- What a rule has read, and the tokens after it, fewer than `bound`. -/
structure Parsed (bound : Nat) (α : Type) where
  value : α
  rest : List Lexeme
  fits : rest.length < bound

/-- The place where the next token stands, or the end of the text. -/
def place (finish : Nat) : List Lexeme → Nat
  | [] => finish
  | lexeme :: _ => lexeme.start

/-- A failure at the next token. -/
def fail {α : Type} (finish : Nat) (ts : List Lexeme) (problem : SyntaxProblem) :
    Except SyntaxFailure α :=
  .error (place finish ts, problem)

/-- The failure of a token that no rule can use. -/
def refuse {α : Type} (finish : Nat) (ts : List Lexeme) : Except SyntaxFailure α :=
  fail finish ts <|
    match ts with
    | [] => .unexpectedEnd
    | lexeme :: _ => .unexpected (String.ofList lexeme.text)

/-- The tokens after a mark, if it comes next. -/
def afterMark? (m : Mark) : (ts : List Lexeme) → Option { rest : List Lexeme // rest.length < ts.length }
  | ⟨.mark n, _, _⟩ :: rest => if n = m then some ⟨rest, by simp⟩ else none
  | _ => none

/-- The operator of a level and the tokens after it, if one comes next. -/
def nextOperator? (l : LeftLevel) :
    (ts : List Lexeme) → Option (BinaryOp × { rest : List Lexeme // rest.length < ts.length })
  | [] => none
  | lexeme :: rest => (l.operator? lexeme.token).map fun op => (op, ⟨rest, by simp⟩)

/-- The tokens after an arrow of either kind, if one comes next. -/
def afterArrow? (ts : List Lexeme) : Option { rest : List Lexeme // rest.length < ts.length } :=
  match afterMark? .arrow ts with
  | some rest => some rest
  | none => afterMark? .nullsafeArrow ts

/-- The name of a member, which must not be called. -/
def memberName (finish : Nat) (ts : List Lexeme) :
    Except SyntaxFailure (Parsed ts.length String) :=
  match ts with
  | ⟨.ident name, _, _⟩ :: rest =>
    match afterMark? .leftParen rest with
    | some _ => fail finish rest (.methodCall name)
    | none => .ok ⟨name, rest, by simp⟩
  | ts => fail finish ts (.expected "a property name")

/-- The constants, whose names are written in either case. -/
def constant? (name : String) : Option Value :=
  match Text.lowerAscii name with
  | "true" => some (.bool true)
  | "false" => some (.bool false)
  | "null" => some .null
  | _ => none

mutual

/-- The loosest level: a choice, or what stands in its place. -/
def readChoice (finish : Nat) (ts : List Lexeme) : Except SyntaxFailure (Parsed ts.length Expr) := do
  let condition ← readFallback finish ts
  have := condition.fits
  match afterMark? .question condition.rest with
  | none => .ok condition
  | some ⟨rest, _⟩ =>
    match afterMark? .colon rest with
    | some ⟨rest, _⟩ =>
      let no ← readChoice finish rest
      have := no.fits
      .ok ⟨.orElse condition.value no.value, no.rest, by omega⟩
    | none =>
      let yes ← readChoice finish rest
      have := yes.fits
      match afterMark? .colon yes.rest with
      | none => fail finish yes.rest (.expected "`:` in ternary")
      | some ⟨rest, _⟩ =>
        let no ← readChoice finish rest
        have := no.fits
        .ok ⟨.ternary condition.value yes.value no.value, no.rest, by omega⟩
termination_by 24 * ts.length + 19
decreasing_by all_goals omega

/-- The level of `??`, which nests to the right. -/
def readFallback (finish : Nat) (ts : List Lexeme) :
    Except SyntaxFailure (Parsed ts.length Expr) := do
  let left ← readLeft finish .or ts
  have := left.fits
  match afterMark? .coalesce left.rest with
  | none => .ok left
  | some ⟨rest, _⟩ =>
    let right ← readFallback finish rest
    have := right.fits
    .ok ⟨.binary .coalesce left.value right.value, right.rest, by omega⟩
termination_by 24 * ts.length + 18
decreasing_by all_goals first | omega | (have h := LeftLevel.rank_le .or; omega)

/-- A level that nests to the left: an operand, and then operators each with an operand. -/
def readLeft (finish : Nat) (l : LeftLevel) (ts : List Lexeme) :
    Except SyntaxFailure (Parsed ts.length Expr) := do
  let first ← readOperand finish l ts
  have := first.fits
  let all ← readChain finish l first.value first.rest
  have := all.fits
  .ok ⟨all.value, all.rest, by omega⟩
termination_by 24 * ts.length + 2 * l.rank + 5
decreasing_by all_goals omega

/-- An operand of a level that nests to the left: an expression of the next tighter level. -/
def readOperand (finish : Nat) (l : LeftLevel) (ts : List Lexeme) :
    Except SyntaxFailure (Parsed ts.length Expr) :=
  match h : l.tighter? with
  | some tighter =>
    have := LeftLevel.rank_of_tighter? h
    readLeft finish tighter ts
  | none => readSigned finish ts
termination_by 24 * ts.length + 2 * l.rank + 4
decreasing_by all_goals omega

/-- The operators of a level and their operands that follow an operand. -/
def readChain (finish : Nat) (l : LeftLevel) (left : Expr) (ts : List Lexeme) :
    Except SyntaxFailure (Parsed (ts.length + 1) Expr) :=
  match nextOperator? l ts with
  | none => .ok ⟨left, ts, by omega⟩
  | some (op, ⟨rest, _⟩) => do
    let right ← readOperand finish l rest
    have := right.fits
    let all ← readChain finish l (.binary op left right.value) right.rest
    have := all.fits
    .ok ⟨all.value, all.rest, by omega⟩
termination_by 24 * ts.length
decreasing_by all_goals (have h := LeftLevel.rank_le l; omega)

/-- The signs in front of an expression. -/
def readSigned (finish : Nat) (ts : List Lexeme) : Except SyntaxFailure (Parsed ts.length Expr) :=
  match afterMark? .bang ts, afterMark? .minus ts, afterMark? .plus ts with
  | some ⟨rest, _⟩, _, _ => do
    let operand ← readSigned finish rest
    have := operand.fits
    .ok ⟨.unary .not operand.value, operand.rest, by omega⟩
  | none, some ⟨rest, _⟩, _ => do
    let operand ← readSigned finish rest
    have := operand.fits
    .ok ⟨.unary .negate operand.value, operand.rest, by omega⟩
  | none, none, some ⟨rest, _⟩ => do
    let operand ← readSigned finish rest
    have := operand.fits
    .ok ⟨operand.value, operand.rest, by omega⟩
  | none, none, none => do
    let target ← readAtom finish ts
    have := target.fits
    let all ← readAccesses finish target.value target.rest
    have := all.fits
    .ok ⟨all.value, all.rest, by omega⟩
termination_by 24 * ts.length + 3
decreasing_by all_goals omega

/-- The accesses that follow an expression. -/
def readAccesses (finish : Nat) (target : Expr) (ts : List Lexeme) :
    Except SyntaxFailure (Parsed (ts.length + 1) Expr) :=
  match afterArrow? ts, afterMark? .leftBracket ts with
  | some ⟨rest, _⟩, _ => do
    let name ← memberName finish rest
    have := name.fits
    let all ← readAccesses finish (.property target name.value) name.rest
    have := all.fits
    .ok ⟨all.value, all.rest, by omega⟩
  | none, some ⟨rest, _⟩ => do
    let key ← readChoice finish rest
    have := key.fits
    match afterMark? .rightBracket key.rest with
    | none => fail finish key.rest (.expected "`]`")
    | some ⟨rest, _⟩ =>
      let all ← readAccesses finish (.index target key.value) rest
      have := all.fits
      .ok ⟨all.value, all.rest, by omega⟩
  | none, none => .ok ⟨target, ts, by omega⟩
termination_by 24 * ts.length
decreasing_by all_goals omega

/-- What operators and accesses are applied to. -/
def readAtom (finish : Nat) (ts : List Lexeme) : Except SyntaxFailure (Parsed ts.length Expr) :=
  match ts with
  | [] => refuse finish []
  | lexeme :: rest =>
    match lexeme.token with
    | .variable name =>
      match afterArrow? rest with
      | some ⟨member, _⟩ =>
        if name == "this" then do
          let name ← memberName finish member
          have := name.fits
          .ok ⟨.variable name.value, name.rest, by simp only [List.length_cons]; omega⟩
        else .ok ⟨.variable name, rest, by simp⟩
      | none => .ok ⟨.variable name, rest, by simp⟩
    | .int n => .ok ⟨.literal (.int n), rest, by simp⟩
    | .float x => .ok ⟨.literal (.float x), rest, by simp⟩
    | .string s => .ok ⟨.literal (.text s), rest, by simp⟩
    | .mark .leftParen => do
      let inner ← readChoice finish rest
      have := inner.fits
      match afterMark? .rightParen inner.rest with
      | none => fail finish inner.rest (.expected "`)`")
      | some ⟨rest, _⟩ => .ok ⟨inner.value, rest, by simp only [List.length_cons]; omega⟩
    | .mark .leftBracket => do
      let items ← readItems finish rest
      have := items.fits
      .ok ⟨.array items.value, items.rest, by simp only [List.length_cons]; omega⟩
    | .ident name =>
      match afterMark? .leftParen rest with
      | some ⟨rest, _⟩ => do
        let arguments ← readArguments finish rest
        have := arguments.fits
        .ok ⟨.call (Text.lowerAscii name) arguments.value, arguments.rest,
          by simp only [List.length_cons]; omega⟩
      | none =>
        match constant? name with
        | some value => .ok ⟨.literal value, rest, by simp⟩
        | none => fail finish (lexeme :: rest) (.undefinedConstant name)
    | _ => refuse finish (lexeme :: rest)
termination_by 24 * ts.length + 1
decreasing_by all_goals (simp only [List.length_cons]; omega)

/-- The arguments of a call after its opening parenthesis. -/
def readArguments (finish : Nat) (ts : List Lexeme) :
    Except SyntaxFailure (Parsed ts.length (List Expr)) :=
  match afterMark? .rightParen ts with
  | some ⟨rest, h⟩ => .ok ⟨[], rest, h⟩
  | none => readMoreArguments finish ts
termination_by 24 * ts.length + 21
decreasing_by all_goals omega

/-- At least one argument, and the parenthesis that closes the call. -/
def readMoreArguments (finish : Nat) (ts : List Lexeme) :
    Except SyntaxFailure (Parsed ts.length (List Expr)) := do
  let argument ← readChoice finish ts
  have := argument.fits
  match afterMark? .rightParen argument.rest with
  | some ⟨rest, _⟩ => .ok ⟨[argument.value], rest, by omega⟩
  | none =>
    match afterMark? .comma argument.rest with
    | none => fail finish argument.rest (.expected "`,` or `)`")
    | some ⟨rest, _⟩ =>
      let more ← readMoreArguments finish rest
      have := more.fits
      .ok ⟨argument.value :: more.value, more.rest, by omega⟩
termination_by 24 * ts.length + 20
decreasing_by all_goals omega

/-- The items of an array after its opening bracket; a comma may follow the last one. -/
def readItems (finish : Nat) (ts : List Lexeme) :
    Except SyntaxFailure (Parsed ts.length (List ArrayMember)) :=
  match afterMark? .rightBracket ts with
  | some ⟨rest, h⟩ => .ok ⟨[], rest, h⟩
  | none => do
    let item ← readItem finish ts
    have := item.fits
    match afterMark? .comma item.rest with
    | some ⟨rest, _⟩ =>
      let more ← readItems finish rest
      have := more.fits
      .ok ⟨item.value :: more.value, more.rest, by omega⟩
    | none =>
      match afterMark? .rightBracket item.rest with
      | none => fail finish item.rest (.expected "`,` or `]`")
      | some ⟨rest, _⟩ => .ok ⟨[item.value], rest, by omega⟩
termination_by 24 * ts.length + 21
decreasing_by all_goals omega

/-- An item of an array: a value, or a key and a value. -/
def readItem (finish : Nat) (ts : List Lexeme) :
    Except SyntaxFailure (Parsed ts.length ArrayMember) := do
  let first ← readChoice finish ts
  have := first.fits
  match afterMark? .fatArrow first.rest with
  | none => .ok ⟨.plain first.value, first.rest, first.fits⟩
  | some ⟨rest, _⟩ =>
    let value ← readChoice finish rest
    have := value.fits
    .ok ⟨.keyed first.value value.value, value.rest, by omega⟩
termination_by 24 * ts.length + 20
decreasing_by all_goals omega

end

/-- The expression that a list of tokens makes up as a whole. -/
def ofLexemes (finish : Nat) (ts : List Lexeme) : Except SyntaxFailure Expr :=
  if ts.isEmpty then .error (0, .empty)
  else
    match readChoice finish ts with
    | .error failure => .error failure
    | .ok ⟨value, rest, _⟩ => if rest.isEmpty then .ok value else refuse finish rest

/-- The expression a text is. -/
def parse (expression : String) : Except EvalError Expr :=
  match tokenize expression with
  | .error e => .error e
  | .ok lexemes =>
    match ofLexemes (Text.byteLength expression.toList) lexemes with
    | .error (offset, problem) => .error (.malformed expression offset problem)
    | .ok value => .ok value

end Expr

end Stencil
