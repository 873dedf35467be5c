import Stencil.Proofs.Expression.Grammar
/-
  What is derived is read.

  Behind an expression of a level stands a token that would not go on with it, or nothing.  Then the rule of
  the level reads just the expression.  The levels that nest to the left and the accesses are read by loops,
  and what they hold is said of the loop: what it makes of the tokens behind the expression is what the rule
  makes of the expression and these tokens.
-/

namespace Stencil.Expr

open Grammar

/-! ## What a rule gives -/

/-- A result is a value and the rest of the tokens. -/
def Gives {bound : Nat} {α : Type} (x : Except SyntaxFailure (Parsed bound α)) (value : α)
    (rest : List Lexeme) : Prop :=
  ∃ fits, x = .ok ⟨value, rest, fits⟩

namespace Gives

variable {bound bound' : Nat} {α β : Type} {rest rest' : List Lexeme}

theorem ok {value : α} {fits : rest.length < bound} :
    Gives (.ok ⟨value, rest, fits⟩ : Except SyntaxFailure (Parsed bound α)) value rest :=
  ⟨fits, rfl⟩

theorem bind {x : Except SyntaxFailure (Parsed bound α)} {value : α} {value' : β}
    {f : Parsed bound α → Except SyntaxFailure (Parsed bound' β)} (hx : Gives x value rest)
    (hf : ∀ fits, Gives (f ⟨value, rest, fits⟩) value' rest') : Gives (x >>= f) value' rest' := by
  obtain ⟨fits, rfl⟩ := hx
  exact hf fits

end Gives

/-- No token that satisfies `P` comes next. -/
def Stops (P : Token → Prop) (ts : List Lexeme) : Prop := ∀ lexeme ∈ ts.head?, ¬ P lexeme.token

namespace Stops

variable {P Q : Token → Prop} {ts : List Lexeme}

theorem nil : Stops P [] := by simp [Stops]

theorem cons {lexeme : Lexeme} {t : Token} (ht : lexeme.token = t) (h : ¬ P t) :
    Stops P (lexeme :: ts) := by
  simpa [Stops, ht] using h

/-- A mark is not another one. -/
theorem mark {lexeme : Lexeme} {m n : Mark} (hn : lexeme.token = .mark n) (hne : n ≠ m) :
    Stops (· = .mark m) (lexeme :: ts) :=
  .cons hn (by simpa using hne)

theorem mono (h : Stops P ts) (hPQ : ∀ t, Q t → P t) : Stops Q ts :=
  fun lexeme hl hQ => h lexeme hl (hPQ _ hQ)

/-- What begins an expression of a level is none of the tokens that cannot begin one. -/
theorem of_begins {level : Level} {front : List Lexeme} {more : List Token}
    (hfront : tokens front = more) (hbegins : Begins level more)
    (hP : ∀ t, begins level t = true → ¬ P t) (rest : List Lexeme) : Stops P (front ++ rest) := by
  obtain ⟨t, ts, rfl, ht⟩ := hbegins
  obtain ⟨lexeme, fb, rfl, hlexeme, -⟩ := tokens_eq_cons hfront
  exact .cons hlexeme (hP t ht)

theorem mark_of_begins {level : Level} {front : List Lexeme} {more : List Token} {m : Mark}
    (hfront : tokens front = more) (hbegins : Begins level more)
    (hm : begins level (.mark m) = false) (rest : List Lexeme) :
    Stops (· = .mark m) (front ++ rest) :=
  of_begins hfront hbegins (fun t ht hmark => by simp [← hmark, ht] at hm) rest

end Stops

/-! ## Single tokens -/

theorem afterMark?_cons {m : Mark} {lexeme : Lexeme} (h : lexeme.token = .mark m)
    (rest : List Lexeme) :
    afterMark? m (lexeme :: rest) = some ⟨rest, Nat.lt_succ_self _⟩ := by
  obtain ⟨token, start, text⟩ := lexeme
  obtain rfl := h
  simp [afterMark?]

theorem afterMark?_eq_none {m : Mark} {ts : List Lexeme} (h : Stops (· = .mark m) ts) :
    afterMark? m ts = none := by
  unfold afterMark?
  split
  · next n start text rest =>
    have hn : ¬ n = m := by simpa [Stops] using h
    simp [hn]
  · rfl

theorem nextOperator?_cons {l : LeftLevel} {op : BinaryOp} {lexeme : Lexeme}
    (h : Writes l lexeme.token op) (rest : List Lexeme) :
    nextOperator? l (lexeme :: rest) = some (op, ⟨rest, Nat.lt_succ_self _⟩) := by
  simp [nextOperator?, writes_iff.1 h]

theorem nextOperator?_eq_none {l : LeftLevel} {ts : List Lexeme}
    (h : Stops (fun t => ∃ op, Writes l t op) ts) : nextOperator? l ts = none := by
  cases ts with
  | nil => rfl
  | cons lexeme rest =>
    have hnone : l.operator? lexeme.token = none :=
      Option.eq_none_iff_forall_ne_some.2 fun op hop => h lexeme rfl ⟨op, writes_iff.2 hop⟩
    simp [nextOperator?, hnone]

theorem afterArrow?_cons {lexeme : Lexeme} (h : IsArrow lexeme.token) (rest : List Lexeme) :
    afterArrow? (lexeme :: rest) = some ⟨rest, Nat.lt_succ_self _⟩ := by
  unfold afterArrow?
  generalize ht : lexeme.token = t at h
  cases h with
  | arrow => rw [afterMark?_cons ht]
  | nullsafe =>
    rw [afterMark?_eq_none (.mark ht (by decide)), afterMark?_cons ht]

theorem afterArrow?_eq_none {ts : List Lexeme} (h : Stops IsArrow ts) : afterArrow? ts = none := by
  unfold afterArrow?
  rw [afterMark?_eq_none (h.mono fun t ht => ht ▸ .arrow),
    afterMark?_eq_none (h.mono fun t ht => ht ▸ .nullsafe)]

/-- The name of a member is read where no call follows. -/
theorem gives_memberName {finish : Nat} {name : String} {lexeme : Lexeme} {rest : List Lexeme}
    (h : lexeme.token = .ident name) (hrest : Stops (· = .mark .leftParen) rest) :
    Gives (memberName finish (lexeme :: rest)) name rest := by
  obtain ⟨token, start, text⟩ := lexeme
  obtain rfl := h
  simp only [memberName, afterMark?_eq_none hrest]
  exact .ok

/-! ## What is read at a level -/

/-- These tokens are read as an expression of a level, wherever they stand. -/
def Reads (finish : Nat) : Level → List Token → Expr → Prop
  | .choice, ts, e => ∀ front rest, tokens front = ts → Stops (Continues .choice) rest →
    Gives (readChoice finish (front ++ rest)) e rest
  | .fallback, ts, e => ∀ front rest, tokens front = ts → Stops (Continues .fallback) rest →
    Gives (readFallback finish (front ++ rest)) e rest
  | .left l, ts, e => ∀ front rest value left, tokens front = ts → Stops (Continues l.operand) rest →
    Gives (readChain finish l e rest) value left → Gives (readLeft finish l (front ++ rest)) value left
  | .signed, ts, e => ∀ front rest, tokens front = ts → Stops (Continues .signed) rest →
    Gives (readSigned finish (front ++ rest)) e rest
  | .access, ts, e => ∀ front rest value left, tokens front = ts → Stops (Continues .atom) rest →
    (ts = [.variable "this"] → Stops IsArrow rest) → Gives (readAccesses finish e rest) value left →
    Gives (readSigned finish (front ++ rest)) value left
  | .atom, ts, e => ∀ front rest, tokens front = ts → Stops (Continues .atom) rest →
    (ts = [.variable "this"] → Stops IsArrow rest) → Gives (readAtom finish (front ++ rest)) e rest

namespace Reads

variable {finish : Nat} {a b c ts : List Token}

/-! ### The choice and the fallback -/

theorem ternary {condition yes no : Expr} (ha : Reads finish .fallback a condition)
    (hbegins : Begins .choice b) (hb : Reads finish .choice b yes) (hc : Reads finish .choice c no) :
    Reads finish .choice (a ++ .mark .question :: b ++ .mark .colon :: c) (.ternary condition yes no) := by
  intro front rest hfront hrest
  rw [List.append_assoc] at hfront
  obtain ⟨fa, question, more, rfl, hfa, hquestion, hmore⟩ := tokens_eq_append_cons hfront
  obtain ⟨fb, colon, fc, rfl, hfb, hcolon, hfc⟩ := tokens_eq_append_cons hmore
  rw [List.append_assoc, List.cons_append, List.append_assoc, List.cons_append, readChoice]
  refine (ha fa _ hfa (.cons hquestion not_continues_question)).bind fun _ => ?_
  have hcondition : Stops (· = .mark .colon) (fb ++ colon :: (fc ++ rest)) :=
    .mark_of_begins hfb hbegins rfl _
  -- the colon does not come at once, so this is not the short form
  simp only [afterMark?_cons hquestion, afterMark?_eq_none hcondition]
  refine (hb fb _ hfb (.cons hcolon (not_continues_of_endsChoice rfl))).bind fun _ => ?_
  simp only [afterMark?_cons hcolon]
  exact (hc fc rest hfc hrest).bind fun _ => .ok

theorem orElse {condition no : Expr} (ha : Reads finish .fallback a condition)
    (hb : Reads finish .choice b no) :
    Reads finish .choice (a ++ .mark .question :: .mark .colon :: b) (.orElse condition no) := by
  intro front rest hfront hrest
  obtain ⟨fa, question, more, rfl, hfa, hquestion, hmore⟩ := tokens_eq_append_cons hfront
  obtain ⟨colon, fb, rfl, hcolon, hfb⟩ := tokens_eq_cons hmore
  rw [List.append_assoc, List.cons_append, List.cons_append, readChoice]
  refine (ha fa _ hfa (.cons hquestion not_continues_question)).bind fun _ => ?_
  simp only [afterMark?_cons hquestion, afterMark?_cons hcolon]
  exact (hb fb rest hfb hrest).bind fun _ => .ok

theorem choice {e : Expr} (h : Reads finish .fallback ts e) : Reads finish .choice ts e := by
  intro front rest hfront hrest
  rw [readChoice]
  have hfallback : Stops (Continues .fallback) rest := hrest.mono fun _ => continues_choice
  refine (h front rest hfront hfallback).bind fun _ => ?_
  simp only [afterMark?_eq_none (hrest.mono fun t ht => .inr (.inr (.inr ht)))]
  exact .ok

/-- Behind an expression of a level that nests to the left its loop ends, where nothing goes on. -/
theorem left {l : LeftLevel} {e : Expr} (h : Reads finish (.left l) ts e) {front rest : List Lexeme}
    (hfront : tokens front = ts) (hrest : Stops (Continues (.left l)) rest) :
    Gives (readLeft finish l (front ++ rest)) e rest := by
  refine h front rest e rest hfront (hrest.mono fun _ => continues_of_operand) ?_
  have hnone : nextOperator? l rest = none :=
    nextOperator?_eq_none (hrest.mono fun t ht => by
      obtain ⟨op, hop⟩ := ht
      exact .inr ⟨l, op, Nat.le_refl _, hop⟩)
  rw [readChain]
  simp only [hnone]
  exact .ok

theorem coalesce {left right : Expr} (ha : Reads finish (.left .or) a left)
    (hb : Reads finish .fallback b right) :
    Reads finish .fallback (a ++ .mark .coalesce :: b) (.binary .coalesce left right) := by
  intro front rest hfront hrest
  obtain ⟨fa, mark, fb, rfl, hfa, hmark, hfb⟩ := tokens_eq_append_cons hfront
  rw [List.append_assoc, List.cons_append, readFallback]
  refine (ha.left hfa (.cons hmark not_continues_coalesce)).bind fun _ => ?_
  simp only [afterMark?_cons hmark]
  exact (hb fb rest hfb hrest).bind fun _ => .ok

theorem fallback {e : Expr} (h : Reads finish (.left .or) ts e) : Reads finish .fallback ts e := by
  intro front rest hfront hrest
  rw [readFallback]
  refine (h.left hfront (hrest.mono fun _ => continues_fallback)).bind fun _ => ?_
  simp only [afterMark?_eq_none (hrest.mono fun t ht => .inr (.inr ht))]
  exact .ok

/-! ### The levels that nest to the left -/

/-- An operand is read where nothing goes on with it. -/
theorem operand_gives {l : LeftLevel} {e : Expr} (h : Reads finish l.operand ts e)
    {front rest : List Lexeme} (hfront : tokens front = ts)
    (hrest : Stops (Continues l.operand) rest) :
    Gives (readOperand finish l (front ++ rest)) e rest := by
  rw [readOperand]
  split
  · next tighter htighter =>
    rw [LeftLevel.operand_of_tighter? htighter] at h hrest
    exact h.left hfront hrest
  · next htighter =>
    rw [LeftLevel.operand_of_tighter?_eq_none htighter] at h hrest
    exact h front rest hfront hrest

theorem operator {l : LeftLevel} {t : Token} {op : BinaryOp} {left right : Expr}
    (ha : Reads finish (.left l) a left) (ht : Writes l t op)
    (hb : Reads finish l.operand b right) :
    Reads finish (.left l) (a ++ t :: b) (.binary op left right) := by
  intro front rest value ahead hfront hrest hchain
  obtain ⟨fa, lexeme, fb, rfl, hfa, rfl, hfb⟩ := tokens_eq_append_cons hfront
  rw [List.append_assoc, List.cons_append]
  -- the loop stands behind the left operand, and takes the operator and the right one
  refine ha fa _ value ahead hfa (.cons rfl ht.not_continues_operand) ?_
  rw [readChain]
  simp only [nextOperator?_cons ht]
  exact (hb.operand_gives hfb hrest).bind fun _ => hchain.bind fun _ => .ok

theorem operand {l : LeftLevel} {e : Expr} (h : Reads finish l.operand ts e) :
    Reads finish (.left l) ts e := by
  intro front rest value ahead hfront hrest hchain
  rw [readLeft]
  exact (h.operand_gives hfront hrest).bind fun _ => hchain.bind fun _ => .ok

/-! ### The signs -/

theorem not {e : Expr} (h : Reads finish .signed ts e) :
    Reads finish .signed (.mark .bang :: ts) (.unary .not e) := by
  intro front rest hfront hrest
  obtain ⟨sign, fb, rfl, hsign, hfb⟩ := tokens_eq_cons hfront
  rw [List.cons_append, readSigned]
  simp only [afterMark?_cons hsign]
  exact (h fb rest hfb hrest).bind fun _ => .ok

theorem negate {e : Expr} (h : Reads finish .signed ts e) :
    Reads finish .signed (.mark .minus :: ts) (.unary .negate e) := by
  intro front rest hfront hrest
  obtain ⟨sign, fb, rfl, hsign, hfb⟩ := tokens_eq_cons hfront
  rw [List.cons_append, readSigned]
  simp only [afterMark?_eq_none (m := .bang) (.mark hsign (by decide)), afterMark?_cons hsign]
  exact (h fb rest hfb hrest).bind fun _ => .ok

theorem plus {e : Expr} (h : Reads finish .signed ts e) :
    Reads finish .signed (.mark .plus :: ts) e := by
  intro front rest hfront hrest
  obtain ⟨sign, fb, rfl, hsign, hfb⟩ := tokens_eq_cons hfront
  rw [List.cons_append, readSigned]
  simp only [afterMark?_eq_none (m := .bang) (.mark hsign (by decide)),
    afterMark?_eq_none (m := .minus) (.mark hsign (by decide)), afterMark?_cons hsign]
  exact (h fb rest hfb hrest).bind fun _ => .ok

theorem signed {e : Expr} (h : Reads finish .access ts e) : Reads finish .signed ts e := by
  intro front rest hfront hrest
  have harrow : Stops IsArrow rest := hrest.mono fun _ => .arrow
  have hcall : Stops (Continues .atom) rest := hrest.mono fun t ht => ht ▸ .call
  have hbracket : Stops (· = .mark .leftBracket) rest := hrest.mono fun t ht => ht ▸ .bracket
  refine h front rest e rest hfront hcall (fun _ => harrow) ?_
  rw [readAccesses]
  simp only [afterArrow?_eq_none harrow, afterMark?_eq_none hbracket]
  exact .ok

/-! ### The accesses -/

theorem property {t : Token} {e : Expr} {name : String} (h : Reads finish .access ts e)
    (ht : IsArrow t) (hthis : ts ≠ [.variable "this"]) :
    Reads finish .access (ts ++ [t, .ident name]) (.property e name) := by
  intro front rest value ahead hfront hcall _ haccesses
  obtain ⟨fa, arrow, more, rfl, hfa, rfl, hmore⟩ := tokens_eq_append_cons hfront
  obtain ⟨member, rfl, hmember⟩ := tokens_eq_singleton hmore
  rw [List.append_assoc, List.cons_append, List.cons_append, List.nil_append]
  have hopening : ¬ Continues .atom arrow.token := by
    intro hc
    rw [hc] at ht
    cases ht
  refine h fa _ value ahead hfa (.cons rfl hopening) (absurd · hthis) ?_
  rw [readAccesses]
  simp only [afterArrow?_cons ht]
  exact (gives_memberName hmember hcall).bind fun _ => haccesses.bind fun _ => .ok

theorem index {e key : Expr} (ha : Reads finish .access a e) (hb : Reads finish .choice b key) :
    Reads finish .access (a ++ .mark .leftBracket :: b ++ [.mark .rightBracket]) (.index e key) := by
  intro front rest value ahead hfront _ _ haccesses
  rw [List.append_assoc] at hfront
  obtain ⟨fa, opening, more, rfl, hfa, hopening, hmore⟩ := tokens_eq_append_cons hfront
  obtain ⟨fb, last, rfl, hfb, hlast⟩ := tokens_eq_append hmore
  obtain ⟨closing, rfl, hclosing⟩ := tokens_eq_singleton hlast
  rw [List.append_assoc, List.cons_append, List.append_assoc, List.cons_append, List.nil_append]
  have harrow : ∀ rest, Stops IsArrow (opening :: rest) :=
    fun _ => .cons hopening not_isArrow_leftBracket
  refine ha fa _ value ahead hfa (.mark hopening (by decide)) (fun _ => harrow _) ?_
  rw [readAccesses]
  simp only [afterArrow?_eq_none (harrow _), afterMark?_cons hopening]
  refine (hb fb _ hfb (.cons hclosing (not_continues_of_endsChoice rfl))).bind fun _ => ?_
  simp only [afterMark?_cons hclosing]
  exact haccesses.bind fun _ => .ok

theorem access {e : Expr} (hbegins : Begins .atom ts) (h : Reads finish .atom ts e) :
    Reads finish .access ts e := by
  intro front rest value ahead hfront hcall hthis haccesses
  have hsign : ∀ m, begins .atom (.mark m) = false → afterMark? m (front ++ rest) = none :=
    fun m hm => afterMark?_eq_none (.mark_of_begins hfront hbegins hm rest)
  rw [readSigned]
  simp only [hsign .bang rfl, hsign .minus rfl, hsign .plus rfl]
  exact (h front rest hfront hcall hthis).bind fun _ => haccesses.bind fun _ => .ok

/-! ### The atoms -/

theorem bare {name : String} : Reads finish .atom [.variable name] (.variable name) := by
  intro front rest hfront _ hthis
  obtain ⟨lexeme, rfl, hlexeme⟩ := tokens_eq_singleton hfront
  rw [List.singleton_append, readAtom]
  simp only [hlexeme]
  split
  · next member hlt harrow =>
    split
    · next hname =>
      -- an arrow behind `$this` was ruled out
      rw [eq_of_beq hname] at hthis
      rw [afterArrow?_eq_none (hthis rfl)] at harrow
      cases harrow
    · exact .ok
  · exact .ok

theorem ownName {t : Token} {name : String} (ht : IsArrow t) :
    Reads finish .atom [.variable "this", t, .ident name] (.variable name) := by
  intro front rest hfront hcall _
  obtain ⟨lexeme, back, rfl, hlexeme, hback⟩ := tokens_eq_cons hfront
  obtain ⟨arrow, more, rfl, rfl, hmore⟩ := tokens_eq_cons hback
  obtain ⟨member, rfl, hmember⟩ := tokens_eq_singleton hmore
  rw [List.cons_append, List.cons_append, List.singleton_append, readAtom]
  simp only [hlexeme, afterArrow?_cons ht, beq_self_eq_true, if_true]
  exact (gives_memberName hmember hcall).bind fun _ => .ok

/-- A token that is an atom by itself. -/
theorem token {t : Token} {e : Expr}
    (h : ∀ lexeme rest, lexeme.token = t → Stops (Continues .atom) rest →
      Gives (readAtom finish (lexeme :: rest)) e rest) : Reads finish .atom [t] e := by
  intro front rest hfront hcall _
  obtain ⟨lexeme, rfl, hlexeme⟩ := tokens_eq_singleton hfront
  exact h lexeme rest hlexeme hcall

theorem int {n : Int64} : Reads finish .atom [.int n] (.literal (.int n)) :=
  token fun lexeme rest h _ => by
    rw [readAtom]
    simp only [h]
    exact .ok

theorem float {x : Float} : Reads finish .atom [.float x] (.literal (.float x)) :=
  token fun lexeme rest h _ => by
    rw [readAtom]
    simp only [h]
    exact .ok

theorem string {s : String} : Reads finish .atom [.string s] (.literal (.text s)) :=
  token fun lexeme rest h _ => by
    rw [readAtom]
    simp only [h]
    exact .ok

theorem constant {name : String} {v : Value} (hv : IsConstant name v) :
    Reads finish .atom [.ident name] (.literal v) :=
  token fun lexeme rest h hcall => by
    rw [readAtom]
    simp only [h, afterMark?_eq_none hcall, isConstant_iff.1 hv]
    exact .ok

theorem paren {e : Expr} (h : Reads finish .choice ts e) :
    Reads finish .atom (.mark .leftParen :: ts ++ [.mark .rightParen]) e := by
  intro front rest hfront _ _
  obtain ⟨opening, more, rfl, hopening, hmore⟩ := tokens_eq_cons hfront
  obtain ⟨fa, last, rfl, hfa, hlast⟩ := tokens_eq_append hmore
  obtain ⟨closing, rfl, hclosing⟩ := tokens_eq_singleton hlast
  rw [List.cons_append, List.append_assoc, List.singleton_append, readAtom]
  simp only [hopening]
  refine (h fa _ hfa (.cons hclosing (not_continues_of_endsChoice rfl))).bind fun _ => ?_
  simp only [afterMark?_cons hclosing]
  exact .ok

end Reads

/-- A rule reads these tokens, and a mark that closes them. -/
def ReadsUpTo {α : Type} (m : Mark)
    (read : (ts : List Lexeme) → Except SyntaxFailure (Parsed ts.length α)) (ts : List Token)
    (value : α) : Prop :=
  ∀ front closing rest, tokens front = ts → closing.token = .mark m →
    Gives (read (front ++ closing :: rest)) value rest

namespace Reads

variable {finish : Nat} {ts : List Token}

theorem array {items : List ArrayMember} (h : ReadsUpTo .rightBracket (readItems finish) ts items) :
    Reads finish .atom (.mark .leftBracket :: ts ++ [.mark .rightBracket]) (.array items) := by
  intro front rest hfront _ _
  obtain ⟨opening, more, rfl, hopening, hmore⟩ := tokens_eq_cons hfront
  obtain ⟨fa, last, rfl, hfa, hlast⟩ := tokens_eq_append hmore
  obtain ⟨closing, rfl, hclosing⟩ := tokens_eq_singleton hlast
  rw [List.cons_append, List.append_assoc, List.singleton_append, readAtom]
  simp only [hopening]
  exact (h fa closing rest hfa hclosing).bind fun _ => .ok

theorem call {name : String} {arguments : List Expr}
    (h : ReadsUpTo .rightParen (readArguments finish) ts arguments) :
    Reads finish .atom (.ident name :: .mark .leftParen :: ts ++ [.mark .rightParen])
      (.call (Text.lowerAscii name) arguments) := by
  intro front rest hfront _ _
  obtain ⟨lexeme, back, rfl, hlexeme, hback⟩ := tokens_eq_cons hfront
  obtain ⟨opening, more, rfl, hopening, hmore⟩ := tokens_eq_cons hback
  obtain ⟨fa, last, rfl, hfa, hlast⟩ := tokens_eq_append hmore
  obtain ⟨closing, rfl, hclosing⟩ := tokens_eq_singleton hlast
  rw [List.cons_append, List.cons_append, List.append_assoc, List.singleton_append, readAtom]
  simp only [hlexeme, afterMark?_cons hopening]
  exact (h fa closing rest hfa hclosing).bind fun _ => .ok

end Reads

/-! ### Arguments and items -/

namespace ReadsUpTo

variable {finish : Nat} {a b ts : List Token}

theorem noArguments : ReadsUpTo .rightParen (readArguments finish) [] [] := by
  intro front closing rest hfront hclosing
  obtain rfl := List.map_eq_nil_iff.1 hfront
  rw [List.nil_append, readArguments]
  simp only [afterMark?_cons hclosing]
  exact .ok

theorem someArguments {es : List Expr} (hbegins : Begins .choice ts)
    (h : ReadsUpTo .rightParen (readMoreArguments finish) ts es) :
    ReadsUpTo .rightParen (readArguments finish) ts es := by
  intro front closing rest hfront hclosing
  rw [readArguments]
  simp only [afterMark?_eq_none (m := .rightParen) (.mark_of_begins hfront hbegins rfl _)]
  exact h front closing rest hfront hclosing

theorem lastArgument {e : Expr} (h : Reads finish .choice ts e) :
    ReadsUpTo .rightParen (readMoreArguments finish) ts [e] := by
  intro front closing rest hfront hclosing
  rw [readMoreArguments]
  refine (h front _ hfront (.cons hclosing (not_continues_of_endsChoice rfl))).bind fun _ => ?_
  simp only [afterMark?_cons hclosing]
  exact .ok

theorem moreArguments {e : Expr} {es : List Expr} (ha : Reads finish .choice a e)
    (hb : ReadsUpTo .rightParen (readMoreArguments finish) b es) :
    ReadsUpTo .rightParen (readMoreArguments finish) (a ++ .mark .comma :: b) (e :: es) := by
  intro front closing rest hfront hclosing
  obtain ⟨fa, comma, fb, rfl, hfa, hcomma, hfb⟩ := tokens_eq_append_cons hfront
  rw [List.append_assoc, List.cons_append, readMoreArguments]
  refine (ha fa _ hfa (.cons hcomma (not_continues_of_endsChoice rfl))).bind fun _ => ?_
  simp only [afterMark?_eq_none (m := .rightParen) (.mark hcomma (by decide)), afterMark?_cons hcomma]
  exact (hb fb closing rest hfb hclosing).bind fun _ => .ok

theorem noItems : ReadsUpTo .rightBracket (readItems finish) [] [] := by
  intro front closing rest hfront hclosing
  obtain rfl := List.map_eq_nil_iff.1 hfront
  rw [List.nil_append, readItems]
  simp only [afterMark?_cons hclosing]
  exact .ok

end ReadsUpTo

/-- These tokens are read as an item, where nothing goes on with it. -/
def ReadsItem (finish : Nat) (ts : List Token) (item : ArrayMember) : Prop :=
  ∀ front rest, tokens front = ts → Stops (Continues .choice) rest →
    Stops (· = .mark .fatArrow) rest → Gives (readItem finish (front ++ rest)) item rest

theorem ReadsItem.plain {finish : Nat} {ts : List Token} {e : Expr}
    (h : Reads finish .choice ts e) : ReadsItem finish ts (.plain e) := by
  intro front rest hfront hrest harrow
  rw [readItem]
  refine (h front rest hfront hrest).bind fun _ => ?_
  simp only [afterMark?_eq_none harrow]
  exact .ok

theorem ReadsItem.keyed {finish : Nat} {a b : List Token} {key value : Expr}
    (ha : Reads finish .choice a key) (hb : Reads finish .choice b value) :
    ReadsItem finish (a ++ .mark .fatArrow :: b) (.keyed key value) := by
  intro front rest hfront hrest _
  obtain ⟨fa, arrow, fb, rfl, hfa, harrow, hfb⟩ := tokens_eq_append_cons hfront
  rw [List.append_assoc, List.cons_append, readItem]
  refine (ha fa _ hfa (.cons harrow (not_continues_of_endsChoice rfl))).bind fun _ => ?_
  simp only [afterMark?_cons harrow]
  exact (hb fb rest hfb hrest).bind fun _ => .ok

namespace ReadsUpTo

variable {finish : Nat} {a b ts : List Token}

theorem lastItem {item : ArrayMember} (hbegins : Begins .choice ts)
    (h : ReadsItem finish ts item) : ReadsUpTo .rightBracket (readItems finish) ts [item] := by
  intro front closing rest hfront hclosing
  rw [readItems]
  simp only [afterMark?_eq_none (m := .rightBracket) (.mark_of_begins hfront hbegins rfl _)]
  have hend : ¬ Continues .choice (.mark .rightBracket) := not_continues_of_endsChoice rfl
  refine (h front _ hfront (.cons hclosing hend) (.mark hclosing (by decide))).bind fun _ => ?_
  simp only [afterMark?_eq_none (m := .comma) (.mark hclosing (by decide)), afterMark?_cons hclosing]
  exact .ok

theorem moreItems {item : ArrayMember} {items : List ArrayMember}
    (hbegins : Begins .choice a) (ha : ReadsItem finish a item)
    (hb : ReadsUpTo .rightBracket (readItems finish) b items) :
    ReadsUpTo .rightBracket (readItems finish) (a ++ .mark .comma :: b) (item :: items) := by
  intro front closing rest hfront hclosing
  obtain ⟨fa, comma, fb, rfl, hfa, hcomma, hfb⟩ := tokens_eq_append_cons hfront
  rw [List.append_assoc, List.cons_append, readItems]
  simp only [afterMark?_eq_none (m := .rightBracket) (.mark_of_begins hfa hbegins rfl _)]
  have hend : ¬ Continues .choice (.mark .comma) := not_continues_of_endsChoice rfl
  refine (ha fa _ hfa (.cons hcomma hend) (.mark hcomma (by decide))).bind fun _ => ?_
  simp only [afterMark?_cons hcomma]
  exact (hb fb closing rest hfb hclosing).bind fun _ => .ok

end ReadsUpTo

/-! ## Every derivation is read -/

mutual

theorem reads_of_derives (finish : Nat) {level : Level} {ts : List Token} {e : Expr} :
    Derives level ts e → Reads finish level ts e
  | .ternary ha hb hc =>
    .ternary (reads_of_derives finish ha) hb.begins (reads_of_derives finish hb)
      (reads_of_derives finish hc)
  | .orElse ha hb => .orElse (reads_of_derives finish ha) (reads_of_derives finish hb)
  | .choice h => .choice (reads_of_derives finish h)
  | .coalesce ha hb => .coalesce (reads_of_derives finish ha) (reads_of_derives finish hb)
  | .fallback h => .fallback (reads_of_derives finish h)
  | .operator ha ht hb => .operator (reads_of_derives finish ha) ht (reads_of_derives finish hb)
  | .operand h => .operand (reads_of_derives finish h)
  | .not h => .not (reads_of_derives finish h)
  | .negate h => .negate (reads_of_derives finish h)
  | .plus h => .plus (reads_of_derives finish h)
  | .signed h => .signed (reads_of_derives finish h)
  | .property h ht hthis => .property (reads_of_derives finish h) ht hthis
  | .index ha hb => .index (reads_of_derives finish ha) (reads_of_derives finish hb)
  | .access h => .access h.begins (reads_of_derives finish h)
  | .variable => .bare
  | .ownName ht => .ownName ht
  | .int => .int
  | .float => .float
  | .string => .string
  | .constant h => .constant h
  | .paren h => .paren (reads_of_derives finish h)
  | .array h => .array (reads_of_items finish h)
  | .call h => .call (reads_of_arguments finish h)

theorem reads_of_arguments (finish : Nat) {ts : List Token} {es : List Expr} :
    ArgumentList ts es → ReadsUpTo .rightParen (readArguments finish) ts es
  | .none => .noArguments
  | .some h => .someArguments h.begins (reads_of_moreArguments finish h)

theorem reads_of_moreArguments (finish : Nat) {ts : List Token} {es : List Expr} :
    MoreArguments ts es → ReadsUpTo .rightParen (readMoreArguments finish) ts es
  | .last h => .lastArgument (reads_of_derives finish h)
  | .more ha hb => .moreArguments (reads_of_derives finish ha) (reads_of_moreArguments finish hb)

theorem reads_of_items (finish : Nat) {ts : List Token} {items : List ArrayMember} :
    ItemList ts items → ReadsUpTo .rightBracket (readItems finish) ts items
  | .none => .noItems
  | .last h => .lastItem h.begins (reads_of_item finish h)
  | .more ha hb => .moreItems ha.begins (reads_of_item finish ha) (reads_of_items finish hb)

theorem reads_of_item (finish : Nat) {ts : List Token} {item : ArrayMember} :
    Item ts item → ReadsItem finish ts item
  | .plain h => .plain (reads_of_derives finish h)
  | .keyed ha hb => .keyed (reads_of_derives finish ha) (reads_of_derives finish hb)

end

end Stencil.Expr
