import Stencil.Expression.Parser
/-
  The grammar of expressions.

  An expression of a level is what one of the rules of the level makes of expressions of this level and of
  tighter ones.  The rules are those of the table of precedences: the choice and `??` nest to the right, the
  operators between them and the signs to the left, and the accesses behind an atom to the left.  The rules
  look at tokens only, not at where they stand or how they were spelt.

  Beside the grammar stands what a reader of it must know: which tokens can begin an expression, and which
  would go on with an expression of a level.
-/

namespace Stencil

/-- The levels of expressions, from the loosest to the tightest. -/
inductive Level where
  | choice
  | fallback
  | left (l : LeftLevel)
  | signed
  | access
  | atom

namespace LeftLevel

/-- The level of the operands of a level that nests to the left. -/
def operand : LeftLevel → Level
  | .or => .left .and
  | .and => .left .equality
  | .equality => .left .comparison
  | .comparison => .left .concat
  | .concat => .left .sum
  | .sum => .left .product
  | .product => .signed

theorem operand_of_tighter? {l m : LeftLevel} (h : l.tighter? = some m) : l.operand = .left m := by
  cases l <;> cases h <;> rfl

theorem operand_of_tighter?_eq_none {l : LeftLevel} (h : l.tighter? = none) :
    l.operand = .signed := by
  cases l <;> cases h
  rfl

end LeftLevel

namespace Grammar

/-- How the operators of the levels that nest to the left are written. -/
inductive Writes : LeftLevel → Token → BinaryOp → Prop where
  | orMark : Writes .or (.mark .orOr) .or
  | orWord {word : String} (h : Text.lowerAscii word = "or") : Writes .or (.ident word) .or
  | andMark : Writes .and (.mark .andAnd) .and
  | andWord {word : String} (h : Text.lowerAscii word = "and") : Writes .and (.ident word) .and
  | equal : Writes .equality (.mark .equal) .equal
  | notEqual : Writes .equality (.mark .notEqual) .notEqual
  | identical : Writes .equality (.mark .identical) .identical
  | notIdentical : Writes .equality (.mark .notIdentical) .notIdentical
  | less : Writes .comparison (.mark .less) .less
  | lessEqual : Writes .comparison (.mark .lessEqual) .lessEqual
  | greater : Writes .comparison (.mark .greater) .greater
  | greaterEqual : Writes .comparison (.mark .greaterEqual) .greaterEqual
  | concat : Writes .concat (.mark .dot) .concat
  | add : Writes .sum (.mark .plus) (.arithmetic .add)
  | subtract : Writes .sum (.mark .minus) (.arithmetic .subtract)
  | multiply : Writes .product (.mark .star) (.arithmetic .multiply)
  | divide : Writes .product (.mark .slash) (.arithmetic .divide)
  | modulo : Writes .product (.mark .percent) (.arithmetic .modulo)

/-- The two arrows before the name of a property. -/
inductive IsArrow : Token → Prop where
  | arrow : IsArrow (.mark .arrow)
  | nullsafe : IsArrow (.mark .nullsafeArrow)

theorem not_isArrow_leftBracket : ¬ IsArrow (.mark .leftBracket) := by
  intro h
  cases h

/-- The names of the constants, in any case. -/
inductive IsConstant (name : String) : Value → Prop where
  | yes (h : Text.lowerAscii name = "true") : IsConstant name (.bool true)
  | no (h : Text.lowerAscii name = "false") : IsConstant name (.bool false)
  | null (h : Text.lowerAscii name = "null") : IsConstant name .null

mutual

/-- These tokens are an expression of a level. -/
inductive Derives : Level → List Token → Expr → Prop where
  | ternary {a b c : List Token} {condition yes no : Expr} (ha : Derives .fallback a condition)
      (hb : Derives .choice b yes) (hc : Derives .choice c no) :
      Derives .choice (a ++ .mark .question :: b ++ .mark .colon :: c) (.ternary condition yes no)
  | orElse {a b : List Token} {condition no : Expr} (ha : Derives .fallback a condition)
      (hb : Derives .choice b no) :
      Derives .choice (a ++ .mark .question :: .mark .colon :: b) (.orElse condition no)
  | choice {ts : List Token} {e : Expr} (h : Derives .fallback ts e) : Derives .choice ts e
  | coalesce {a b : List Token} {left right : Expr} (ha : Derives (.left .or) a left)
      (hb : Derives .fallback b right) :
      Derives .fallback (a ++ .mark .coalesce :: b) (.binary .coalesce left right)
  | fallback {ts : List Token} {e : Expr} (h : Derives (.left .or) ts e) : Derives .fallback ts e
  | operator {l : LeftLevel} {a b : List Token} {t : Token} {op : BinaryOp} {left right : Expr}
      (ha : Derives (.left l) a left) (ht : Writes l t op) (hb : Derives l.operand b right) :
      Derives (.left l) (a ++ t :: b) (.binary op left right)
  | operand {l : LeftLevel} {ts : List Token} {e : Expr} (h : Derives l.operand ts e) :
      Derives (.left l) ts e
  | not {ts : List Token} {e : Expr} (h : Derives .signed ts e) :
      Derives .signed (.mark .bang :: ts) (.unary .not e)
  | negate {ts : List Token} {e : Expr} (h : Derives .signed ts e) :
      Derives .signed (.mark .minus :: ts) (.unary .negate e)
  /-- A plus sign leaves no trace. -/
  | plus {ts : List Token} {e : Expr} (h : Derives .signed ts e) :
      Derives .signed (.mark .plus :: ts) e
  | signed {ts : List Token} {e : Expr} (h : Derives .access ts e) : Derives .signed ts e
  /-- A property of anything but the bare `$this`, whose properties are variables. -/
  | property {ts : List Token} {t : Token} {e : Expr} {name : String} (h : Derives .access ts e)
      (ht : IsArrow t) (hthis : ts ≠ [.variable "this"]) :
      Derives .access (ts ++ [t, .ident name]) (.property e name)
  | index {a b : List Token} {e key : Expr} (ha : Derives .access a e) (hb : Derives .choice b key) :
      Derives .access (a ++ .mark .leftBracket :: b ++ [.mark .rightBracket]) (.index e key)
  | access {ts : List Token} {e : Expr} (h : Derives .atom ts e) : Derives .access ts e
  | variable {name : String} : Derives .atom [.variable name] (.variable name)
  | ownName {t : Token} {name : String} (ht : IsArrow t) :
      Derives .atom [.variable "this", t, .ident name] (.variable name)
  | int {n : Int64} : Derives .atom [.int n] (.literal (.int n))
  | float {x : Float} : Derives .atom [.float x] (.literal (.float x))
  | string {s : String} : Derives .atom [.string s] (.literal (.text s))
  | constant {name : String} {v : Value} (h : IsConstant name v) :
      Derives .atom [.ident name] (.literal v)
  | paren {ts : List Token} {e : Expr} (h : Derives .choice ts e) :
      Derives .atom (.mark .leftParen :: ts ++ [.mark .rightParen]) e
  | array {ts : List Token} {items : List ArrayMember} (h : ItemList ts items) :
      Derives .atom (.mark .leftBracket :: ts ++ [.mark .rightBracket]) (.array items)
  | call {name : String} {ts : List Token} {arguments : List Expr} (h : ArgumentList ts arguments) :
      Derives .atom (.ident name :: .mark .leftParen :: ts ++ [.mark .rightParen])
        (.call (Text.lowerAscii name) arguments)

/-- These tokens are the arguments of a call. -/
inductive ArgumentList : List Token → List Expr → Prop where
  | none : ArgumentList [] []
  | some {ts : List Token} {es : List Expr} (h : MoreArguments ts es) : ArgumentList ts es

/-- These tokens are arguments with commas between them, and none behind the last. -/
inductive MoreArguments : List Token → List Expr → Prop where
  | last {ts : List Token} {e : Expr} (h : Derives .choice ts e) : MoreArguments ts [e]
  | more {a b : List Token} {e : Expr} {es : List Expr} (ha : Derives .choice a e)
      (hb : MoreArguments b es) : MoreArguments (a ++ .mark .comma :: b) (e :: es)

/-- These tokens are the items of an array, with commas between them and perhaps one behind the last. -/
inductive ItemList : List Token → List ArrayMember → Prop where
  | none : ItemList [] []
  | last {ts : List Token} {item : ArrayMember} (h : Item ts item) : ItemList ts [item]
  | more {a b : List Token} {item : ArrayMember} {items : List ArrayMember} (ha : Item a item)
      (hb : ItemList b items) : ItemList (a ++ .mark .comma :: b) (item :: items)

/-- These tokens are an item of an array. -/
inductive Item : List Token → ArrayMember → Prop where
  | plain {ts : List Token} {e : Expr} (h : Derives .choice ts e) : Item ts (.plain e)
  | keyed {a b : List Token} {key value : Expr} (ha : Derives .choice a key)
      (hb : Derives .choice b value) : Item (a ++ .mark .fatArrow :: b) (.keyed key value)

end

/-! ## The tokens of lexemes -/

/-- The tokens of lexemes. -/
def tokens (ts : List Lexeme) : List Token := ts.map Lexeme.token

@[simp] theorem tokens_nil : tokens [] = [] := rfl

@[simp] theorem tokens_cons (lexeme : Lexeme) (ts : List Lexeme) :
    tokens (lexeme :: ts) = lexeme.token :: tokens ts := rfl

@[simp] theorem tokens_append (ts ts' : List Lexeme) : tokens (ts ++ ts') = tokens ts ++ tokens ts' :=
  List.map_append

theorem tokens_eq_append {front : List Lexeme} {a b : List Token} (h : tokens front = a ++ b) :
    ∃ fa fb, front = fa ++ fb ∧ tokens fa = a ∧ tokens fb = b :=
  List.map_eq_append_iff.1 h

theorem tokens_eq_cons {front : List Lexeme} {t : Token} {b : List Token}
    (h : tokens front = t :: b) :
    ∃ lexeme fb, front = lexeme :: fb ∧ lexeme.token = t ∧ tokens fb = b :=
  List.map_eq_cons_iff.1 h

theorem tokens_eq_append_cons {front : List Lexeme} {t : Token} {a b : List Token}
    (h : tokens front = a ++ t :: b) :
    ∃ fa lexeme fb, front = fa ++ lexeme :: fb ∧ tokens fa = a ∧ lexeme.token = t ∧ tokens fb = b := by
  obtain ⟨fa, back, rfl, hfa, hback⟩ := tokens_eq_append h
  obtain ⟨lexeme, fb, rfl, hlexeme, hfb⟩ := tokens_eq_cons hback
  exact ⟨fa, lexeme, fb, rfl, hfa, hlexeme, hfb⟩

theorem tokens_eq_singleton {front : List Lexeme} {t : Token} (h : tokens front = [t]) :
    ∃ lexeme, front = [lexeme] ∧ lexeme.token = t := by
  obtain ⟨lexeme, back, rfl, hlexeme, hback⟩ := tokens_eq_cons h
  obtain rfl := List.map_eq_nil_iff.1 hback
  exact ⟨lexeme, rfl, hlexeme⟩

/-! ## Operators -/

theorem writes_iff {l : LeftLevel} {t : Token} {op : BinaryOp} :
    Writes l t op ↔ l.operator? t = some op := by
  constructor
  · intro h
    cases h with
    | orWord h => simp [LeftLevel.operator?, h]
    | andWord h => simp [LeftLevel.operator?, h]
    | _ => rfl
  · intro h
    unfold LeftLevel.operator? at h
    split at h
    all_goals first
      | (obtain rfl := Option.some.inj h; constructor)
      | cases h
      | skip
    -- the two words that are operators are left
    · split at h
      · next hword =>
        obtain rfl := Option.some.inj h
        exact .orWord (eq_of_beq hword)
      · cases h
    · split at h
      · next hword =>
        obtain rfl := Option.some.inj h
        exact .andWord (eq_of_beq hword)
      · cases h

/-- A token writes an operator of one level only. -/
theorem Writes.unique {l m : LeftLevel} {t : Token} {op op' : BinaryOp} (h : Writes l t op)
    (h' : Writes m t op') : l = m := by
  cases h with
  | orWord h =>
    cases h' with
    | orWord => rfl
    | andWord h' => rw [h] at h'; exact absurd h' (by decide)
  | andWord h =>
    cases h' with
    | andWord => rfl
    | orWord h' => rw [h] at h'; exact absurd h' (by decide)
  | _ =>
    cases h'
    rfl

theorem isConstant_iff {name : String} {v : Value} :
    IsConstant name v ↔ Expr.constant? name = some v := by
  constructor
  · intro h
    cases h with
    | yes h => simp [Expr.constant?, h]
    | no h => simp [Expr.constant?, h]
    | null h => simp [Expr.constant?, h]
  · intro h
    unfold Expr.constant? at h
    split at h
    · next hname => exact Option.some.inj h ▸ .yes hname
    · next hname => exact Option.some.inj h ▸ .no hname
    · next hname => exact Option.some.inj h ▸ .null hname
    · cases h

/-! ## How expressions begin and go on -/

/-- Whether a token can begin an atom. -/
def beginsAtom : Token → Bool
  | .mark m => m == .leftParen || m == .leftBracket
  | _ => true

/-- Whether a token is a sign. -/
def isSign : Token → Bool
  | .mark m => m == .bang || m == .minus || m == .plus
  | _ => false

/-- Whether a token can begin an expression of a level. -/
def begins (level : Level) (t : Token) : Bool :=
  match level with
  | .access | .atom => beginsAtom t
  | _ => beginsAtom t || isSign t

/-- Tokens begin with one that can begin an expression of a level. -/
abbrev Begins (level : Level) (ts : List Token) : Prop :=
  ∃ t more, ts = t :: more ∧ begins level t = true

/-- What begins an operand of a level begins an expression of the level. -/
theorem begins_of_operand {l : LeftLevel} {t : Token} (h : begins l.operand t = true) :
    begins (.left l) t = true := by
  cases l <;> exact h

/-- An expression begins with a token that can begin one of its level. -/
theorem Derives.begins {level : Level} {ts : List Token} {e : Expr} :
    Derives level ts e → Begins level ts
  | .ternary ha _ _ => by
    obtain ⟨t, more, rfl, ht⟩ := ha.begins
    exact ⟨t, _, rfl, ht⟩
  | .orElse ha _ => by
    obtain ⟨t, more, rfl, ht⟩ := ha.begins
    exact ⟨t, _, rfl, ht⟩
  | .choice h => h.begins
  | .coalesce ha _ => by
    obtain ⟨t, more, rfl, ht⟩ := ha.begins
    exact ⟨t, _, rfl, ht⟩
  | .fallback h => h.begins
  | .operator ha _ _ => by
    obtain ⟨t, more, rfl, ht⟩ := ha.begins
    exact ⟨t, _, rfl, ht⟩
  | .operand h => by
    obtain ⟨t, more, rfl, ht⟩ := h.begins
    exact ⟨t, more, rfl, begins_of_operand ht⟩
  | .not _ => ⟨_, _, rfl, rfl⟩
  | .negate _ => ⟨_, _, rfl, rfl⟩
  | .plus _ => ⟨_, _, rfl, rfl⟩
  | .signed h => by
    obtain ⟨t, more, rfl, ht⟩ := h.begins
    exact ⟨t, more, rfl, Bool.or_eq_true_iff.2 (.inl ht)⟩
  | .property h _ _ => by
    obtain ⟨t, more, rfl, ht⟩ := h.begins
    exact ⟨t, _, rfl, ht⟩
  | .index ha _ => by
    obtain ⟨t, more, rfl, ht⟩ := ha.begins
    exact ⟨t, _, rfl, ht⟩
  | .access h => h.begins
  | .variable => ⟨_, _, rfl, rfl⟩
  | .ownName _ => ⟨_, _, rfl, rfl⟩
  | .int => ⟨_, _, rfl, rfl⟩
  | .float => ⟨_, _, rfl, rfl⟩
  | .string => ⟨_, _, rfl, rfl⟩
  | .constant _ => ⟨_, _, rfl, rfl⟩
  | .paren _ => ⟨_, _, rfl, rfl⟩
  | .array _ => ⟨_, _, rfl, rfl⟩
  | .call _ => ⟨_, _, rfl, rfl⟩

theorem MoreArguments.begins {ts : List Token} {es : List Expr} (h : MoreArguments ts es) :
    Begins .choice ts := by
  cases h with
  | last h => exact h.begins
  | more ha _ =>
    obtain ⟨t, more, rfl, ht⟩ := ha.begins
    exact ⟨t, _, rfl, ht⟩

theorem Item.begins {ts : List Token} {item : ArrayMember} (h : Item ts item) : Begins .choice ts := by
  cases h with
  | plain h => exact h.begins
  | keyed ha _ =>
    obtain ⟨t, more, rfl, ht⟩ := ha.begins
    exact ⟨t, _, rfl, ht⟩

/-- Whether a token goes on with an access. -/
inductive ContinuesAccess : Token → Prop where
  | arrow {t : Token} (h : IsArrow t) : ContinuesAccess t
  | bracket : ContinuesAccess (.mark .leftBracket)
  /-- Nothing that ends an access may be called. -/
  | call : ContinuesAccess (.mark .leftParen)

/-- Whether a token that follows an expression of a level would be read as part of it. -/
def Continues : Level → Token → Prop
  | .atom, t => t = .mark .leftParen
  | .access, t | .signed, t => ContinuesAccess t
  | .left l, t => ContinuesAccess t ∨ ∃ m op, m.rank ≤ l.rank ∧ Writes m t op
  | .fallback, t => ContinuesAccess t ∨ (∃ m op, Writes m t op) ∨ t = .mark .coalesce
  | .choice, t =>
    ContinuesAccess t ∨ (∃ m op, Writes m t op) ∨ t = .mark .coalesce ∨ t = .mark .question

theorem continues_of_operand {l : LeftLevel} {t : Token} (h : Continues l.operand t) :
    Continues (.left l) t := by
  have htighter : ∀ m : LeftLevel, m.rank < l.rank → Continues (.left m) t → Continues (.left l) t := by
    rintro m hm (h | ⟨k, op, hk, hwrites⟩)
    · exact .inl h
    · exact .inr ⟨k, op, by omega, hwrites⟩
  cases l with
  | or => exact htighter .and (by decide) h
  | and => exact htighter .equality (by decide) h
  | equality => exact htighter .comparison (by decide) h
  | comparison => exact htighter .concat (by decide) h
  | concat => exact htighter .sum (by decide) h
  | sum => exact htighter .product (by decide) h
  | product => exact .inl h

theorem continues_fallback {t : Token} (h : Continues (.left .or) t) : Continues .fallback t := by
  rcases h with hc | ⟨m, op, _, hwrites⟩
  · exact .inl hc
  · exact .inr (.inl ⟨m, op, hwrites⟩)

theorem continues_choice {t : Token} (h : Continues .fallback t) : Continues .choice t := by
  rcases h with hc | hwrites | hcoalesce
  · exact .inl hc
  · exact .inr (.inl hwrites)
  · exact .inr (.inr (.inl hcoalesce))

theorem Writes.not_continuesAccess {l : LeftLevel} {t : Token} {op : BinaryOp} (h : Writes l t op) :
    ¬ ContinuesAccess t := by
  intro hc
  cases hc with
  | arrow ht => cases ht <;> cases h
  | bracket => cases h
  | call => cases h

/-- An operator of a level does not go on with an operand of the level. -/
theorem Writes.not_continues_operand {l : LeftLevel} {t : Token} {op : BinaryOp}
    (h : Writes l t op) : ¬ Continues l.operand t := by
  have htighter : ∀ m : LeftLevel, m.rank < l.rank → ¬ Continues (.left m) t := by
    rintro m hm (hc | ⟨k, op', hk, hwrites⟩)
    · exact h.not_continuesAccess hc
    · rw [h.unique hwrites] at hm
      omega
  cases l with
  | or => exact htighter .and (by decide)
  | and => exact htighter .equality (by decide)
  | equality => exact htighter .comparison (by decide)
  | comparison => exact htighter .concat (by decide)
  | concat => exact htighter .sum (by decide)
  | sum => exact htighter .product (by decide)
  | product => exact h.not_continuesAccess

theorem not_continues_question : ¬ Continues .fallback (.mark .question) := by
  rintro (hc | ⟨l, op, hwrites⟩ | hc)
  · cases hc with
    | arrow ht => cases ht
  · cases hwrites
  · cases hc

theorem not_continues_coalesce : ¬ Continues (.left .or) (.mark .coalesce) := by
  rintro (hc | ⟨l, op, _, hwrites⟩)
  · cases hc with
    | arrow ht => cases ht
  · cases hwrites

/-- The marks that may stand behind a whole expression. -/
def endsChoice (m : Mark) : Bool :=
  m == .rightParen || m == .rightBracket || m == .comma || m == .colon || m == .fatArrow

theorem not_continues_of_endsChoice {m : Mark} (h : endsChoice m = true) :
    ¬ Continues .choice (.mark m) := by
  rintro (hc | ⟨l, op, hwrites⟩ | hc | hc)
  · cases hc with
    | arrow ht => cases ht <;> cases h
    | bracket => cases h
    | call => cases h
  · cases hwrites <;> cases h
  · cases hc
    cases h
  · cases hc
    cases h

end Grammar

end Stencil
