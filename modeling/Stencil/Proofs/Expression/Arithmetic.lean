import Stencil.Proofs.Decimal.WholeNumbers
import Stencil.Expression.Eval
/-
  Arithmetic of whole numbers.

  Operands that read as whole numbers are computed with exactly.  A result that is a whole number and fits
  a word is that word; any other one is a floating-point number, so nothing ever wraps around; and
  only a division by zero has none.  Operands that do not read as numbers are refused first.

  The remainder is the exception: its operands are made floating-point numbers on the way, so it is
  that of what is left of them, and exact where both come back as they were.
-/

namespace Stencil

/-! ## Results that fit -/

theorem Decimal.word?_eq_some_iff {m : Int} {n : Int64} : Decimal.word? m = some n ↔ n.toInt = m := by
  constructor
  · exact Decimal.toInt_of_word?
  · rintro rfl
    exact Decimal.word?_toInt n

namespace Number

theorem toValue_intOr_eq_int {exact : Int} {inexact : Float} {n : Int64} :
    (intOr exact inexact).toValue = .int n ↔ n.toInt = exact := by
  rw [← Decimal.word?_eq_some_iff, intOr]
  cases Decimal.word? exact with
  | none => simp [toValue]
  | some w => simp [toValue]

theorem toValue_intOr_eq_float {exact : Int} {inexact : Float} :
    (∃ x, (intOr exact inexact).toValue = .float x) ↔ ∀ n : Int64, n.toInt ≠ exact := by
  simp only [ne_eq, ← Decimal.word?_eq_some_iff, intOr]
  cases Decimal.word? exact with
  | none => simp [toValue]
  | some w => simp [toValue]

end Number

/-! ## Whole numbers as operands -/

namespace ArithmeticOp

/-- The whole number `n` is exactly what an operator makes of `a` and `b`. -/
def Exactly (op : ArithmeticOp) (a b n : Int) : Prop :=
  match op with
  | .add => n = a + b
  | .subtract => n = a - b
  | .multiply => n = a * b
  | .divide => b ≠ 0 ∧ n * b = a
  | .modulo => b ≠ 0 ∧ n = a.tmod b

/-- What an operator makes of two words: the exact whole number if that fits a word, an error for a
    division by zero, and a floating-point number in all other cases. -/
structure Computes (op : ArithmeticOp) (a b : Int64) (result : Except EvalError Value) : Prop where
  int : ∀ n : Int64, result = .ok (.int n) ↔ op.Exactly a.toInt b.toInt n.toInt
  zero : result = .error .divisionByZero ↔ op = .divide ∧ b = 0
  float : (∃ x, result = .ok (.float x)) ↔
    ¬ (op = .divide ∧ b = 0) ∧ ∀ n : Int64, ¬ op.Exactly a.toInt b.toInt n.toInt

/-- A sum, difference or product. -/
theorem computes_exactOr {op : ArithmeticOp} {exact : Int → Int → Int}
    {inexact : Float → Float → Float} (hop : op ≠ .divide)
    (hexact : ∀ a b n, op.Exactly a b n ↔ n = exact a b) (a b : Int64) :
    Computes op a b (.ok (exactOr exact inexact (.int a) (.int b))) where
  int n := by rw [hexact, exactOr, Except.ok.injEq, Number.toValue_intOr_eq_int]
  zero := by simp [hop]
  float := by simp [hop, hexact, exactOr, Number.toValue_intOr_eq_float]

theorem natAbs_toInt_lt (a : Int64) : a.toInt.natAbs < 2 ^ 64 := by
  have hlow := a.le_toInt
  have hhigh := a.toInt_lt
  omega

theorem toInt_eq_zero_iff {b : Int64} : b.toInt = 0 ↔ b = 0 := Int64.toInt_inj (y := 0)

/-- The divisor is zero as a floating-point number just when it is zero. -/
theorem isZero_toFloat_int {b : Int64} : Binary64.isZero (Number.int b).toFloat = true ↔ b = 0 :=
  (Binary64.isZero_ofInt (natAbs_toInt_lt b)).trans toInt_eq_zero_iff

/-- A whole quotient is one that leaves no remainder. -/
theorem exactly_divide_iff {a b : Int} (hb : b ≠ 0) (n : Int) :
    Exactly .divide a b n ↔ a.tmod b = 0 ∧ n = a.tdiv b := by
  constructor
  · rintro ⟨-, rfl⟩
    exact ⟨Int.mul_tmod_left n b, (Int.mul_tdiv_cancel n hb).symm⟩
  · rintro ⟨hmod, rfl⟩
    have hsum := Int.tmod_add_mul_tdiv a b
    refine ⟨hb, ?_⟩
    rw [Int.mul_comm]
    omega

/-- A quotient. -/
theorem computes_quotient (a b : Int64) : Computes .divide a b (quotient (.int a) (.int b)) := by
  by_cases hb : b = 0
  · have hzero : quotient (.int a) (.int b) = .error .divisionByZero := by
      rw [quotient, if_pos (isZero_toFloat_int.2 hb)]
    rw [hzero]
    exact ⟨by simp [Exactly, hb], by simp [hb], by simp [hb]⟩
  · have hexact := exactly_divide_iff (a := a.toInt) (mt toInt_eq_zero_iff.1 hb)
    rw [quotient, if_neg (mt isZero_toFloat_int.1 hb)]
    dsimp only
    split
    · next hmod =>
      exact ⟨fun n => by rw [hexact, Except.ok.injEq, Number.toValue_intOr_eq_int, and_iff_right hmod],
        by simp [hb], by simp [hb, hexact, hmod, Number.toValue_intOr_eq_float]⟩
    · next hmod => exact ⟨by simp [hexact, hmod], by simp [hb], by simp [hb, hexact, hmod]⟩

/-- All operators but the remainder. -/
theorem computes_onNumbers {op : ArithmeticOp} (hop : op ≠ .modulo) (a b : Int64) :
    Computes op a b (op.onNumbers (.int a) (.int b)) := by
  cases op with
  | add => exact computes_exactOr (by decide) (fun _ _ _ => Iff.rfl) a b
  | subtract => exact computes_exactOr (by decide) (fun _ _ _ => Iff.rfl) a b
  | multiply => exact computes_exactOr (by decide) (fun _ _ _ => Iff.rfl) a b
  | divide => exact computes_quotient a b
  | modulo => exact absurd rfl hop

/-! ## The remainder -/

theorem toInt_truncate_toFloat (a : Int64) :
    (Binary64.truncate (Number.int a).toFloat).toInt = Binary64.kept a.toInt :=
  Binary64.toInt_truncate_ofInt (natAbs_toInt_lt a)

theorem kept_toInt_eq_zero_iff {b : Int64} : Binary64.kept b.toInt = 0 ↔ b = 0 :=
  Binary64.kept_eq_zero_iff.trans toInt_eq_zero_iff

/-- What is left of the operands leaves a remainder that fits a word. -/
theorem toInt_remainder_kept (a : Int) {b : Int} (hb : Binary64.kept b ≠ 0) :
    (Int64.ofInt ((Binary64.kept a).tmod (Binary64.kept b))).toInt =
      (Binary64.kept a).tmod (Binary64.kept b) := by
  have hbounds := Binary64.kept_bounds b
  have habs := Int.natAbs_tmod (Binary64.kept a) (Binary64.kept b)
  have hlt := Nat.mod_lt (Binary64.kept a).natAbs (y := (Binary64.kept b).natAbs) (by omega)
  exact Int64.toInt_ofInt_of_le (by omega) (by omega)

/-- There is no remainder for a divisor of zero, and that of what is left of the operands for others. -/
theorem remainder_int (a b : Int64) :
    (remainder (.int a) (.int b) = .error .divisionByZero ↔ b = 0) ∧
      (b ≠ 0 → ∃ n : Int64, remainder (.int a) (.int b) = .ok (.int n) ∧
        n.toInt = (Binary64.kept a.toInt).tmod (Binary64.kept b.toInt)) := by
  have hzero : Binary64.truncate (Number.int b).toFloat = 0 ↔ b = 0 := by
    rw [← toInt_eq_zero_iff, toInt_truncate_toFloat, kept_toInt_eq_zero_iff]
  simp only [remainder, hzero, toInt_truncate_toFloat]
  by_cases hb : b = 0
  · simp [hb]
  · refine ⟨by simp [hb], fun _ => ⟨_, if_neg hb, ?_⟩⟩
    exact toInt_remainder_kept a.toInt (mt kept_toInt_eq_zero_iff.1 hb)

end ArithmeticOp

/-! ## Whole numbers in expressions -/

/-- What the negative of a word is: the exact one if that fits a word, and a floating-point number
    otherwise. -/
structure Value.Negates (a : Int64) (result : Except EvalError Value) : Prop where
  int : ∀ n : Int64, result = .ok (.int n) ↔ n.toInt = -a.toInt
  float : (∃ x, result = .ok (.float x)) ↔ ∀ n : Int64, n.toInt ≠ -a.toInt

theorem Value.negates_negate {v : Value} {a : Int64} (h : v.number? = some (.int a)) :
    Value.Negates a v.negate := by
  rw [Value.negate, h]
  exact ⟨fun n => by rw [Except.ok.injEq, Number.toValue_intOr_eq_int],
    by simp only [Except.ok.injEq, Number.toValue_intOr_eq_float]⟩

namespace Expr

variable {fs : Functions} {scope : Scope} {l r : Expr} {v w : Value}

theorem eval_arithmetic (op : ArithmeticOp) (hl : eval fs scope l = .ok v)
    (hr : eval fs scope r = .ok w) :
    eval fs scope (.binary (.arithmetic op) l r) = op.apply v w := by
  rw [eval, hl, hr]
  rfl

theorem eval_negate (hl : eval fs scope l = .ok v) :
    eval fs scope (.unary .negate l) = v.negate := by
  rw [eval, hl]
  rfl

/-- Sums, differences, products, quotients and negatives of operands that read as whole numbers are exact
    words, or floating-point numbers where no word is exact; dividing by zero is the only failure.  An
    operand that does not read as a number is refused by every operator, whatever the other one is. -/
theorem eval_whole_exact (hl : eval fs scope l = .ok v) (hr : eval fs scope r = .ok w) :
    (∀ a b, v.number? = some (.int a) → w.number? = some (.int b) →
      ∀ op : ArithmeticOp, op ≠ .modulo → op.Computes a b (eval fs scope (.binary (.arithmetic op) l r))) ∧
    (∀ a, v.number? = some (.int a) → Value.Negates a (eval fs scope (.unary .negate l))) ∧
    (∀ op, v.number? = none ∨ w.number? = none →
      eval fs scope (.binary (.arithmetic op) l r) =
        .error (.type (.operands v.kind op w.kind))) ∧
    (v.number? = none → eval fs scope (.unary .negate l) = .error (.type (.negation v.kind))) := by
  refine ⟨fun a b ha hb op hop => ?_, fun a ha => ?_, fun op hnone => ?_, fun hnone => ?_⟩
  · rw [eval_arithmetic op hl hr, ArithmeticOp.apply, ha, hb]
    exact ArithmeticOp.computes_onNumbers hop a b
  · rw [eval_negate hl]
    exact Value.negates_negate ha
  · rw [eval_arithmetic op hl hr, ArithmeticOp.apply]
    rcases hnone with hnone | hnone
    · rw [hnone]
    · rw [hnone]
      cases v.number? <;> rfl
  · rw [eval_negate hl, Value.negate, hnone]

/-- A number written as text and a truth value, whose sum is one more than the largest word. -/
theorem eval_whole_exact_too_large :
    ∃ x, eval Functions.builtin (Scope.root [])
      (.binary (.arithmetic .add) (.literal (.text " 9223372036854775807 ")) (.literal (.bool true))) =
        .ok (.float x) := by
  have hl : eval Functions.builtin (Scope.root []) (.literal (.text " 9223372036854775807 ")) =
      .ok (.text " 9223372036854775807 ") := rfl
  have hr : eval Functions.builtin (Scope.root []) (.literal (.bool true)) = .ok (.bool true) := rfl
  have hcomputes := (eval_whole_exact hl hr).1 Int64.maxValue 1 rfl rfl .add (by decide)
  refine hcomputes.float.2 ⟨by decide, fun n hn => ?_⟩
  have hlt := n.toInt_lt
  have hsum : n.toInt = Int64.maxValue.toInt + (1 : Int64).toInt := hn
  rw [hsum] at hlt
  exact absurd hlt (by decide)

/-- The remainder of operands that read as whole numbers: there is none for a divisor of zero, and
    otherwise it is that of what floating-point numbers hold of the operands.  So it is exact where they
    hold both. -/
theorem eval_modulo_exact (hl : eval fs scope l = .ok v) (hr : eval fs scope r = .ok w) {a b : Int64}
    (ha : v.number? = some (.int a)) (hb : w.number? = some (.int b)) :
    (eval fs scope (.binary (.arithmetic .modulo) l r) = .error .divisionByZero ↔ b = 0) ∧
    (b ≠ 0 → ∃ n : Int64, eval fs scope (.binary (.arithmetic .modulo) l r) = .ok (.int n) ∧
      n.toInt = (Binary64.kept a.toInt).tmod (Binary64.kept b.toInt)) ∧
    (Binary64.Holds a → Binary64.Holds b → b ≠ 0 →
      ∃ n : Int64, eval fs scope (.binary (.arithmetic .modulo) l r) = .ok (.int n) ∧
        n.toInt = a.toInt.tmod b.toInt) := by
  obtain ⟨hzero, hkept⟩ := ArithmeticOp.remainder_int a b
  rw [eval_arithmetic .modulo hl hr, ArithmeticOp.apply, ha, hb]
  refine ⟨hzero, hkept, fun hholdsA hholdsB hne => ?_⟩
  obtain ⟨n, hn, hvalue⟩ := hkept hne
  refine ⟨n, hn, ?_⟩
  rw [hvalue, Binary64.kept_eq_iff.2 hholdsA, Binary64.kept_eq_iff.2 hholdsB]

/-- A negative dividend far beyond 53 bits, ten zeros behind them. -/
theorem eval_modulo_exact_large :
    ∃ n : Int64, eval Functions.builtin (Scope.root []) (.binary (.arithmetic .modulo)
      (.literal (.int (-9223372036854774784))) (.literal (.text "1000"))) = .ok (.int n) ∧
        n.toInt = -784 := by
  have hdividend : Binary64.Holds (-9223372036854774784) := .inl ⟨2 ^ 53 - 1, 10, by decide, by decide⟩
  have hdivisor : Binary64.Holds 1000 := .inl ⟨1000, 0, by decide, by decide⟩
  have hl : eval Functions.builtin (Scope.root []) (.literal (.int (-9223372036854774784))) =
      .ok (.int (-9223372036854774784)) := rfl
  have hr : eval Functions.builtin (Scope.root []) (.literal (.text "1000")) = .ok (.text "1000") := rfl
  exact (eval_modulo_exact hl hr rfl rfl).2.2 hdividend hdivisor (by decide)

/-- The first whole number that needs 54 bits is odd, and yet nothing remains when it is halved. -/
theorem eval_modulo_inexact :
    eval Functions.builtin (Scope.root []) (.binary (.arithmetic .modulo)
      (.literal (.int 9007199254740993)) (.literal (.int 2))) = .ok (.int 0) ∧
    (9007199254740993 : Int64).toInt.tmod (2 : Int64).toInt = 1 :=
  ⟨rfl, by decide⟩

end Expr

end Stencil
