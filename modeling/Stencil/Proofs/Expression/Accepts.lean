import Mathlib
import Stencil.Proofs.Expression.Soundness
import Stencil.Proofs.Expression.Completeness
/-
  The expressions that are accepted are those of the grammar.

  A list of tokens is read as an expression just when the grammar derives the expression from all of them,
  and it derives one at most.  What is refused is refused at a token or at the end of the text; only an
  expression without tokens is refused at its beginning, whatever blanks it is made of.
-/

namespace Stencil.Expr

open Grammar

theorem ofLexemes_eq_ok_iff (finish : Nat) {ls : List Lexeme} {e : Expr} :
    ofLexemes finish ls = .ok e ↔ Derives .choice (tokens ls) e := by
  constructor
  · intro h
    have hread := takes_readChoice finish ls
    unfold ofLexemes at h
    split at h
    · cases h
    · -- a front is read, and it is all of the tokens
      cases hp : readChoice finish ls with
      | error failure => simp [hp] at h
      | ok p =>
        rw [hp] at h hread
        obtain ⟨front, hfront, hderives⟩ := hread
        simp only at h
        split at h
        · next hrest =>
          obtain rfl := Except.ok.inj h
          have hall : ls = front := by rw [hfront, List.isEmpty_iff.1 hrest, List.append_nil]
          rwa [congrArg tokens hall]
        · cases h
  · intro h
    obtain ⟨t, more, hbegins, _⟩ := h.begins
    have hread := reads_of_derives finish h ls [] rfl .nil
    rw [List.append_nil] at hread
    obtain ⟨fits, hread⟩ := hread
    unfold ofLexemes
    rw [if_neg, hread]
    · rfl
    · intro hempty
      rw [List.isEmpty_iff.1 hempty] at hbegins
      cases hbegins

/-- A place where a part of the tokens is left is the start of a token, or the end. -/
theorem place_of_suffix {finish : Nat} {ls rest : List Lexeme} (h : rest <:+ ls) :
    place finish rest = finish ∨ ∃ lexeme ∈ ls, place finish rest = lexeme.start := by
  cases rest with
  | nil => exact .inl rfl
  | cons lexeme rest => exact .inr ⟨lexeme, h.subset List.mem_cons_self, rfl⟩

theorem ofLexemes_error {finish : Nat} {ls : List Lexeme} {failure : SyntaxFailure}
    (h : ofLexemes finish ls = .error failure) :
    failure.1 = finish ∨ (∃ lexeme ∈ ls, failure.1 = lexeme.start) ∨ (ls = [] ∧ failure.1 = 0) := by
  have hread := takes_readChoice finish ls
  unfold ofLexemes at h
  split at h
  · next hempty =>
    obtain rfl := Except.error.inj h
    exact .inr (.inr ⟨List.isEmpty_iff.1 hempty, rfl⟩)
  · have hsuffix : ∃ rest, rest <:+ ls ∧ failure.1 = place finish rest := by
      cases hp : readChoice finish ls with
      | error failure' =>
        rw [hp] at h hread
        obtain rfl := Except.error.inj h
        exact hread
      | ok p =>
        rw [hp] at h hread
        obtain ⟨front, hfront, _⟩ := hread
        simp only at h
        split at h
        · cases h
        · -- an expression was read, and something is left behind it
          obtain rfl := Except.error.inj h
          exact ⟨p.rest, ⟨front, hfront.symm⟩, rfl⟩
    obtain ⟨rest, hsuffix, hplace⟩ := hsuffix
    rw [hplace]
    exact (place_of_suffix hsuffix).imp_right .inl

/-- The grammar derives one expression at most from a list of tokens. -/
theorem derives_unique {ts : List Token} {e e' : Expr} (h : Derives .choice ts e)
    (h' : Derives .choice ts e') : e = e' := by
  -- The tokens are those of some lexemes, which are read in one way.
  obtain ⟨ls, rfl⟩ : ∃ ls, tokens ls = ts :=
    ⟨ts.map fun t => ⟨t, 0, []⟩, by simp [tokens, Function.comp_def]⟩
  have hread := (ofLexemes_eq_ok_iff 0).2 h
  exact Except.ok.inj (hread.symm.trans ((ofLexemes_eq_ok_iff 0).2 h'))

theorem parse_of_tokenize {source : String} {ls : List Lexeme} (h : tokenize source = .ok ls) :
    parse source = (ofLexemes (Text.byteLength source.toList) ls).mapError
      fun failure => .malformed source failure.1 failure.2 := by
  rw [parse, h]
  dsimp only
  cases ofLexemes (Text.byteLength source.toList) ls <;> rfl

/-- A text whose tokens can be read is accepted as an expression just when the grammar derives the
    expression from them, which is then the only one it derives.  Otherwise the error is placed where one
    of the tokens starts or at the end of the text, or at its beginning when it has no token. -/
theorem parse_accepts {source : String} {ls : List Lexeme} (h : tokenize source = .ok ls) :
    (∀ e, parse source = .ok e ↔ Derives .choice (tokens ls) e) ∧
    (∀ e e', Derives .choice (tokens ls) e → Derives .choice (tokens ls) e' → e = e') ∧
    ∀ error, parse source = .error error → ∃ offset problem,
      error = .malformed source offset problem ∧
      (offset = Text.byteLength source.toList ∨ (∃ lexeme ∈ ls, offset = lexeme.start) ∨
        (ls = [] ∧ offset = 0)) := by
  rw [parse_of_tokenize h]
  refine ⟨fun e => ?_, fun e e' => derives_unique, fun error herror => ?_⟩
  · rw [← ofLexemes_eq_ok_iff (Text.byteLength source.toList)]
    cases ofLexemes (Text.byteLength source.toList) ls <;> simp [Except.mapError]
  · cases hof : ofLexemes (Text.byteLength source.toList) ls with
    | error failure =>
      rw [hof] at herror
      obtain rfl := Except.error.inj herror
      exact ⟨failure.1, failure.2, rfl, ofLexemes_error hof⟩
    | ok e =>
      rw [hof] at herror
      cases herror

theorem parse_accepts_orElse :
    ∃ ls, tokenize "$this->a ?: 1" = .ok ls ∧
      parse "$this->a ?: 1" = .ok (.orElse (.variable "a") (.literal (.int 1))) := by
  have htokens : tokenize "$this->a ?: 1" = .ok
      [⟨.variable "this", 0, "$this".toList⟩, ⟨.mark .arrow, 5, "->".toList⟩,
        ⟨.ident "a", 7, "a".toList⟩, ⟨.mark .question, 9, "?".toList⟩,
        ⟨.mark .colon, 10, ":".toList⟩, ⟨.int 1, 12, "1".toList⟩] := by cbv
  -- An atom is an expression of every looser level.
  have hatom : ∀ {ts e}, Derives .atom ts e → Derives .fallback ts e := fun h =>
    .fallback (.operand (.operand (.operand (.operand (.operand (.operand (.operand
      (.signed (.access h)))))))))
  refine ⟨_, htokens, ((parse_accepts htokens).1 _).2 ?_⟩
  exact .orElse (hatom (.ownName .arrow)) (.choice (hatom .int))

/-- Blanks are refused at their beginning, where no token starts and the text does not end. -/
theorem blanks_refused_at_beginning :
    ¬ ∀ source ls, tokenize source = .ok ls → ∀ error, parse source = .error error →
      ∃ offset problem, error = .malformed source offset problem ∧
        (offset = Text.byteLength source.toList ∨ ∃ lexeme ∈ ls, offset = lexeme.start) := by
  intro h
  have htokens : tokenize "  " = .ok [] := by cbv
  have hparse : parse "  " = .error (.malformed "  " 0 .empty) := by cbv
  obtain ⟨offset, problem, herror, hoffset⟩ := h "  " [] htokens _ hparse
  obtain ⟨-, rfl, -⟩ := EvalError.malformed.inj herror
  rcases hoffset with hlength | ⟨_, hmem, _⟩
  · revert hlength
    decide
  · cases hmem

end Stencil.Expr
