import Stencil.Html
import Stencil.Expression.Eval
import Stencil.Proofs.Expression.Tokenized
import Stencil.Proofs.Expression.Accepts
/-
  The names that can be read as variables.

  A name behind a dollar sign is read as the variable of that name just when it is a name of expressions.  In
  one direction the name is the longest lexeme there.  In the other, a variable that is derived from
  tokens is named by one of them, and tokens are named as the grammar of lexemes allows.
-/

namespace Stencil

open Token (IsName)
open Grammar (Derives IsArrow)

/-- What may be a variable is what the grammar of lexemes has as a name. -/
theorem Html.isVariableName_iff {name : String} :
    isVariableName name = true ↔ IsName name.toList := by
  rw [isVariableName]
  generalize name.toList = cs
  constructor
  · intro h
    cases cs with
    | nil => cases h
    | cons c cs =>
      obtain ⟨hfirst, hmore⟩ := Bool.and_eq_true_iff.1 h
      exact .mk hfirst (List.all_eq_true.1 hmore)
  · intro h
    cases h with
    | mk hfirst hmore => exact Bool.and_eq_true_iff.2 ⟨hfirst, List.all_eq_true.2 hmore⟩

/-! ## From the name to the variable -/

/-- A name behind a dollar sign is one token. -/
theorem tokenize_variable {name : String} (h : IsName name.toList) :
    tokenize ("$" ++ name) = .ok [⟨.variable name, 0, '$' :: name.toList⟩] := by
  have hlongest : Token.Longest ('$' :: name.toList ++ []) ('$' :: name.toList)
      (some (.variable name)) := by
    cases hname : name.toList with
    | nil =>
      rw [hname] at h
      cases h
    | cons c cs =>
      rw [hname] at h
      cases h with
      | mk hfirst hmore =>
        have hrun : cs.takeWhile Token.isNameChar = cs := List.takeWhile_eq_self_iff.2 hmore
        have hlongest := @Token.longest_variable c cs hfirst
        rw [hrun, ← hname, String.ofList_toList] at hlongest
        rwa [List.append_nil, ← hname]
  have hread := Lexeme.readAll_lexeme hlongest 0
  rw [List.append_nil, Lexeme.readAll_nil] at hread
  have hsource : ("$" ++ name).toList = '$' :: name.toList := String.toList_append
  rw [tokenize, hsource, hread]
  rfl

theorem Grammar.derives_variable (name : String) : Derives .choice [.variable name] (.variable name) :=
  .choice (.fallback (.operand (.operand (.operand (.operand (.operand (.operand (.operand
    (.signed (.access .variable))))))))))

theorem Expr.parse_variable {name : String} (h : IsName name.toList) :
    parse ("$" ++ name) = .ok (.variable name) := by
  have hread : ∀ finish, ofLexemes finish [⟨.variable name, 0, '$' :: name.toList⟩] = .ok (.variable name) :=
    fun finish => (ofLexemes_eq_ok_iff finish).2 (Grammar.derives_variable name)
  rw [parse_of_tokenize (tokenize_variable h), hread]
  rfl

/-! ## From the variable to the name -/

/-- A variable is named by one of the tokens that it is derived from. -/
theorem Grammar.Derives.named {l : Level} {ts : List Token} {e : Expr} {name : String} :
    Derives l ts e → e = .variable name → .variable name ∈ ts ∨ .ident name ∈ ts
  | .choice h, he | .fallback h, he | .operand h, he | .signed h, he | .access h, he => h.named he
  | .plus h, he => (h.named he).imp (List.mem_cons_of_mem _) (List.mem_cons_of_mem _)
  | .variable, he => .inl (Expr.variable.inj he ▸ List.mem_cons_self)
  | .ownName _, he => .inr (Expr.variable.inj he ▸ by simp)
  | .paren h, he => (h.named he).imp (fun hmem => by simp [hmem]) (fun hmem => by simp [hmem])
  | .ternary .., he | .orElse .., he | .coalesce .., he | .operator .., he | .not _, he
  | .negate _, he | .property .., he | .index .., he | .int, he | .float, he | .string, he
  | .constant _, he | .array _, he | .call _, he => nomatch he

theorem Token.isName_of_spells {form : Token.Form} {w : List Char} {t : Token} {name : String}
    (h : Token.Spells form w (some t)) (ht : t = .variable name ∨ t = .ident name) :
    IsName name.toList := by
  cases h with
  | dollar h =>
    obtain rfl : String.ofList _ = name := by simpa using ht
    rwa [String.toList_ofList]
  | ident h =>
    obtain rfl : String.ofList _ = name := by simpa using ht
    rwa [String.toList_ofList]
  | mark | int | float | quoted => simp at ht

/-- The names of tokens are names of expressions. -/
theorem isName_of_tokenize {source : String} {ls : List Lexeme} (h : tokenize source = .ok ls)
    {name : String} (hname : .variable name ∈ Grammar.tokens ls ∨ .ident name ∈ Grammar.tokens ls) :
    IsName name.toList := by
  have hscan := scans_tokenize source
  rw [h] at hscan
  obtain ⟨l, hl, htoken⟩ : ∃ l ∈ ls, l.token = .variable name ∨ l.token = .ident name := by
    rcases hname with hname | hname
    · obtain ⟨l, hl, htoken⟩ := List.mem_map.1 hname
      exact ⟨l, hl, .inl htoken⟩
    · obtain ⟨l, hl, htoken⟩ := List.mem_map.1 hname
      exact ⟨l, hl, .inr htoken⟩
  obtain ⟨_, _, _, _, hlongest⟩ := (hscan.covers [] rfl).1.longest l hl
  obtain ⟨form, hspells⟩ := hlongest.spells
  exact Token.isName_of_spells hspells htoken

/-- What is read as a variable has the name of a variable. -/
theorem Expr.isName_of_parse {source name : String} (h : parse source = .ok (.variable name)) :
    IsName name.toList := by
  cases htokens : tokenize source with
  | error e =>
    rw [parse, htokens] at h
    cases h
  | ok ls =>
    rw [parse_of_tokenize htokens] at h
    cases hread : ofLexemes (Text.byteLength source.toList) ls with
    | error failure =>
      rw [hread] at h
      cases h
    | ok e =>
      rw [hread] at h
      obtain rfl := Except.ok.inj h
      exact isName_of_tokenize htokens (((ofLexemes_eq_ok_iff _).1 hread).named rfl)

/-- A name is that of a variable just when it is read as one behind a dollar sign. -/
theorem Expr.parse_dollar_iff (name : String) :
    Html.isVariableName name = true ↔ parse ("$" ++ name) = .ok (.variable name) := by
  rw [Html.isVariableName_iff]
  exact ⟨parse_variable, isName_of_parse⟩

/-- What is read as a variable gives what is bound to it. -/
theorem Functions.evaluator_of_parse {fs : Functions} {source name : String}
    (h : Expr.parse source = .ok (.variable name)) (scope : Scope) :
    fs.evaluator source scope = .ok (scope.get name) := by
  rw [Functions.evaluator, h]
  rfl

end Stencil
