import Stencil.Proofs.Expression.Tokenized
import Stencil.Proofs.Expression.Accepts
/-
  Texts written as quoted literals, and read back.

  A literal is written by putting a backslash in front of every backslash and every quote of its kind.  It is
  read back as one token whatever follows it, and alone it is the text as an expression.  In the other
  direction, where a token ends is told by the run of backslashes in front of each quote; without a quote
  behind an even run there is no token.
-/

namespace Stencil

open Text (byteLength)
open Token (EndsAt backslashes)
open Grammar (Derives)

/-- A text as a literal in quotes of a kind. -/
def quoteLiteral (quote : Char) (s : String) : String :=
  String.ofList (quote :: (Token.escaped quote s.toList ++ [quote]))

namespace Lexeme

/-- A literal is the longest lexeme where it stands. -/
theorem longest_quoteLiteral {quote : Char} (hquote : quote = '\'' ∨ quote = '"') (s : String)
    (after : List Char) : Token.Longest ((quoteLiteral quote s).toList ++ after) (quoteLiteral quote s).toList
      (some (.string s)) := by
  rw [quoteLiteral, String.toList_ofList]
  have hbody := (Token.quotedText_escaped quote s.toList).quotedBody_eq hquote after
  obtain ⟨w, hcut, hw⟩ := Token.longest_quoted hquote hbody
  have hfront : quote :: (Token.escaped quote s.toList ++ quote :: after)
      = quote :: (Token.escaped quote s.toList ++ [quote]) ++ after := by
    rw [List.cons_append, List.append_assoc, List.singleton_append]
  rw [hfront, String.ofList_toList] at hw
  rw [hfront] at hcut
  rwa [← List.append_cancel_right hcut] at hw

/-- The quoted tokens of a scan end where the runs of backslashes say so. -/
theorem Scans.endsAt {start stop : Nat} {cs rest : List Char} {ls : List Lexeme}
    (h : Scans start cs ls stop rest) {l : Lexeme} (hl : l ∈ ls) {value : String}
    (hvalue : l.token = .string value) :
    ∃ quote body, (quote = '\'' ∨ quote = '"') ∧ l.text = quote :: (body ++ [quote]) ∧
      EndsAt quote body := by
  induction h with
  | done => cases hl
  | gap hc h ih => exact ih hl
  | lexeme hw h ih =>
    rcases List.mem_cons.1 hl with rfl | hl
    · obtain ⟨form, hspells⟩ := hw.spells
      dsimp only at hvalue
      subst hvalue
      cases hspells with
      | @quoted quote body value hquote htext =>
        refine ⟨quote, body, hquote, rfl, htext.endsAt ?_⟩
        rcases hquote with rfl | rfl <;> decide
    · exact ih hl

/-- Without a quote behind an even run of backslashes, an opening quote is refused. -/
theorem read_eq_unterminated {quote : Char} {rest : List Char} (hquote : quote = '\'' ∨ quote = '"')
    (h : ∀ body after, rest = body ++ quote :: after → ¬ Even (backslashes body)) :
    Token.read quote rest = .error .unterminatedString := by
  have hbody : Token.quotedBody quote rest = none := by
    rw [Option.eq_none_iff_forall_ne_some]
    rintro ⟨value, after⟩ hfound
    obtain ⟨body, hcut, htext⟩ := Token.quotedText_of_quotedBody hfound
    have hbackslash : '\\' ≠ quote := by
      rcases hquote with rfl | rfl <;> decide
    exact h body after hcut (htext.endsAt hbackslash).even
  rcases hquote with rfl | rfl
  · rw [Token.read, if_neg (by decide), if_neg (by decide), if_pos (by decide), hbody]
  · rw [Token.read, if_neg (by decide), if_neg (by decide), if_pos (by decide), hbody]

end Lexeme

theorem tokenize_quoteLiteral {quote : Char} (hquote : quote = '\'' ∨ quote = '"') (s after : String) :
    tokenize (quoteLiteral quote s ++ after)
      = match Lexeme.readAll (byteLength (quoteLiteral quote s).toList) after.toList with
        | .ok more => .ok (⟨.string s, 0, (quoteLiteral quote s).toList⟩ :: more)
        | .error (offset, problem) => .error (.malformed (quoteLiteral quote s ++ after) offset problem) := by
  have hread := Lexeme.readAll_lexeme (Lexeme.longest_quoteLiteral hquote s after.toList) 0
  rw [tokenize, String.toList_append, hread, Nat.zero_add]
  cases Lexeme.readAll (byteLength (quoteLiteral quote s).toList) after.toList <;> rfl

theorem parse_quoteLiteral {quote : Char} (hquote : quote = '\'' ∨ quote = '"') (s : String) :
    Expr.parse (quoteLiteral quote s) = .ok (.literal (.text s)) := by
  have htokens := tokenize_quoteLiteral hquote s ""
  rw [String.append_empty, String.toList_empty, Lexeme.readAll_nil] at htokens
  have hderives : Derives .choice [.string s] (.literal (.text s)) :=
    .choice (.fallback (.operand (.operand (.operand (.operand (.operand (.operand (.operand
      (.signed (.access .string))))))))))
  have hread : ∀ finish, Expr.ofLexemes finish [⟨.string s, 0, (quoteLiteral quote s).toList⟩]
      = .ok (.literal (.text s)) := fun finish => (Expr.ofLexemes_eq_ok_iff finish).2 hderives
  rw [Expr.parse_of_tokenize htokens, hread]
  rfl

theorem tokenize_unterminated {source : String} {ls : List Lexeme} {offset : Nat} {quote : Char}
    {rest : List Char} (hquote : quote = '\'' ∨ quote = '"')
    (hscan : Lexeme.Scans 0 source.toList ls offset (quote :: rest))
    (h : ∀ body after, rest = body ++ quote :: after → ¬ Even (backslashes body)) :
    tokenize source = .error (.malformed source offset .unterminatedString) := by
  have hgap : Token.isGap quote = false := by
    rcases hquote with rfl | rfl <;> decide
  have hread : Lexeme.readAll 0 source.toList = .error (offset, .unterminatedString) := by
    rw [Lexeme.readAll_of_scans hscan, Lexeme.readAll_error hgap (Lexeme.read_eq_unterminated hquote h)]
    rfl
  rw [tokenize, hread]

/-- A text put in quotes is read back as one token that covers exactly the literal, whatever follows, and as
    the text when it stands alone.  In every source, as far as it is read, a quoted token ends at the first
    quote of its kind that stands behind an even run of backslashes, and where there is none, the source is
    refused at the opening quote. -/
theorem string_literals_read_back :
    (∀ quote s after, quote = '\'' ∨ quote = '"' →
      tokenize (quoteLiteral quote s ++ after)
        = (match Lexeme.readAll (byteLength (quoteLiteral quote s).toList) after.toList with
          | .ok more => .ok (⟨.string s, 0, (quoteLiteral quote s).toList⟩ :: more)
          | .error (offset, problem) =>
            .error (.malformed (quoteLiteral quote s ++ after) offset problem)) ∧
      Expr.parse (quoteLiteral quote s) = .ok (.literal (.text s))) ∧
    (∀ source ls, tokenize source = .ok ls →
      Lexeme.Scans 0 source.toList ls (byteLength source.toList) []) ∧
    (∀ (source : String) ls stop rest, Lexeme.Scans 0 source.toList ls stop rest →
      ∀ l ∈ ls, ∀ value, l.token = .string value →
        ∃ quote body, (quote = '\'' ∨ quote = '"') ∧ l.text = quote :: (body ++ [quote]) ∧
          EndsAt quote body) ∧
    ∀ (source : String) ls stop quote rest, (quote = '\'' ∨ quote = '"') →
      Lexeme.Scans 0 source.toList ls stop (quote :: rest) →
      (∀ body after, rest = body ++ quote :: after → Odd (backslashes body)) →
      tokenize source = .error (.malformed source stop .unterminatedString) := by
  refine ⟨?_, ?_, ?_, ?_⟩
  · intro quote s after hquote
    exact ⟨tokenize_quoteLiteral hquote s after, parse_quoteLiteral hquote s⟩
  · intro source ls htokens
    have hscan := scans_tokenize source
    rwa [htokens] at hscan
  · intro source ls stop rest hscan l hl value hvalue
    exact hscan.endsAt hl hvalue
  · intro source ls stop quote rest hquote hscan hodd
    refine tokenize_unterminated hquote hscan fun body after hcut => ?_
    exact Nat.not_even_iff_odd.2 (hodd body after hcut)

/-- A quote within the text and a dollar sign that needs no backslash; then a quote that a backslash takes
    along, so that none is left to end the token. -/
theorem string_literals_read_back_dollar :
    Expr.parse "\"a\\\"$\"" = .ok (.literal (.text "a\"$")) ∧
    tokenize "'a\\'" = .error (.malformed "'a\\'" 0 .unterminatedString) := by
  obtain ⟨hback, -, -, hrefused⟩ := string_literals_read_back
  refine ⟨(hback '"' "a\"$" "" (.inr rfl)).2, ?_⟩
  refine hrefused "'a\\'" [] 0 '\'' ['a', '\\', '\''] (.inl rfl) .done ?_
  intro body after hcut
  match body with
  | [] => cases (List.cons.inj hcut).1
  | [b] => cases (List.cons.inj (List.cons.inj hcut).2).1
  | [b, b'] =>
    obtain ⟨hfirst, hcut⟩ := List.cons.inj hcut
    obtain ⟨hsecond, -⟩ := List.cons.inj hcut
    rw [← hfirst, ← hsecond]
    exact ⟨0, rfl⟩
  | b :: b' :: b'' :: body =>
    have hlength := congrArg List.length hcut
    simp only [List.length_cons, List.length_append, List.length_nil] at hlength
    omega

end Stencil
