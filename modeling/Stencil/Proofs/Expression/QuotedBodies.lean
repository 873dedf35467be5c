import Mathlib.Algebra.Ring.Parity
import Stencil.Proofs.Expression.Lexemes
/-
  Quoted texts of expressions.

  What stands between the quotes is read from the left, and a backslash takes the character behind it along.
  Read from the right instead, a quote is a closing one just when the run of backslashes in front of it is
  even: a backslash and the character behind it change that run by two or cut it off.
-/

namespace Stencil.Token

/-! ## Escapes -/

theorem escapeValue_unescape (quote c : Char) : EscapeValue quote c (unescape quote c) := by
  fun_cases unescape quote c with
  | case1 c h =>
    rw [Bool.or_eq_true, beq_iff_eq, beq_iff_eq] at h
    rcases h with rfl | rfl
    · exact .quote
    · exact .backslash
  | case2 hkind hplain => exact .control (eq_of_beq hkind) (by decide)
  | case3 hkind hplain => exact .control (eq_of_beq hkind) (by decide)
  | case4 hkind hplain => exact .control (eq_of_beq hkind) (by decide)
  | case5 hkind hplain => exact .control (eq_of_beq hkind) (by decide)
  | case6 hkind c hn ht hr hd hplain =>
    rw [Bool.or_eq_true, beq_iff_eq, beq_iff_eq, not_or] at hplain
    refine .other hplain.1 hplain.2 fun _ hmem => ?_
    simp only [escapes, List.map_cons, List.map_nil, List.mem_cons, List.not_mem_nil, or_false] at hmem
    rcases hmem with h | h | h | h
    · exact hn h
    · exact ht h
    · exact hr h
    · exact hd h
  | case7 c hplain hkind =>
    rw [Bool.or_eq_true, beq_iff_eq, beq_iff_eq, not_or] at hplain
    exact .other hplain.1 hplain.2 fun heq => absurd (beq_iff_eq.2 heq) hkind

/-- An escape stands for one text only. -/
theorem EscapeValue.eq_unescape {quote c : Char} {value : List Char} (h : EscapeValue quote c value)
    (hquote : quote = '\'' ∨ quote = '"') : value = unescape quote c := by
  cases h with
  | quote => simp [unescape]
  | backslash => simp [unescape]
  | control hkind hmem =>
    subst hkind
    simp only [escapes, List.mem_cons, Prod.mk.injEq, List.not_mem_nil, or_false] at hmem
    rcases hmem with ⟨rfl, rfl⟩ | ⟨rfl, rfl⟩ | ⟨rfl, rfl⟩ | ⟨rfl, rfl⟩ <;> rfl
  | other hne hbackslash hcontrol =>
    fun_cases unescape quote c with
    | case1 c h => simp [hne, hbackslash] at h
    | case2 hkind => exact absurd (by decide) (hcontrol (eq_of_beq hkind))
    | case3 hkind => exact absurd (by decide) (hcontrol (eq_of_beq hkind))
    | case4 hkind => exact absurd (by decide) (hcontrol (eq_of_beq hkind))
    | case5 hkind => exact absurd (by decide) (hcontrol (eq_of_beq hkind))
    | case6 => rfl
    | case7 => rfl

/-! ## Reading up to the closing quote -/

theorem quotedBody_quote (quote : Char) (rest : List Char) :
    quotedBody quote (quote :: rest) = some ([], rest) := by
  cases rest with
  | nil => simp [quotedBody]
  | cons d rest => simp [quotedBody]

theorem quotedBody_plain {quote c : Char} (hquote : c ≠ quote) (hbackslash : c ≠ '\\') (cs : List Char) :
    quotedBody quote (c :: cs) = (quotedBody quote cs).map fun (value, rest) => (c :: value, rest) := by
  cases cs with
  | nil => simp [quotedBody, hquote]
  | cons d rest => simp [quotedBody, hquote, hbackslash]

theorem quotedBody_escape {quote : Char} (hquote : '\\' ≠ quote) (c : Char) (cs : List Char) :
    quotedBody quote ('\\' :: c :: cs)
      = (quotedBody quote cs).map fun (value, rest) => (unescape quote c ++ value, rest) := by
  simp [quotedBody, hquote]

theorem quotedText_of_quotedBody {quote : Char} {cs value rest : List Char}
    (h : quotedBody quote cs = some (value, rest)) :
    ∃ body, cs = body ++ quote :: rest ∧ QuotedText quote body value := by
  fun_induction quotedBody quote cs generalizing value rest with
  | case1 => cases h
  | case2 c hc =>
    obtain ⟨rfl, rfl⟩ := Prod.mk.inj (Option.some.inj h)
    exact ⟨[], by rw [eq_of_beq hc, List.nil_append], .nil⟩
  | case3 => cases h
  | case4 c d tail hc =>
    obtain ⟨rfl, rfl⟩ := Prod.mk.inj (Option.some.inj h)
    exact ⟨[], by rw [eq_of_beq hc, List.nil_append], .nil⟩
  | case5 c d tail hc hb ih =>
    obtain ⟨⟨value', rest'⟩, hbody, heq⟩ := Option.map_eq_some_iff.1 h
    obtain ⟨rfl, rfl⟩ := Prod.mk.inj heq
    obtain ⟨body, rfl, htext⟩ := ih hbody
    refine ⟨'\\' :: d :: body, by rw [eq_of_beq hb]; rfl, .escape (escapeValue_unescape quote d) htext⟩
  | case6 c d tail hc hb ih =>
    obtain ⟨⟨value', rest'⟩, hbody, heq⟩ := Option.map_eq_some_iff.1 h
    obtain ⟨rfl, rfl⟩ := Prod.mk.inj heq
    obtain ⟨body, hcut, htext⟩ := ih hbody
    refine ⟨c :: body, by rw [hcut]; rfl, .plain ?_ ?_ htext⟩
    · simpa using hc
    · simpa using hb

theorem QuotedText.quotedBody_eq {quote : Char} {body value : List Char} (h : QuotedText quote body value)
    (hquote : quote = '\'' ∨ quote = '"') (rest : List Char) :
    quotedBody quote (body ++ quote :: rest) = some (value, rest) := by
  have hbackslash : '\\' ≠ quote := by
    rcases hquote with rfl | rfl <;> decide
  induction h with
  | nil => exact quotedBody_quote quote rest
  | plain hne hplain h ih =>
    rw [List.cons_append, quotedBody_plain hne hplain, ih]
    rfl
  | escape hc h ih =>
    rw [List.cons_append, List.cons_append, quotedBody_escape hbackslash, ih, hc.eq_unescape hquote]
    rfl

/-- A quoted text is read up to its closing quote, and nothing else is. -/
theorem quotedBody_eq_some_iff {quote : Char} {cs value rest : List Char}
    (hquote : quote = '\'' ∨ quote = '"') : quotedBody quote cs = some (value, rest) ↔
      ∃ body, cs = body ++ quote :: rest ∧ QuotedText quote body value := by
  refine ⟨quotedText_of_quotedBody, ?_⟩
  rintro ⟨body, rfl, h⟩
  exact h.quotedBody_eq hquote rest

theorem formOf_of_quote {c : Char} (hc : c = '\'' ∨ c = '"') : formOf c = .quoted := by
  rcases hc with rfl | rfl <;> decide

/-- A lexeme that a quote begins is a quoted text. -/
theorem quotedBody_of_spells {c : Char} {rest v more : List Char} {form : Form} {u : Option Token}
    (hc : c = '\'' ∨ c = '"') (hv : Spells form v u) (hfront : c :: rest = v ++ more) :
    ∃ body value, v = c :: (body ++ [c]) ∧ quotedBody c rest = some (value, more) := by
  obtain rfl : form = .quoted := (hv.form_eq ⟨more, hfront.symm⟩).trans (formOf_of_quote hc)
  cases hv with
  | @quoted quote body value hquote h =>
    rw [List.cons_append, List.append_assoc] at hfront
    obtain ⟨rfl, rfl⟩ := List.cons.inj hfront
    exact ⟨body, value, rfl, h.quotedBody_eq hc more⟩

theorem longest_quoted {c : Char} {rest value rest' : List Char} (hc : c = '\'' ∨ c = '"')
    (h : quotedBody c rest = some (value, rest')) :
    ∃ w, c :: rest = w ++ rest' ∧ Longest (c :: rest) w (some (.string (String.ofList value))) := by
  obtain ⟨body, rfl, htext⟩ := quotedText_of_quotedBody h
  have hcut : c :: (body ++ c :: rest') = c :: (body ++ [c]) ++ rest' := by
    rw [List.cons_append, List.append_assoc, List.singleton_append]
  refine ⟨c :: (body ++ [c]), hcut, ⟨.quoted, .quoted hc htext⟩, ⟨rest', hcut.symm⟩, ?_⟩
  rintro form v u hv ⟨more, hmore⟩
  -- both quoted texts leave the same behind
  obtain ⟨body', value', rfl, hbody⟩ := quotedBody_of_spells hc hv hmore.symm
  rw [h] at hbody
  obtain ⟨-, rfl⟩ := Prod.mk.inj (Option.some.inj hbody)
  rw [hcut] at hmore
  exact Nat.le_of_eq (congrArg List.length (List.append_cancel_right hmore))

theorem not_prefix_of_quotedBody {c : Char} {rest v : List Char} {form : Form} {u : Option Token}
    (hc : c = '\'' ∨ c = '"') (h : quotedBody c rest = none) (hv : Spells form v u) :
    ¬ v <+: c :: rest := by
  rintro ⟨more, hmore⟩
  obtain ⟨body, value, -, hbody⟩ := quotedBody_of_spells hc hv hmore.symm
  rw [h] at hbody
  cases hbody

/-! ## Runs of backslashes -/

/-- How many backslashes stand at the end of a text. -/
def backslashes (cs : List Char) : Nat := (cs.reverse.takeWhile (· == '\\')).length

/-- A character in front lengthens the run of backslashes at the end only if it is one, and all of the text
    behind it are. -/
theorem backslashes_cons (c : Char) (cs : List Char) : backslashes (c :: cs)
    = if backslashes cs = cs.length ∧ c = '\\' then backslashes cs + 1 else backslashes cs := by
  rw [backslashes, List.reverse_cons, List.takeWhile_append, List.length_reverse]
  show List.length (if backslashes cs = cs.length then _ else _) = _
  by_cases hall : backslashes cs = cs.length
  · rw [if_pos hall]
    by_cases hc : c = '\\'
    · subst hc
      rw [if_pos ⟨hall, rfl⟩, hall, List.length_append, List.length_reverse]
      rfl
    · have hmiss : (c == '\\') = false := by simpa using hc
      rw [if_neg fun h => hc h.2, hall, List.takeWhile_cons_of_neg (by simp [hmiss]), List.append_nil,
        List.length_reverse]
  · rw [if_neg hall, if_neg fun h => hall h.1]
    rfl

theorem backslashes_plain {c : Char} (hc : c ≠ '\\') (cs : List Char) :
    backslashes (c :: cs) = backslashes cs := by
  rw [backslashes_cons, if_neg fun h => hc h.2]

/-- A backslash and the character behind it keep the run of backslashes at the end even or odd. -/
theorem even_backslashes_escape (c : Char) (cs : List Char) :
    Even (backslashes ('\\' :: c :: cs)) ↔ Even (backslashes cs) := by
  rw [backslashes_cons, backslashes_cons c cs, List.length_cons]
  by_cases hall : backslashes cs = cs.length ∧ c = '\\'
  · rw [if_pos hall, if_pos ⟨by omega, rfl⟩, Nat.even_add_one, Nat.even_add_one, not_not]
  · rw [if_neg hall]
    have hle : backslashes cs ≤ cs.length := by
      have hrun := (List.takeWhile_prefix (l := cs.reverse) (· == '\\')).length_le
      rwa [List.length_reverse] at hrun
    rw [if_neg fun h => absurd h.1 (by omega)]

/-- The quote that ends a quoted text: an even run of backslashes stands in front of it, and an odd one in
    front of every earlier quote of its kind. -/
structure EndsAt (quote : Char) (body : List Char) : Prop where
  even : Even (backslashes body)
  earlier : ∀ front, front ++ [quote] <+: body → Odd (backslashes front)

theorem QuotedText.endsAt {quote : Char} {body value : List Char} (h : QuotedText quote body value)
    (hquote : '\\' ≠ quote) : EndsAt quote body := by
  induction h with
  | nil =>
    refine ⟨by decide, ?_⟩
    intro front hfront
    exact absurd (List.prefix_nil.1 hfront) (List.append_ne_nil_of_right_ne_nil _ (List.cons_ne_nil _ _))
  | @plain c body value hne hplain h ih =>
    refine ⟨by rw [backslashes_plain hplain]; exact ih.even, ?_⟩
    intro front hfront
    cases front with
    | nil => exact absurd (List.cons_prefix_cons.1 hfront).1.symm hne
    | cons d front =>
      obtain ⟨rfl, htail⟩ := List.cons_prefix_cons.1 hfront
      rw [backslashes_plain hplain]
      exact ih.earlier front htail
  | @escape c text body value hc h ih =>
    refine ⟨(even_backslashes_escape c body).2 ih.even, ?_⟩
    intro front hfront
    match front with
    | [] => exact absurd (List.cons_prefix_cons.1 hfront).1.symm hquote
    | [d] =>
      -- the quote is the character behind the backslash
      obtain ⟨rfl, -⟩ := List.cons_prefix_cons.1 hfront
      decide
    | d :: d' :: front =>
      obtain ⟨rfl, hmore⟩ := List.cons_prefix_cons.1 hfront
      obtain ⟨rfl, htail⟩ := List.cons_prefix_cons.1 hmore
      rw [← Nat.not_even_iff_odd, even_backslashes_escape, Nat.not_even_iff_odd]
      exact ih.earlier front htail

/-! ## Texts put in quotes -/

/-- A text with a backslash in front of every backslash and of every quote of a kind. -/
def escaped (quote : Char) (cs : List Char) : List Char :=
  cs.flatMap fun c => if c = '\\' ∨ c = quote then ['\\', c] else [c]

theorem quotedText_escaped (quote : Char) (cs : List Char) : QuotedText quote (escaped quote cs) cs := by
  induction cs with
  | nil => exact .nil
  | cons c cs ih =>
    rw [escaped, List.flatMap_cons]
    split
    next hc =>
      rcases hc with rfl | rfl
      · exact .escape .backslash ih
      · exact .escape .quote ih
    next hc =>
      rw [not_or] at hc
      exact .plain hc.2 hc.1 ih

end Stencil.Token
