import Mathlib.Data.List.TakeWhile
import Stencil.Expression.Token
import Stencil.Proofs.Template.Reads
/-
  The lexemes of expressions, and which of them comes next in a text.

  The grammar here says what the text of each kind of token is, and which token it stands for, without saying
  how it is read.  Only a whole number that no word holds stands for none.  What kind a lexeme is of is told
  by its first character, so a text has to be searched for the longest lexeme of one kind only.

  The main statement is that the reader takes the longest lexeme which begins a text, with the token it
  stands for, and that it refuses a text just where no lexeme begins, or where the longest one stands for no
  token.
-/

namespace Stencil.Token

open Text (NotAhead)
open Decimal (digitsValue)

/-! ## The grammar -/

/-- The kinds of lexemes, which are told apart by their first character. -/
inductive Form where
  | name
  | number
  | quoted
  | dollar
  | mark
deriving DecidableEq

/-- The kind of the lexemes that begin with a character, if any do. -/
def formOf (c : Char) : Form :=
  if isNameStart c then .name
  else if c.isDigit then .number
  else if c == '\'' || c == '"' then .quoted
  else if c == '$' then .dollar
  else .mark

/-- A letter from A to Z in either case or an underscore, and after it such characters and digits. -/
inductive IsName : List Char → Prop where
  | mk {c : Char} {more : List Char} (hfirst : isNameStart c = true)
      (hmore : ∀ d ∈ more, isNameChar d = true) : IsName (c :: more)

/-- At least one digit, and nothing else. -/
structure Digits (ds : List Char) : Prop where
  nonempty : ds ≠ []
  digits : ∀ d ∈ ds, d.isDigit = true

/-- The fraction of a number, which may be missing, and its digits. -/
inductive FractionText : List Char → List Char → Prop where
  | absent : FractionText [] []
  | present {ds : List Char} (h : Digits ds) : FractionText ('.' :: ds) ds

/-- The exponent of a number, which may be missing, and its value. -/
inductive ExponentText : List Char → Int → Prop where
  | absent : ExponentText [] 0
  | unsigned {c : Char} {ds : List Char} (hc : c = 'e' ∨ c = 'E') (h : Digits ds) :
      ExponentText (c :: ds) (digitsValue ds)
  | positive {c : Char} {ds : List Char} (hc : c = 'e' ∨ c = 'E') (h : Digits ds) :
      ExponentText (c :: '+' :: ds) (digitsValue ds)
  | negative {c : Char} {ds : List Char} (hc : c = 'e' ∨ c = 'E') (h : Digits ds) :
      ExponentText (c :: '-' :: ds) (-(digitsValue ds : Int))

/-- The letters that stand for another character behind a backslash, in double quotes. -/
def escapes : List (Char × Char) := [('n', '\n'), ('t', '\t'), ('r', '\r'), ('$', '$')]

/-- What a backslash and the character behind it stand for between quotes of a kind: the quote, a backslash,
    one of the controls, and themselves where they mean nothing. -/
inductive EscapeValue (quote : Char) : Char → List Char → Prop where
  | quote : EscapeValue quote quote [quote]
  | backslash : EscapeValue quote '\\' ['\\']
  | control {c d : Char} (hquote : quote = '"') (h : (c, d) ∈ escapes) : EscapeValue quote c [d]
  | other {c : Char} (hquote : c ≠ quote) (hbackslash : c ≠ '\\')
      (hcontrol : quote = '"' → c ∉ escapes.map Prod.fst) : EscapeValue quote c ['\\', c]

/-- What stands between two quotes of a kind, and the text it stands for.  A quote of that kind, and a
    backslash, only come behind a backslash. -/
inductive QuotedText (quote : Char) : List Char → List Char → Prop where
  | nil : QuotedText quote [] []
  | plain {c : Char} {body value : List Char} (hquote : c ≠ quote) (hbackslash : c ≠ '\\')
      (h : QuotedText quote body value) : QuotedText quote (c :: body) (c :: value)
  | escape {c : Char} {front body value : List Char} (hc : EscapeValue quote c front)
      (h : QuotedText quote body value) : QuotedText quote ('\\' :: c :: body) (front ++ value)

/-- The lexemes of each kind, with the tokens they stand for. -/
inductive Spells : Form → List Char → Option Token → Prop where
  | mark {text : String} {m : Mark} (h : (text, m) ∈ Mark.table) :
      Spells .mark text.toList (some (.mark m))
  | dollar {name : List Char} (h : IsName name) :
      Spells .dollar ('$' :: name) (some (.variable (String.ofList name)))
  | ident {name : List Char} (h : IsName name) : Spells .name name (some (.ident (String.ofList name)))
  | int {ds : List Char} {n : Int64} (h : Digits ds) (hn : n.toInt = digitsValue ds) :
      Spells .number ds (some (.int n))
  | tooLarge {ds : List Char} (h : Digits ds) (hlarge : Int64.maxValue.toInt < digitsValue ds) :
      Spells .number ds none
  | float {whole fraction exponent ds : List Char} {e : Int} (hwhole : Digits whole)
      (hfraction : FractionText fraction ds) (hexponent : ExponentText exponent e)
      (hmore : fraction ++ exponent ≠ []) :
      Spells .number (whole ++ (fraction ++ exponent))
        (some (.float (Decimal.Scientific.nearest ⟨false, digitsValue (whole ++ ds), e - ds.length⟩)))
  | quoted {quote : Char} {body value : List Char} (hquote : quote = '\'' ∨ quote = '"')
      (h : QuotedText quote body value) :
      Spells .quoted (quote :: (body ++ [quote])) (some (.string (String.ofList value)))

/-- A text begins with a lexeme, and with no longer one. -/
structure Longest (cs w : List Char) (t : Option Token) : Prop where
  spells : ∃ form, Spells form w t
  front : w <+: cs
  longest : ∀ {form : Form} {v : List Char} {u : Option Token}, Spells form v u → v <+: cs →
    v.length ≤ w.length

/-! ## First characters -/

theorem isNameChar_of_isNameStart {c : Char} (h : isNameStart c = true) : isNameChar c = true := by
  rw [isNameStart, Bool.or_eq_true] at h
  rcases h with h | h
  · simp [isNameChar, Char.isAlphanum, h]
  · simp [isNameChar, h]

theorem formOf_of_isNameStart {c : Char} (h : isNameStart c = true) : formOf c = .name := by
  rw [formOf, if_pos h]

theorem formOf_of_isDigit {c : Char} (h : c.isDigit = true) : formOf c = .number := by
  have hname : isNameStart c = false := by
    rw [Bool.eq_false_iff]
    intro hname
    have hdigit : 48 ≤ c.toNat ∧ c.toNat ≤ 57 := by
      simpa [Char.isDigit, UInt32.le_iff_toNat_le] using h
    rw [isNameStart, Bool.or_eq_true] at hname
    rcases hname with halpha | hline
    · change (decide ('A'.val ≤ c.val ∧ c.val ≤ 'Z'.val) ||
        decide ('a'.val ≤ c.val) && decide (c.val ≤ 'z'.val)) = true at halpha
      simp only [Bool.or_eq_true, Bool.and_eq_true, decide_eq_true_eq, UInt32.le_iff_toNat_le] at halpha
      have hletters : 'A'.val.toNat = 65 ∧ 'a'.val.toNat = 97 := ⟨rfl, rfl⟩
      have hcode : c.toNat = c.val.toNat := rfl
      omega
    · obtain rfl := eq_of_beq hline
      cases h
  rw [formOf, hname, if_neg Bool.false_ne_true, if_pos h]

theorem formOf_mark : ∀ entry ∈ Mark.table, ∃ c more, entry.1.toList = c :: more ∧ formOf c = .mark ∧
    isGap c = false := by
  have hall : (Mark.table.all fun entry =>
      entry.1.toList.head?.any fun c => formOf c = .mark && !isGap c) = true := by decide +kernel
  intro entry hentry
  have hfirst := List.all_eq_true.1 hall entry hentry
  cases htext : entry.1.toList with
  | nil => rw [htext] at hfirst; cases hfirst
  | cons c more =>
    rw [htext] at hfirst
    refine ⟨c, more, rfl, ?_⟩
    simpa using hfirst

/-- The first character of a lexeme tells its kind, and is no gap. -/
theorem Spells.formOf_eq {form : Form} {w : List Char} {t : Option Token} (h : Spells form w t) :
    ∃ c more, w = c :: more ∧ formOf c = form ∧ isGap c = false := by
  have hdigits : ∀ {ds : List Char} (more : List Char), Digits ds → ∃ c rest, ds ++ more = c :: rest ∧
      formOf c = .number ∧ isGap c = false := by
    intro ds more h
    cases ds with
    | nil => exact absurd rfl h.nonempty
    | cons c ds =>
      have hc := h.digits c List.mem_cons_self
      refine ⟨c, ds ++ more, rfl, formOf_of_isDigit hc, ?_⟩
      rw [Bool.eq_false_iff]
      intro hgap
      simp only [isGap, Bool.or_eq_true, beq_iff_eq] at hgap
      rcases hgap with (((rfl | rfl) | rfl) | rfl) | rfl <;> cases hc
  cases h with
  | mark h => exact formOf_mark _ h
  | dollar h => exact ⟨'$', _, rfl, by decide, by decide⟩
  | ident h =>
    cases h with
    | @mk c more hfirst hmore =>
      refine ⟨c, more, rfl, formOf_of_isNameStart hfirst, ?_⟩
      rw [Bool.eq_false_iff]
      intro hgap
      simp only [isGap, Bool.or_eq_true, beq_iff_eq] at hgap
      rcases hgap with (((rfl | rfl) | rfl) | rfl) | rfl <;> cases hfirst
  | int h hn =>
    obtain ⟨c, rest, heq, hc⟩ := hdigits [] h
    exact ⟨c, rest, by rw [← heq, List.append_nil], hc⟩
  | tooLarge h hlarge =>
    obtain ⟨c, rest, heq, hc⟩ := hdigits [] h
    exact ⟨c, rest, by rw [← heq, List.append_nil], hc⟩
  | float hwhole => exact hdigits _ hwhole
  | quoted hquote h =>
    rcases hquote with rfl | rfl
    · exact ⟨_, _, rfl, by decide, by decide⟩
    · exact ⟨_, _, rfl, by decide, by decide⟩

/-- A lexeme that begins a text is of the kind that the first character tells. -/
theorem Spells.form_eq {form : Form} {w : List Char} {t : Option Token} {c : Char} {rest : List Char}
    (h : Spells form w t) (hw : w <+: c :: rest) : form = formOf c := by
  obtain ⟨d, more, rfl, hform, -⟩ := h.formOf_eq
  obtain ⟨rfl, -⟩ := List.cons_prefix_cons.1 hw
  exact hform.symm

/-! ## Names and marks -/

/-- Characters of a class at the front of a text belong to the longest run of them. -/
theorem prefix_takeWhile {p : Char → Bool} {w cs : List Char} (hw : ∀ c ∈ w, p c = true)
    (h : w <+: cs) : w <+: cs.takeWhile p := by
  obtain ⟨more, rfl⟩ := h
  rw [List.takeWhile_append_of_pos hw]
  exact List.prefix_append _ _

theorem IsName.isNameChar {name : List Char} (h : IsName name) : ∀ c ∈ name, isNameChar c = true := by
  cases h with
  | mk hfirst hmore => exact List.forall_mem_cons.2 ⟨isNameChar_of_isNameStart hfirst, hmore⟩

theorem isName_takeWhile {c : Char} {rest : List Char} (hc : isNameStart c = true) :
    IsName (c :: rest.takeWhile Token.isNameChar) :=
  .mk hc (List.all_eq_true.1 List.all_takeWhile)

/-- No name at the front of a text is longer than the run of characters that names go on with. -/
theorem IsName.length_le {c : Char} {name rest : List Char} (h : IsName name) (hname : name <+: c :: rest) :
    name.length ≤ (c :: rest.takeWhile Token.isNameChar).length := by
  have hrun := (prefix_takeWhile h.isNameChar hname).length_le
  rw [List.takeWhile_cons] at hrun
  split at hrun
  · exact hrun
  · rw [List.length_nil] at hrun
    omega

theorem longest_ident {c : Char} {rest : List Char} (hc : isNameStart c = true) :
    Longest (c :: rest) (c :: rest.takeWhile Token.isNameChar)
      (some (.ident (String.ofList (c :: rest.takeWhile Token.isNameChar)))) := by
  refine ⟨⟨.name, .ident (isName_takeWhile hc)⟩, ?_, ?_⟩
  · exact List.cons_prefix_cons.2 ⟨rfl, List.takeWhile_prefix _⟩
  · intro form v u hv hfront
    obtain rfl : form = .name := (hv.form_eq hfront).trans (formOf_of_isNameStart hc)
    cases hv with
    | ident h => exact h.length_le hfront

/-- A dollar sign begins a lexeme where a name follows it. -/
theorem name_of_spells_dollar {form : Form} {v rest : List Char} {u : Option Token} (h : Spells form v u)
    (hfront : v <+: '$' :: rest) : ∃ name, v = '$' :: name ∧ IsName name ∧ name <+: rest := by
  obtain rfl : form = .dollar := h.form_eq hfront
  cases h with
  | @dollar name hname => exact ⟨name, rfl, hname, (List.cons_prefix_cons.1 hfront).2⟩

theorem longest_variable {c : Char} {rest : List Char} (hc : isNameStart c = true) :
    Longest ('$' :: c :: rest) ('$' :: c :: rest.takeWhile Token.isNameChar)
      (some (.variable (String.ofList (c :: rest.takeWhile Token.isNameChar)))) := by
  refine ⟨⟨.dollar, .dollar (isName_takeWhile hc)⟩, ?_, ?_⟩
  · exact List.cons_prefix_cons.2 ⟨rfl, List.cons_prefix_cons.2 ⟨rfl, List.takeWhile_prefix _⟩⟩
  · intro form v u hv hfront
    obtain ⟨name, rfl, hname, hprefix⟩ := name_of_spells_dollar hv hfront
    have hle := hname.length_le hprefix
    rw [List.length_cons, List.length_cons]
    omega

theorem not_prefix_of_dollar {form : Form} {v rest : List Char} {u : Option Token} (h : Spells form v u)
    (hrest : rest.head?.any isNameStart = false) : ¬ v <+: '$' :: rest := by
  intro hfront
  obtain ⟨name, rfl, hname, hprefix⟩ := name_of_spells_dollar h hfront
  cases hname with
  | @mk d more hfirst =>
    obtain ⟨tail, rfl⟩ := hprefix
    have : isNameStart d = false := hrest
    rw [hfirst] at this
    cases this

/-- The longer marks come first in the table. -/
theorem table_pairwise : Mark.table.Pairwise fun a b => b.1.toList.length ≤ a.1.toList.length := by
  decide +kernel

/-- The mark that is found is the longest one at the front of a text. -/
theorem longest_of_markAt {c : Char} {rest rest' : List Char} {m : Mark}
    (h : markAt (c :: rest) = some (m, rest')) :
    ∃ w, c :: rest = w ++ rest' ∧ Longest (c :: rest) w (some (.mark m)) := by
  obtain ⟨before, ⟨text, m'⟩, after, htable, hfound, hnone⟩ := List.findSome?_eq_some_iff.1 h
  obtain ⟨rest'', hafter, heq⟩ := Option.map_eq_some_iff.1 hfound
  obtain ⟨rfl, rfl⟩ : m' = m ∧ rest'' = rest' := by simpa using heq
  have hw : c :: rest = text.toList ++ rest'' := Text.afterMark_eq_some_iff.1 hafter
  have hmem : (text, m') ∈ Mark.table := htable ▸ List.mem_append_right _ List.mem_cons_self
  refine ⟨text.toList, hw, ⟨.mark, .mark hmem⟩, ⟨rest'', hw.symm⟩, ?_⟩
  intro form v u hv hfront
  obtain rfl : form = .mark :=
    (hv.form_eq hfront).trans ((Spells.mark hmem).form_eq ⟨rest'', hw.symm⟩).symm
  cases hv with
  | @mark text' n hn =>
    -- a mark in front of the one that was found does not begin the text, one behind it is no longer
    rw [htable, List.mem_append, List.mem_cons] at hn
    rcases hn with hbefore | hhere | hbehind
    · obtain ⟨more, hmore⟩ := hfront
      have hmiss := hnone _ hbefore
      dsimp only at hmiss
      rw [Text.afterMark_eq_some_iff.2 hmore.symm] at hmiss
      cases hmiss
    · obtain ⟨rfl, rfl⟩ := Prod.mk.inj hhere
      exact Nat.le_refl _
    · have hpairwise := table_pairwise
      rw [htable] at hpairwise
      exact (List.pairwise_cons.1 (List.pairwise_append.1 hpairwise).2.1).1 _ hbehind

theorem not_prefix_of_markAt {c : Char} {rest v : List Char} {form : Form} {u : Option Token}
    (hform : formOf c = .mark) (h : markAt (c :: rest) = none) (hv : Spells form v u) :
    ¬ v <+: c :: rest := by
  intro hfront
  obtain rfl : form = .mark := (hv.form_eq hfront).trans hform
  cases hv with
  | mark hmem =>
    obtain ⟨more, hmore⟩ := hfront
    have hmiss := List.findSome?_eq_none_iff.1 h _ hmem
    dsimp only at hmiss
    rw [Text.afterMark_eq_some_iff.2 hmore.symm] at hmiss
    cases hmiss

end Stencil.Token
