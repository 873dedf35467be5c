import Stencil.Proofs.Expression.Lexemes
import Stencil.Proofs.Text.Trimmed
/-
  The numbers of expressions.

  Behind its whole digits a number goes on with a fraction, and then with an exponent, if these are
  complete: a point or an exponent letter without digits behind it is no part of the number.  What is read
  this way is the longest number at the front of a text, because a digit, a point and an exponent letter
  each tell which part they belong to.
-/

namespace Stencil.Token

open Text (NotAhead notAhead_cons)
open Decimal (digitsValue)

/-! ## Digits -/

theorem digits_takeWhile {cs : List Char} (h : cs.takeWhile Char.isDigit ≠ []) :
    Digits (cs.takeWhile Char.isDigit) :=
  ⟨h, List.all_eq_true.1 List.all_takeWhile⟩

theorem Digits.length_le {ds cs : List Char} (h : Digits ds) (hfront : ds <+: cs) :
    ds.length ≤ (cs.takeWhile Char.isDigit).length :=
  (prefix_takeWhile h.digits hfront).length_le

theorem Digits.takeWhile_isEmpty {ds cs : List Char} (h : Digits ds) (hfront : ds <+: cs) :
    (cs.takeWhile Char.isDigit).isEmpty = false := by
  have hle := h.length_le hfront
  have hpos := List.length_pos_iff.2 h.nonempty
  rw [List.isEmpty_eq_false_iff, ← List.length_pos_iff]
  omega

/-- Digits do not begin with a sign, a point or an exponent letter. -/
theorem Digits.head {ds : List Char} (h : Digits ds) : ∃ d more, ds = d :: more ∧ d.isDigit = true := by
  cases ds with
  | nil => exact absurd rfl h.nonempty
  | cons d more => exact ⟨d, more, rfl, h.digits d List.mem_cons_self⟩

theorem isDigit_of_letter {c : Char} (hc : c = 'e' ∨ c = 'E') : c.isDigit = false ∧ c ≠ '.' := by
  rcases hc with rfl | rfl
  · exact ⟨rfl, by decide⟩
  · exact ⟨rfl, by decide⟩

/-! ## Fractions -/

/-- The fraction at the front of a text, which may be missing, and what follows it. -/
def takeFraction (cs : List Char) : List Char × List Char := (fractionPart cs).getD ([], cs)

theorem fractionText_takeFraction (cs : List Char) :
    cs = (takeFraction cs).1 ++ (takeFraction cs).2 ∧ ∃ ds, FractionText (takeFraction cs).1 ds := by
  rw [takeFraction]
  fun_cases fractionPart cs with
  | case1 rest run hempty => exact ⟨rfl, [], .absent⟩
  | case2 rest run hempty =>
    refine ⟨?_, run, .present (digits_takeWhile fun hnil => hempty (List.isEmpty_iff.2 hnil))⟩
    exact congrArg ('.' :: ·) List.takeWhile_append_dropWhile.symm
  | case3 => exact ⟨rfl, [], .absent⟩

theorem takeFraction_point {rest : List Char} (h : (rest.takeWhile Char.isDigit).isEmpty = false) :
    takeFraction ('.' :: rest) = ('.' :: rest.takeWhile Char.isDigit, rest.dropWhile Char.isDigit) := by
  rw [takeFraction, fractionPart, h]
  rfl

/-- No longer fraction begins the text. -/
theorem FractionText.length_le {text ds cs : List Char} (h : FractionText text ds) (hfront : text <+: cs) :
    text.length ≤ (takeFraction cs).1.length := by
  cases h with
  | absent => exact Nat.zero_le _
  | present h =>
    obtain ⟨more, rfl⟩ := hfront
    rw [List.cons_append, takeFraction_point (h.takeWhile_isEmpty (List.prefix_append _ _))]
    exact Nat.succ_le_succ (h.length_le (List.prefix_append _ _))

/-- A fraction is read where neither a digit nor a point follows it. -/
theorem FractionText.takeFraction_eq {text ds next : List Char} (h : FractionText text ds)
    (hdigit : NotAhead Char.isDigit next) (hpoint : ∀ rest, next ≠ '.' :: rest) :
    takeFraction (text ++ next) = (text, next) := by
  cases h with
  | absent =>
    rw [List.nil_append, takeFraction]
    fun_cases fractionPart next with
    | case1 rest => exact absurd rfl (hpoint rest)
    | case2 rest => exact absurd rfl (hpoint rest)
    | case3 => rfl
  | present h =>
    rw [List.cons_append, takeFraction_point (h.takeWhile_isEmpty (List.prefix_append _ _)),
      hdigit.takeWhile_append h.digits, hdigit.dropWhile_append h.digits]

/-! ## Exponents -/

/-- The exponent at the front of a text, which may be missing, and what follows it. -/
def takeExponent (cs : List Char) : List Char × List Char := (exponentPart cs).getD ([], cs)

/-- The sign at the front of a text, which may be missing, and what follows it. -/
inductive SignText : List Char → List Char → List Char → Prop where
  | positive {digits : List Char} : SignText ('+' :: digits) ['+'] digits
  | negative {digits : List Char} : SignText ('-' :: digits) ['-'] digits
  | absent {digits : List Char} (hpositive : ∀ more, digits ≠ '+' :: more)
      (hnegative : ∀ more, digits ≠ '-' :: more) : SignText digits [] digits

theorem exponentPart_letter {c : Char} {rest sign digits : List Char} (hc : c = 'e' ∨ c = 'E')
    (h : SignText rest sign digits) :
    exponentPart (c :: rest) = if (digits.takeWhile Char.isDigit).isEmpty then none
      else some (c :: sign ++ digits.takeWhile Char.isDigit, digits.dropWhile Char.isDigit) := by
  have hletter : (c == 'e' || c == 'E') = true := by simpa using hc
  cases h with
  | positive => rw [exponentPart, if_pos hletter]
  | negative => rw [exponentPart, if_pos hletter]
  | absent hpositive hnegative =>
    rw [exponentPart, if_pos hletter]
    · exact hpositive
    · exact hnegative

theorem exists_signText (cs : List Char) : ∃ sign digits, SignText cs sign digits := by
  by_cases hpositive : ∃ more, cs = '+' :: more
  · obtain ⟨more, rfl⟩ := hpositive
    exact ⟨_, _, .positive⟩
  · by_cases hnegative : ∃ more, cs = '-' :: more
    · obtain ⟨more, rfl⟩ := hnegative
      exact ⟨_, _, .negative⟩
    · exact ⟨_, _, .absent (not_exists.1 hpositive) (not_exists.1 hnegative)⟩

theorem SignText.eq_append {cs sign digits : List Char} (h : SignText cs sign digits) :
    cs = sign ++ digits := by
  cases h <;> rfl

/-- Digits behind an exponent letter and a sign make an exponent. -/
theorem SignText.exponentText {c : Char} {cs sign digits ds : List Char} (h : SignText cs sign digits)
    (hc : c = 'e' ∨ c = 'E') (hds : Digits ds) : ∃ value, ExponentText (c :: sign ++ ds) value := by
  cases h with
  | positive => exact ⟨_, .positive hc hds⟩
  | negative => exact ⟨_, .negative hc hds⟩
  | absent => exact ⟨_, .unsigned hc hds⟩

theorem takeExponent_letter {c : Char} {rest sign digits : List Char} (hc : c = 'e' ∨ c = 'E')
    (hsign : SignText rest sign digits) (hrun : (digits.takeWhile Char.isDigit).isEmpty = false) :
    takeExponent (c :: rest)
      = (c :: sign ++ digits.takeWhile Char.isDigit, digits.dropWhile Char.isDigit) := by
  rw [takeExponent, exponentPart_letter hc hsign, hrun]
  rfl

theorem takeExponent_of_none {cs : List Char} (h : exponentPart cs = none) : takeExponent cs = ([], cs) := by
  rw [takeExponent, h]
  rfl

theorem exponentPart_of_not_letter {c : Char} {rest : List Char} (hc : ¬ (c = 'e' ∨ c = 'E')) :
    exponentPart (c :: rest) = none := by
  have hletter : ¬ (c == 'e' || c == 'E') = true := by simpa using hc
  unfold exponentPart
  exact if_neg hletter

theorem exponentText_takeExponent (cs : List Char) :
    cs = (takeExponent cs).1 ++ (takeExponent cs).2 ∧ ∃ value, ExponentText (takeExponent cs).1 value := by
  cases cs with
  | nil => exact ⟨rfl, 0, .absent⟩
  | cons c rest =>
    by_cases hc : c = 'e' ∨ c = 'E'
    · obtain ⟨sign, digits, hsign⟩ := exists_signText rest
      cases hrun : (digits.takeWhile Char.isDigit).isEmpty with
      | true =>
        rw [takeExponent_of_none (by rw [exponentPart_letter hc hsign, hrun, if_pos rfl])]
        exact ⟨rfl, 0, .absent⟩
      | false =>
        rw [takeExponent_letter hc hsign hrun]
        refine ⟨?_, hsign.exponentText hc (digits_takeWhile (List.isEmpty_eq_false_iff.1 hrun))⟩
        dsimp only
        rw [List.append_assoc, List.takeWhile_append_dropWhile, hsign.eq_append, List.cons_append]
    · rw [takeExponent_of_none (exponentPart_of_not_letter hc)]
      exact ⟨rfl, 0, .absent⟩

/-- The exponent that begins a text with a letter, a sign and digits is at least as long. -/
theorem length_le_takeExponent {c : Char} {sign digits ds rest : List Char} (hc : c = 'e' ∨ c = 'E')
    (hsign : SignText rest sign digits) (hds : Digits ds) (hfront : ds <+: digits) :
    (c :: sign ++ ds).length ≤ (takeExponent (c :: rest)).1.length := by
  rw [takeExponent_letter hc hsign (hds.takeWhile_isEmpty hfront)]
  have hle := hds.length_le hfront
  rw [List.length_append, List.length_append]
  omega

theorem ExponentText.length_le {text cs : List Char} {value : Int} (h : ExponentText text value)
    (hfront : text <+: cs) : text.length ≤ (takeExponent cs).1.length := by
  obtain ⟨more, rfl⟩ := hfront
  cases h with
  | absent => exact Nat.zero_le _
  | positive hc h => exact length_le_takeExponent hc .positive h (List.prefix_append _ _)
  | negative hc h => exact length_le_takeExponent hc .negative h (List.prefix_append _ _)
  | unsigned hc h =>
    obtain ⟨d, ds, rfl, hd⟩ := h.head
    refine length_le_takeExponent hc (.absent ?_ ?_) h (List.prefix_append _ _)
    · intro rest heq
      obtain ⟨rfl, -⟩ := List.cons.inj heq
      cases hd
    · intro rest heq
      obtain ⟨rfl, -⟩ := List.cons.inj heq
      cases hd

/-- An exponent that is not missing begins with its letter. -/
theorem ExponentText.head {text : List Char} {value : Int} (h : ExponentText text value) (hne : text ≠ []) :
    ∃ c more, text = c :: more ∧ (c = 'e' ∨ c = 'E') := by
  cases h with
  | absent => exact absurd rfl hne
  | unsigned hc h => exact ⟨_, _, rfl, hc⟩
  | positive hc h => exact ⟨_, _, rfl, hc⟩
  | negative hc h => exact ⟨_, _, rfl, hc⟩

theorem ExponentText.notAhead {text : List Char} {value : Int} (h : ExponentText text value) :
    NotAhead Char.isDigit text := by
  by_cases hne : text = []
  · subst hne
    intro c hc
    cases hc
  · obtain ⟨c, more, rfl, hc⟩ := h.head hne
    exact notAhead_cons (isDigit_of_letter hc).1

/-- Behind whole digits, a fraction or an exponent begins with something else than a digit. -/
theorem notAhead_fraction_exponent {fraction exponent ds : List Char} {e : Int}
    (hfraction : FractionText fraction ds) (hexponent : ExponentText exponent e) :
    NotAhead Char.isDigit (fraction ++ exponent) := by
  cases hfraction with
  | absent => exact hexponent.notAhead
  | present h => exact notAhead_cons rfl

/-- With a fraction or an exponent, a number is no longer made of digits only. -/
theorem not_digits_append {whole fraction exponent ds : List Char} {e : Int}
    (hfraction : FractionText fraction ds) (hexponent : ExponentText exponent e)
    (hmore : fraction ++ exponent ≠ []) : ¬ Digits (whole ++ (fraction ++ exponent)) := by
  intro h
  have hstop := notAhead_fraction_exponent hfraction hexponent
  cases hrest : fraction ++ exponent with
  | nil => exact hmore hrest
  | cons c more =>
    rw [hrest] at h hstop
    have hdigit := h.digits c (List.mem_append_right _ List.mem_cons_self)
    rw [hstop c rfl] at hdigit
    cases hdigit

/-! ## The values of numbers -/

theorem natural?_digits {ds : List Char} (h : Digits ds) : Decimal.natural? ds = some (digitsValue ds) := by
  have hdigits : (!ds.isEmpty && ds.all Char.isDigit) = true := by
    rw [List.isEmpty_eq_false_iff.2 h.nonempty, List.all_eq_true.2 h.digits]
    rfl
  rw [Decimal.natural?, if_pos hdigits]

theorem splitSign_digits {ds more : List Char} (h : Digits ds) :
    Decimal.splitSign (ds ++ more) = (false, ds ++ more) := by
  obtain ⟨d, ds, rfl, hd⟩ := h.head
  rw [List.cons_append, Decimal.splitSign]
  · rintro cs heq
    obtain ⟨rfl, -⟩ := List.cons.inj heq
    cases hd
  · rintro cs heq
    obtain ⟨rfl, -⟩ := List.cons.inj heq
    cases hd

theorem integer?_of_splitSign {cs ds : List Char} {negative : Bool}
    (hsplit : Decimal.splitSign cs = (negative, ds)) (h : Digits ds) :
    Decimal.integer? cs = some (if negative then -(digitsValue ds : Int) else digitsValue ds) := by
  rw [Decimal.integer?, hsplit]
  dsimp only
  rw [natural?_digits h]
  rfl

theorem exponent?_eq {c : Char} {text : List Char} {value : Int} (h : ExponentText (c :: text) value) :
    Decimal.exponent? text = some value := by
  cases h with
  | unsigned hc h =>
    have hsign : Decimal.splitSign (text ++ []) = (false, text ++ []) := splitSign_digits h
    rw [List.append_nil] at hsign
    exact integer?_of_splitSign hsign h
  | positive hc h => exact integer?_of_splitSign rfl h
  | negative hc h => exact integer?_of_splitSign rfl h

/-- The parts of a number give its value: all its digits, with the exponent lowered by those of the
    fraction. -/
theorem scientific?_eq {whole fraction exponent ds : List Char} {e : Int} (hwhole : Digits whole)
    (hfraction : FractionText fraction ds) (hexponent : ExponentText exponent e) :
    Decimal.scientific? (whole ++ (fraction ++ exponent))
      = some ⟨false, digitsValue (whole ++ ds), e - ds.length⟩ := by
  have hstop := notAhead_fraction_exponent hfraction hexponent
  have hne : whole.isEmpty = false := List.isEmpty_eq_false_iff.2 hwhole.nonempty
  rw [Decimal.scientific?, splitSign_digits hwhole]
  simp only [hstop.takeWhile_append hwhole.digits, hstop.dropWhile_append hwhole.digits, hne,
    Bool.false_and]
  by_cases hnone : exponent = []
  · subst hnone
    cases hexponent with
    | absent =>
      cases hfraction with
      | absent => simp
      | present h =>
        have hend : NotAhead Char.isDigit [] := fun c hc => by cases hc
        simp only [List.cons_append, hend.takeWhile_append h.digits, hend.dropWhile_append h.digits]
        simp
  · obtain ⟨c, text, rfl, hletter⟩ := hexponent.head hnone
    have hvalue := exponent?_eq hexponent
    cases hfraction with
    | absent => rcases hletter with rfl | rfl <;> simp [hvalue]
    | present h =>
      simp only [List.cons_append, hexponent.notAhead.takeWhile_append h.digits,
        hexponent.notAhead.dropWhile_append h.digits]
      simp [hvalue, hletter]

/-- What a number stands for is told by its text: a word if it has digits only, and the nearest floating-point
    number otherwise. -/
theorem Spells.number_eq {w : List Char} {t : Option Token} (h : Spells .number w t) :
    (Digits w → t = (Decimal.word? (digitsValue w)).map .int) ∧
    (¬ Digits w → t = (Decimal.float? w).map .float) := by
  cases h with
  | @int ds n hdigits hn =>
    refine ⟨fun _ => ?_, absurd hdigits⟩
    rw [← hn, Decimal.word?_toInt]
    rfl
  | tooLarge hdigits hlarge =>
    refine ⟨fun _ => ?_, absurd hdigits⟩
    rw [Decimal.word?, if_neg fun hfits => absurd hfits.2 (by omega)]
    rfl
  | float hwhole hfraction hexponent hmore =>
    refine ⟨fun hdigits => absurd hdigits (not_digits_append hfraction hexponent hmore), fun _ => ?_⟩
    rw [Decimal.float?, scientific?_eq hwhole hfraction hexponent]
    rfl

/-! ## The longest number -/

theorem numberTail_eq (cs : List Char) : numberTail cs
    = (((takeFraction cs).1, (takeExponent (takeFraction cs).2).1), (takeExponent (takeFraction cs).2).2) :=
  rfl

/-- No number at the front of a text is longer than its digits with the fraction and the exponent. -/
theorem Spells.length_le_number {v whole cs : List Char} {u : Option Token} (hv : Spells .number v u)
    (hwhole : Digits whole) (hstop : NotAhead Char.isDigit cs) (hfront : v <+: whole ++ cs) :
    v.length ≤ (whole ++ ((numberTail cs).1.1 ++ (numberTail cs).1.2)).length := by
  have hrun : (whole ++ cs).takeWhile Char.isDigit = whole := hstop.takeWhile_append hwhole.digits
  have hdigits : ∀ {ds : List Char}, Digits ds → ds <+: whole ++ cs →
      ds.length ≤ (whole ++ ((numberTail cs).1.1 ++ (numberTail cs).1.2)).length := by
    intro ds h hds
    have hle := h.length_le hds
    rw [hrun] at hle
    rw [List.length_append]
    omega
  cases hv with
  | int h hn => exact hdigits h hfront
  | tooLarge h hlarge => exact hdigits h hfront
  | @float whole' fraction exponent ds e hwhole' hfraction hexponent hmore =>
    obtain ⟨more, hmore'⟩ := hfront
    -- the digits of both numbers are the run of digits at the front
    have hstop' : NotAhead Char.isDigit (fraction ++ exponent ++ more) :=
      (Text.notAhead_append hmore).2 (notAhead_fraction_exponent hfraction hexponent)
    rw [List.append_assoc] at hmore'
    obtain rfl : whole' = whole := by
      rw [← hrun, ← hmore', hstop'.takeWhile_append hwhole'.digits]
    obtain rfl : fraction ++ exponent ++ more = cs := List.append_cancel_left hmore'
    rw [numberTail_eq, List.length_append, List.length_append, List.length_append, List.length_append]
    dsimp only
    refine Nat.add_le_add_left ?_ _
    by_cases hnone : exponent = []
    · subst hnone
      have hfront : fraction <+: fraction ++ [] ++ more := ⟨more, by rw [List.append_nil]⟩
      have hle := hfraction.length_le hfront
      rw [List.length_nil]
      omega
    · -- the exponent's letter ends the digits of the fraction
      have hnext : NotAhead Char.isDigit (exponent ++ more) := (Text.notAhead_append hnone).2 hexponent.notAhead
      rw [List.append_assoc, hfraction.takeFraction_eq hnext ?_]
      · have hle := hexponent.length_le (List.prefix_append exponent more)
        dsimp only
        omega
      · intro rest heq
        obtain ⟨c, text, rfl, hc⟩ := hexponent.head hnone
        exact (isDigit_of_letter hc).2 (List.cons.inj heq).1

/-- What the number that is read spells: a token, or none where it is whole and no word holds it. -/
theorem spells_numberToken {whole fraction exponent ds : List Char} {e : Int} (hwhole : Digits whole)
    (hfraction : FractionText fraction ds) (hexponent : ExponentText exponent e) :
    Spells .number (whole ++ (fraction ++ exponent)) (numberToken whole fraction exponent).toOption := by
  by_cases hmore : fraction ++ exponent = []
  · obtain ⟨rfl, rfl⟩ := List.append_eq_nil_iff.1 hmore
    rw [List.append_nil, List.append_nil, numberToken, List.isEmpty_nil, Bool.and_self, if_pos rfl]
    cases hword : Decimal.word? (digitsValue whole) with
    | some n => exact .int hwhole (Decimal.toInt_of_word? hword)
    | none =>
      refine .tooLarge hwhole ?_
      rw [Decimal.word?] at hword
      split at hword
      · cases hword
      · next hout =>
        rw [Decimal.minValue_toInt] at hout
        omega
  · have hempty : ¬ (fraction.isEmpty && exponent.isEmpty) = true := by
      rw [Bool.and_eq_true, List.isEmpty_iff, List.isEmpty_iff]
      rintro ⟨rfl, rfl⟩
      exact hmore rfl
    rw [numberToken, if_neg hempty, List.append_assoc, Decimal.float?,
      scientific?_eq hwhole hfraction hexponent]
    exact .float hwhole hfraction hexponent hmore

/-- The number that is read is the longest one, whether or not it stands for a token. -/
theorem longest_number {c : Char} (rest : List Char) (hc : c.isDigit = true) :
    ∃ w, c :: rest = w ++ (numberTail (rest.dropWhile Char.isDigit)).2 ∧ Longest (c :: rest) w
      ((number (c :: rest.takeWhile Char.isDigit) (rest.dropWhile Char.isDigit)).toOption.map Prod.fst) := by
  have hwhole : Digits (c :: rest.takeWhile Char.isDigit) := by
    refine ⟨List.cons_ne_nil _ _, List.forall_mem_cons.2 ⟨hc, ?_⟩⟩
    exact List.all_eq_true.1 List.all_takeWhile
  have hcut : c :: rest = (c :: rest.takeWhile Char.isDigit) ++ rest.dropWhile Char.isDigit :=
    congrArg (c :: ·) List.takeWhile_append_dropWhile.symm
  have hstop := Text.notAhead_dropWhile Char.isDigit rest
  revert hwhole hcut hstop
  generalize c :: rest.takeWhile Char.isDigit = whole
  generalize rest.dropWhile Char.isDigit = cs
  intro hwhole hcut hstop
  obtain ⟨hfront, ds, hfraction⟩ := fractionText_takeFraction cs
  obtain ⟨hback, e, hexponent⟩ := exponentText_takeExponent (takeFraction cs).2
  have hspells := spells_numberToken hwhole hfraction hexponent
  have htoken : (number whole cs).toOption.map Prod.fst
      = (numberToken whole (takeFraction cs).1 (takeExponent (takeFraction cs).2).1).toOption := by
    rw [number, numberTail_eq]
    dsimp only
    cases numberToken whole (takeFraction cs).1 (takeExponent (takeFraction cs).2).1 <;> rfl
  have hwhole' : c :: rest = whole ++ ((numberTail cs).1.1 ++ (numberTail cs).1.2) ++ (numberTail cs).2 := by
    rw [hcut, List.append_assoc, List.append_assoc, numberTail_eq]
    dsimp only
    rw [← hback, ← hfront]
  refine ⟨_, hwhole', ⟨.number, htoken ▸ hspells⟩, ⟨_, hwhole'.symm⟩, ?_⟩
  intro form v u hv hprefix
  obtain rfl : form = .number := (hv.form_eq hprefix).trans (formOf_of_isDigit hc)
  exact hv.length_le_number hwhole hstop (hcut ▸ hprefix)

theorem rest_of_number {whole cs rest : List Char} {t : Token} (h : number whole cs = .ok (t, rest)) :
    rest = (numberTail cs).2 := by
  rw [number] at h
  cases htoken : numberToken whole (numberTail cs).1.1 (numberTail cs).1.2 with
  | error p =>
    rw [htoken] at h
    cases h
  | ok token =>
    rw [htoken] at h
    exact (Prod.mk.inj (Except.ok.inj h)).2.symm

end Stencil.Token
