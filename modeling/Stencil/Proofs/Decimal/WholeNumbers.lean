import Mathlib
import Stencil.Decimal.Integer
import Stencil.Decimal.Binary64
/-
  Whole numbers as floating-point numbers.

  A whole number becomes the floating-point number nearest to it, which has 53 bits to hold it.  So what
  comes back when that number is cut down again is the whole number rounded to its first 53 bits, a
  half going to the even side, and brought back between the bounds of a word.

  The main statement says which whole numbers come back as they were: those that need no more than 53
  bits, zeros at the end aside, and the largest word.  None but zero becomes a zero.
-/

namespace Stencil.Binary64

open Float.Model (Format)
open Float.Model.UnpackedFloat

/-! ## Words of numbers -/

/-- The format of words of 64 bits. -/
abbrev format : Format := Format.binary64

theorem sign_toBitVec (b : BitVec 1) : (Sign.ofBitVec b).toBitVec = b := by
  revert b
  decide

/-- A word is put together from the parts it is taken apart into. -/
theorem packComponents_parts (b : BitVec 64) :
    packComponents format (Sign.ofBitVec (@unpackSign format b)) (unpackExponent b)
      (unpackMantissa b) = b := by
  rw [packComponents, sign_toBitVec]
  show BitVec.extractLsb 63 63 b ++ BitVec.extractLsb 62 52 b ++ BitVec.extractLsb 51 0 b = b
  ext i hi
  grind

theorem toNat_unpackExponent (b : BitVec 64) :
    (@unpackExponent format b).toNat = b.toNat / 2 ^ 52 % 2 ^ 11 := by
  simp [unpackExponent, Nat.shiftRight_eq_div_pow]

theorem mantissaBits_format : format.mantissaBits = 53 := rfl

/-- A number below the smallest exponent keeps its significand as it is. -/
theorem pack_subnormal (s : Sign) (m : BitVec 52) (h : 0 < m.toNat) :
    pack format (.finite s m.toNat (-1074) h) = packComponents format s 0#_ m := by
  have hlog : m.toNat.log2 < 52 := (Nat.log2_lt (by omega)).2 m.isLt
  rw [pack]
  dsimp only
  rw [if_neg (by decide), if_neg (by rw [mantissaBits_format]; omega), BitVec.ofNat_toNat,
    BitVec.setWidth_eq]

/-- Any other finite number leaves the bit in front of its fraction out. -/
theorem pack_normal (s : Sign) (e : BitVec 11) (m : BitVec 52) (he : e.toNat < 2047)
    (h : 0 < (1#1 ++ m).toNat) :
    pack format (.finite s (1#1 ++ m).toNat ((e.toNat : Int) - 1075) h) =
      packComponents format s e m := by
  have hm : (1#1 ++ m).toNat = 2 ^ 52 + m.toNat := by
    have hor := Nat.two_pow_add_eq_or_of_lt m.isLt 1
    rw [BitVec.toNat_append, Nat.shiftLeft_eq]
    simpa using hor.symm
  have hlt := m.isLt
  have hlog : (1#1 ++ m).toNat.log2 = 52 := (Nat.log2_eq_iff (by omega)).2 ⟨by omega, by omega⟩
  have hbias : format.exponentBias = 1023 := rfl
  have hbiased : ((e.toNat : Int) - 1075 + (1023 : Nat) + (52 : Nat)).toNat = e.toNat := by omega
  have hfraction : BitVec.ofNat 52 (2 ^ 52 + m.toNat) = m := by
    apply BitVec.eq_of_toNat_eq
    rw [BitVec.toNat_ofNat]
    omega
  rw [pack]
  dsimp only
  rw [hbias, hbiased, if_neg (by omega), if_pos (by rw [hlog, mantissaBits_format]), hm,
    BitVec.ofNat_toNat, BitVec.setWidth_eq, hfraction]

/-- The word of a finite number is taken apart and put together without loss. -/
theorem pack_unpack (b : BitVec 64) (h : b.toNat / 2 ^ 52 % 2 ^ 11 ≠ 2047) :
    pack format (unpack format b) = b := by
  have hlt : (@unpackExponent format b).toNat < 2047 := by
    rw [toNat_unpackExponent]
    omega
  have hfinite : @unpackExponent format b ≠ -1#_ := by
    intro he
    rw [he] at hlt
    exact absurd hlt (by decide)
  have hbias : (format.exponentBias : Int) + format.mantissaBitsWithoutImplicit = 1075 := rfl
  conv => rhs; rw [← packComponents_parts b]
  rw [unpack]
  simp only [if_neg hfinite, hbias]
  split
  · next he =>
    rw [he]
    split
    · next hm => rw [hm]; rfl
    · exact pack_subnormal _ _ _
  · exact pack_normal _ _ _ hlt _

/-- A finite number has the word it was made of. -/
theorem toBits_ofBits {w : UInt64} (h : w.toNat / unitBit % 2048 ≠ 2047) :
    (Float.ofBits w).toBits = w := by
  have hpack := pack_unpack w.toBitVec h
  show UInt64.ofBitVec (pack format (unpack format w.toBitVec)) = w
  rw [hpack, UInt64.ofBitVec_toBitVec]

/-! ## The nearest number -/

/-- A ratio rounded to a whole number; a half goes to the even side. -/
def halfEven (num den : Nat) : Nat :=
  if 2 * (num % den) > den ∨ (2 * (num % den) = den ∧ num / den % 2 = 1) then num / den + 1
  else num / den

/-- A ratio over `2 ^ e`. -/
def scaled (num den : Nat) (e : Int) : Nat × Nat :=
  (if e < 0 then num * 2 ^ (-e).toNat else num, if e < 0 then den else den * 2 ^ e.toNat)

/-- The whole number of 53 bits, and zeros behind them, that is nearest to a whole number. -/
def nearestWhole (n : Nat) : Nat := halfEven n (2 ^ (n.log2 - 52)) * 2 ^ (n.log2 - 52)

theorem unitBit_eq : unitBit = 2 ^ 52 := rfl

theorem signBit_eq : signBit = 2 ^ 63 := rfl

theorem le_halfEven (num den : Nat) : num / den ≤ halfEven num den := by
  unfold halfEven
  split <;> omega

theorem halfEven_le (num den : Nat) : halfEven num den ≤ num / den + 1 := by
  unfold halfEven
  split <;> omega

/-- What divides needs no rounding. -/
theorem halfEven_of_dvd {num den : Nat} (hpos : 0 < den) (h : den ∣ num) :
    halfEven num den = num / den := by
  rw [halfEven, Nat.mod_eq_zero_of_dvd h, if_neg (by omega)]

theorem two_pow_mul {a b c : Nat} (h : a + b = c) : 2 ^ a * 2 ^ b = 2 ^ c := by
  rw [← Nat.pow_add, h]

/-- The exponent is a guess or one more, and what is over it is rounded. -/
theorem nearestWord_eq {num den : Nat} (h : ¬ (num = 0 ∨ den = 0)) {guess : Int}
    (hguess : max ((num.log2 : Int) - den.log2 - 53) (-1074) = guess)
    (hbits : 2 * unitBit ≤ (scaled num den guess).1 / (scaled num den guess).2) :
    nearestWord num den =
      min ((guess + 1 + 1075).toNat * unitBit +
        halfEven (scaled num den (guess + 1)).1 (scaled num den (guess + 1)).2 - unitBit)
        (2047 * unitBit) := by
  have he : (if (scaled num den guess).1 / (scaled num den guess).2 < 2 * unitBit then guess
      else guess + 1) = guess + 1 := if_neg (by omega)
  subst hguess
  unfold nearestWord
  rw [if_neg h]
  exact congrArg (fun e : Int => min ((e + 1075).toNat * unitBit +
    halfEven (scaled num den e).1 (scaled num den e).2 - unitBit) (2047 * unitBit)) he

/-- Over the power of two that leaves it `k + 1` bits, a whole number lies between `2 ^ k` and twice
    that. -/
theorem scaled_bounds {n : Nat} (hn : n ≠ 0) (k : Nat) :
    2 ^ k ≤ (scaled n 1 (n.log2 - k)).1 / (scaled n 1 (n.log2 - k)).2 ∧
      (scaled n 1 (n.log2 - k)).1 / (scaled n 1 (n.log2 - k)).2 < 2 ^ (k + 1) := by
  have hlow := Nat.log2_self_le hn
  have hhigh := @Nat.lt_log2_self n
  unfold scaled
  dsimp only
  split
  · next hneg =>
    have hk : (-((n.log2 : Int) - k)).toNat = k - n.log2 := by omega
    rw [hk, Nat.div_one, ← two_pow_mul (show n.log2 + (k - n.log2) = k by omega),
      ← two_pow_mul (show n.log2 + 1 + (k - n.log2) = k + 1 by omega)]
    exact ⟨Nat.mul_le_mul_right _ hlow, Nat.mul_lt_mul_of_pos_right hhigh (Nat.two_pow_pos _)⟩
  · next hnonneg =>
    have hk : ((n.log2 : Int) - k).toNat = n.log2 - k := by omega
    rw [hk, Nat.one_mul, Nat.le_div_iff_mul_le (Nat.two_pow_pos _),
      Nat.div_lt_iff_lt_mul (Nat.two_pow_pos _),
      two_pow_mul (show k + (n.log2 - k) = n.log2 by omega),
      two_pow_mul (show k + 1 + (n.log2 - k) = n.log2 + 1 by omega)]
    exact ⟨hlow, hhigh⟩

/-- The significand of the number nearest to a whole number. -/
def significand (n : Nat) : Nat :=
  halfEven (scaled n 1 (n.log2 - (52 : Nat))).1 (scaled n 1 (n.log2 - (52 : Nat))).2

theorem significand_bounds {n : Nat} (hn : n ≠ 0) :
    unitBit ≤ significand n ∧ significand n ≤ 2 * unitBit := by
  have hbounds := scaled_bounds hn 52
  have hlow := le_halfEven (scaled n 1 (n.log2 - (52 : Nat))).1 (scaled n 1 (n.log2 - (52 : Nat))).2
  have hhigh := halfEven_le (scaled n 1 (n.log2 - (52 : Nat))).1 (scaled n 1 (n.log2 - (52 : Nat))).2
  rw [unitBit_eq, significand]
  omega

/-- The word of the number nearest to a whole number: its exponent counts the bits of the whole number,
    and a significand that was rounded up beyond 53 bits runs into it. -/
theorem nearestWord_one {n : Nat} (hn : n ≠ 0) (hlt : n < 2 ^ 64) :
    nearestWord n 1 = (n.log2 + 1022) * unitBit + significand n := by
  have hlog : n.log2 < 64 := (Nat.log2_lt hn).2 hlt
  have hguess : max ((n.log2 : Int) - Nat.log2 1 - 53) (-1074) = n.log2 - (53 : Nat) := by
    rw [show Nat.log2 1 = 0 from rfl]
    omega
  have hexponent : (n.log2 : Int) - (53 : Nat) + 1 = n.log2 - (52 : Nat) := by omega
  have hbiased : ((n.log2 : Int) - (52 : Nat) + 1075).toNat = n.log2 + 1023 := by omega
  -- the guess has one bit more than a significand
  have hbits : 2 * unitBit ≤ _ := (scaled_bounds hn 53).1
  have hsignificand := significand_bounds hn
  rw [nearestWord_eq (by omega) hguess hbits, hexponent, hbiased]
  unfold significand at hsignificand ⊢
  rw [unitBit_eq] at hsignificand ⊢
  omega

/-! ## Cut down again -/

theorem halfEven_one (n : Nat) : halfEven n 1 = n := by
  rw [halfEven_of_dvd Nat.one_pos (Nat.one_dvd n), Nat.div_one]

/-- A short whole number is held as it is. -/
theorem nearestWhole_of_short {n : Nat} (h : n.log2 ≤ 52) : nearestWhole n = n := by
  rw [nearestWhole, show n.log2 - 52 = 0 by omega, Nat.pow_zero, halfEven_one, Nat.mul_one]

/-- The significand of a long whole number is its first 53 bits, rounded. -/
theorem significand_of_long {n : Nat} (h : 52 ≤ n.log2) :
    significand n = halfEven n (2 ^ (n.log2 - 52)) := by
  have hk : ((n.log2 : Int) - (52 : Nat)).toNat = n.log2 - 52 := by omega
  simp only [significand, scaled, if_neg (show ¬ ((n.log2 : Int) - (52 : Nat) < 0) by omega), hk,
    Nat.one_mul]

/-- The significand of a short whole number is that number with zeros behind it. -/
theorem significand_of_short {n : Nat} (h : n.log2 ≤ 52) :
    significand n = n * 2 ^ (52 - n.log2) := by
  rcases Nat.lt_or_eq_of_le h with hlt | heq
  · have hk : (-((n.log2 : Int) - (52 : Nat))).toNat = 52 - n.log2 := by omega
    simp only [significand, scaled, if_pos (show (n.log2 : Int) - (52 : Nat) < 0 by omega), hk,
      halfEven_one]
  · rw [significand_of_long (by omega), heq, Nat.sub_self, Nat.pow_zero, halfEven_one, Nat.mul_one]

theorem wholePart_significand (n : Nat) :
    wholePart (significand n) (n.log2 - 52) = nearestWhole n := by
  unfold wholePart
  split
  · next hneg =>
    have hk : (-((n.log2 : Int) - 52)).toNat = 52 - n.log2 := by omega
    rw [hk, significand_of_short (by omega), nearestWhole_of_short (by omega)]
    exact Nat.mul_div_cancel _ (Nat.two_pow_pos _)
  · next hnonneg =>
    have hk : ((n.log2 : Int) - 52).toNat = n.log2 - 52 := by omega
    rw [hk, significand_of_long (by omega)]
    rfl

/-- A significand that was rounded up beyond 53 bits is halved, and the exponent makes up for it. -/
theorem wholePart_carried {n : Nat} (h : significand n = 2 * unitBit) :
    wholePart unitBit (n.log2 - 51) = nearestWhole n := by
  have hlong : 52 < n.log2 := by
    -- a short whole number fills no more than 53 bits
    refine Nat.lt_of_not_le fun hshort => ?_
    have hlt := Nat.mul_lt_mul_of_pos_right (@Nat.lt_log2_self n) (Nat.two_pow_pos (52 - n.log2))
    rw [two_pow_mul (show n.log2 + 1 + (52 - n.log2) = 53 by omega), ← significand_of_short hshort,
      h, unitBit_eq] at hlt
    omega
  have hk : ((n.log2 : Int) - 51).toNat = n.log2 - 52 + 1 := by omega
  rw [wholePart, if_neg (by omega), hk, nearestWhole, ← significand_of_long (by omega), h]
  show unitBit * 2 ^ (n.log2 - 52 + 1) = _
  rw [Nat.pow_succ, Nat.mul_comm (2 ^ _) 2, ← Nat.mul_assoc, Nat.mul_comm unitBit 2]

/-- A word is read as a sign, an exponent and a fraction. -/
theorem ofWord_finite {negative : Bool} {biased fraction : Nat} (hpos : 0 < biased)
    (hlt : biased < 2047) (hfraction : fraction < unitBit) :
    ofWord ((if negative then signBit else 0) + (biased * unitBit + fraction)) =
      .finite negative (fraction + unitBit) (biased - 1075) := by
  have hsign : signBit ≤ (if negative then signBit else 0) + (biased * unitBit + fraction) ↔
      negative = true := by
    rw [unitBit_eq] at *
    rw [signBit_eq]
    cases negative with
    | false => simp; omega
    | true => simp
  have hbiased : ((if negative then signBit else 0) + (biased * unitBit + fraction)) / unitBit % 2048 =
      biased := by
    rw [unitBit_eq] at *
    rw [signBit_eq]
    split <;> omega
  have hrest : ((if negative then signBit else 0) + (biased * unitBit + fraction)) % unitBit =
      fraction := by
    rw [unitBit_eq] at *
    rw [signBit_eq]
    split <;> omega
  simp only [ofWord, hbiased, hrest]
  rw [if_neg (by omega), if_neg (by omega)]
  congr 1
  exact Bool.eq_iff_iff.2 (decide_eq_true_iff.trans hsign)

theorem nearestWord_one_le {n : Nat} (h : n < 2 ^ 64) : nearestWord n 1 ≤ 1087 * unitBit := by
  by_cases hn : n = 0
  · rw [nearestWord, if_pos (.inl hn)]
    exact Nat.zero_le _
  · have hlog : n.log2 < 64 := (Nat.log2_lt hn).2 h
    have hsignificand := (significand_bounds hn).2
    rw [nearestWord_one hn h, unitBit_eq] at *
    omega

/-- The word of the number nearest to an integer: a sign, and the word of its magnitude. -/
theorem toNat_toBits_ofInt {n : Int} (h : n.natAbs < 2 ^ 64) :
    (ofInt n).toBits.toNat =
      (if decide (n < 0) then signBit else 0) + nearestWord n.natAbs 1 := by
  have hle := nearestWord_one_le h
  rw [unitBit_eq] at hle
  have hword : (UInt64.ofNat ((if decide (n < 0) then signBit else 0) +
      nearestWord n.natAbs 1)).toNat =
      (if decide (n < 0) then signBit else 0) + nearestWord n.natAbs 1 := by
    rw [signBit_eq]
    apply UInt64.toNat_ofNat_of_lt
    show _ < 2 ^ 64
    split <;> omega
  rw [ofInt, ofRatio, toBits_ofBits, hword]
  rw [hword, unitBit_eq, signBit_eq]
  split <;> omega

/-- Only zero becomes a zero. -/
theorem isZero_ofInt {n : Int} (h : n.natAbs < 2 ^ 64) : isZero (ofInt n) = true ↔ n = 0 := by
  have hle := nearestWord_one_le h
  have hrank : isZero (ofInt n) = true ↔ nearestWord n.natAbs 1 = 0 := by
    rw [isZero, beq_iff_eq, rank, toNat_toBits_ofInt h]
    rw [unitBit_eq] at hle
    rw [signBit_eq]
    split <;> split <;> omega
  rw [hrank]
  constructor
  · intro hzero
    refine Decidable.byContradiction fun hn => ?_
    have hpos := (significand_bounds (n := n.natAbs) (by omega)).1
    rw [nearestWord_one (by omega) h, unitBit_eq] at *
    omega
  · rintro rfl
    rfl

/-- The number nearest to an integer, taken apart. -/
theorem shape_ofInt {n : Int} (h : n.natAbs < 2 ^ 64) :
    ∃ m e, shape (ofInt n) = .finite (n < 0) m e ∧ wholePart m e = nearestWhole n.natAbs := by
  by_cases hn : n = 0
  · subst hn
    refine ⟨0, -1074, rfl, ?_⟩
    rw [wholePart, if_pos (by decide), Nat.zero_div]
    rfl
  · have hn : n.natAbs ≠ 0 := by omega
    have hlog : n.natAbs.log2 < 64 := (Nat.log2_lt hn).2 h
    obtain ⟨hlow, hhigh⟩ := significand_bounds hn
    rw [shape, toNat_toBits_ofInt h, nearestWord_one hn h]
    rcases Nat.lt_or_eq_of_le hhigh with hlt | heq
    · have hsplit : (n.natAbs.log2 + 1022) * unitBit + significand n.natAbs =
          (n.natAbs.log2 + 1023) * unitBit + (significand n.natAbs - unitBit) := by
        rw [unitBit_eq] at *
        omega
      have hexponent : ((n.natAbs.log2 + 1023 : Nat) : Int) - 1075 = n.natAbs.log2 - 52 := by omega
      refine ⟨significand n.natAbs, n.natAbs.log2 - 52, ?_, wholePart_significand _⟩
      rw [hsplit, ofWord_finite (by omega) (by omega) (by omega), hexponent,
        Nat.sub_add_cancel hlow]
    · have hsplit : (n.natAbs.log2 + 1022) * unitBit + significand n.natAbs =
          (n.natAbs.log2 + 1024) * unitBit + 0 := by
        rw [heq, unitBit_eq]
        omega
      have hexponent : ((n.natAbs.log2 + 1024 : Nat) : Int) - 1075 = n.natAbs.log2 - 51 := by omega
      refine ⟨unitBit, n.natAbs.log2 - 51, ?_, wholePart_carried heq⟩
      rw [hsplit, ofWord_finite (by omega) (by omega) (by rw [unitBit_eq]; omega), hexponent,
        Nat.zero_add]

/-- What is left of an integer that is made a floating-point number and cut down again. -/
def kept (n : Int) : Int :=
  max Int64.minValue.toInt (min Int64.maxValue.toInt (signed (n < 0) (nearestWhole n.natAbs)))

theorem truncate_ofInt {n : Int} (h : n.natAbs < 2 ^ 64) :
    truncate (ofInt n) = Int64.ofInt (kept n) := by
  obtain ⟨m, e, hshape, hwhole⟩ := shape_ofInt h
  rw [truncate, hshape]
  dsimp only
  rw [hwhole, kept]

theorem kept_bounds (n : Int) : -2 ^ 63 ≤ kept n ∧ kept n < 2 ^ 63 := by
  rw [kept, Decimal.minValue_toInt, Decimal.maxValue_toInt]
  omega

theorem toInt_truncate_ofInt {n : Int} (h : n.natAbs < 2 ^ 64) :
    (truncate (ofInt n)).toInt = kept n := by
  obtain ⟨hlow, hhigh⟩ := kept_bounds n
  rw [truncate_ofInt h]
  exact Int64.toInt_ofInt_of_le hlow hhigh

/-! ## What comes back as it was -/

/-- A whole number can be written with 53 bits and zeros behind them. -/
def FewBits (n : Nat) : Prop := ∃ m k, m < 2 ^ 53 ∧ n = m * 2 ^ k

theorem nearestWhole_of_fewBits {n : Nat} (h : FewBits n) : nearestWhole n = n := by
  obtain ⟨m, k, hm, rfl⟩ := h
  by_cases hzero : m * 2 ^ k = 0
  · rw [hzero]
    rfl
  · -- the zeros behind the 53 bits are among those that are left out
    have hlog : (m * 2 ^ k).log2 < 53 + k := by
      refine (Nat.log2_lt hzero).2 ?_
      rw [Nat.pow_add]
      exact Nat.mul_lt_mul_of_pos_right hm (Nat.two_pow_pos k)
    have hdvd : 2 ^ ((m * 2 ^ k).log2 - 52) ∣ m * 2 ^ k :=
      Nat.dvd_mul_left_of_dvd (Nat.pow_dvd_pow 2 (by omega)) m
    rw [nearestWhole, halfEven_of_dvd (Nat.two_pow_pos _) hdvd, Nat.div_mul_cancel hdvd]

theorem fewBits_nearestWhole {n : Nat} (hn : n ≠ 0) : FewBits (nearestWhole n) := by
  by_cases hshort : n.log2 ≤ 52
  · rw [nearestWhole_of_short hshort]
    exact ⟨n, 0, (Nat.log2_lt hn).1 (by omega), (Nat.mul_one n).symm⟩
  · have hbounds := (significand_bounds hn).2
    rw [significand_of_long (by omega), unitBit_eq] at hbounds
    rcases Nat.lt_or_eq_of_le hbounds with hlt | heq
    · exact ⟨_, _, hlt, rfl⟩
    · refine ⟨1, 53 + (n.log2 - 52), by omega, ?_⟩
      have hdouble : 2 * 2 ^ 52 = 2 ^ 53 := by omega
      rw [nearestWhole, heq, Nat.one_mul, Nat.pow_add, hdouble]

theorem nearestWhole_pos {n : Nat} (hn : n ≠ 0) : 0 < nearestWhole n := by
  by_cases hshort : n.log2 ≤ 52
  · rw [nearestWhole_of_short hshort]
    omega
  · have hbounds := (significand_bounds hn).1
    rw [significand_of_long (by omega), unitBit_eq] at hbounds
    exact Nat.mul_pos (by omega) (Nat.two_pow_pos _)

theorem signed_natAbs (n : Int) : signed (n < 0) n.natAbs = n := by
  unfold signed
  split
  · next h => have := of_decide_eq_true h; omega
  · next h => have := of_decide_eq_false (Bool.eq_false_iff.2 h); omega

theorem kept_eq_zero_iff {n : Int} : kept n = 0 ↔ n = 0 := by
  constructor
  · intro h
    refine Decidable.byContradiction fun hn => ?_
    have hpos := nearestWhole_pos (n := n.natAbs) (by omega)
    rw [kept, Decimal.minValue_toInt, Decimal.maxValue_toInt, signed] at h
    split at h <;> omega
  · rintro rfl
    rfl

/-- A word of few bits, or the largest one. -/
def Holds (w : Int64) : Prop := FewBits w.toInt.natAbs ∨ w = Int64.maxValue

/-- Exactly these words come back as they were. -/
theorem kept_eq_iff {w : Int64} : kept w.toInt = w.toInt ↔ Holds w := by
  have hlow := w.le_toInt
  have hhigh := w.toInt_lt
  constructor
  · intro h
    by_cases hmax : w = Int64.maxValue
    · exact .inr hmax
    · have hne : w.toInt ≠ 2 ^ 63 - 1 := fun heq => hmax (Int64.toInt_inj.1 heq)
      by_cases hzero : w.toInt.natAbs = 0
      · exact .inl ⟨0, 0, by decide, by rw [hzero, Nat.zero_mul]⟩
      · have hsame : nearestWhole w.toInt.natAbs = w.toInt.natAbs ∨ w.toInt.natAbs = 2 ^ 63 := by
          rw [kept, Decimal.minValue_toInt, Decimal.maxValue_toInt, signed] at h
          split at h
          · next hneg => have := of_decide_eq_true hneg; omega
          · next hpos => have := of_decide_eq_false (Bool.eq_false_iff.2 hpos); omega
        rcases hsame with hsame | hmin
        · exact .inl (hsame ▸ fewBits_nearestWhole hzero)
        · exact .inl ⟨1, 63, by decide, by rw [hmin, Nat.one_mul]⟩
  · rintro (h | rfl)
    · rw [kept, nearestWhole_of_fewBits h, signed_natAbs, Decimal.minValue_toInt,
        Decimal.maxValue_toInt]
      omega
    · decide +kernel

end Stencil.Binary64
