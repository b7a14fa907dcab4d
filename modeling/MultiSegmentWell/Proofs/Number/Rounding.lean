/-
# Products and quotients are rounded to nearest

What a finite double stands for is a rational number (`toRat`). The product and the quotient of
two of them are computed with two bits behind the mantissa, which say in which half of the last
place the exact result lies, and whether at an end of it (`Represents`). Shifting keeps that
meaning, so the mantissa that is rounded in the end is off by half a unit at most
(`Represents.roundedMantissa`).

So a product and a quotient are a multiple of a power of two next to the exact result, and the
power is small enough: the exact result has 53 digits in front of it, unless it is the least
power there is (`RoundsTo`, `mul_finite`, `div_finite`).
-/

import Mathlib.Algebra.Order.Field.Power
import Mathlib.Tactic.FieldSimp
import Mathlib.Tactic.Linarith
import Mathlib.Tactic.NormNum
import Mathlib.Tactic.Positivity
import Mathlib.Tactic.Ring
import MultiSegmentWell.Proofs.Number.Differences

namespace MultiSegmentWell
namespace Double

open Float.Model (Format UnpackedFloat totalExponent)
open Float.Model.UnpackedFloat

section Mantissas

/-- The exact number for which a mantissa and the two bits behind it stand. -/
def Represents (x : ExtendedMantissa) (y : ℚ) : Prop :=
  if x.stickyBit then
    x.mantissa + (x.roundBit.toNat : ℚ) / 2 < y ∧
      y < x.mantissa + (x.roundBit.toNat : ℚ) / 2 + 1 / 2
  else y = x.mantissa + (x.roundBit.toNat : ℚ) / 2

variable {x : ExtendedMantissa} {y : ℚ} {k : Nat}

/-- A mantissa without anything behind it represents itself. -/
theorem represents_exact (m : Nat) : Represents (.ofMantissaAndAccuracy m .exact) m := by
  simp [Represents, ExtendedMantissa.ofMantissaAndAccuracy]

/-- A quotient of naturals is represented by its integer part and the remainder. -/
theorem represents_fraction (n : Nat) {d : Nat} (hd : 0 < d) :
    Represents (.ofMantissaAndAccuracy (n / d) (accuracyOfFraction (n % d) d)) (n / d) := by
  have hdq : (0 : ℚ) < d := by exact_mod_cast hd
  have hsum : (n : ℚ) / d = (n / d : Nat) + ((n % d : Nat) : ℚ) / d := by
    rw [div_eq_iff hdq.ne', add_mul, div_mul_cancel₀ _ hdq.ne']
    exact_mod_cast (Nat.div_add_mod' n d).symm
  have hlt : ((n % d : Nat) : ℚ) / d < 1 := by
    rw [div_lt_one hdq]
    exact_mod_cast Nat.mod_lt n hd
  have hhalf : ((n % d : Nat) : ℚ) / d < 1 / 2 ↔ 2 * (n % d) < d := by
    rw [div_lt_div_iff₀ hdq two_pos, one_mul, mul_comm]
    exact_mod_cast Iff.rfl
  have hhalf' : 1 / 2 < ((n % d : Nat) : ℚ) / d ↔ d < 2 * (n % d) := by
    rw [div_lt_div_iff₀ two_pos hdq, one_mul, mul_comm]
    exact_mod_cast Iff.rfl
  rw [hsum]
  unfold accuracyOfFraction
  split_ifs with hzero
  · simp [Represents, ExtendedMantissa.ofMantissaAndAccuracy, hzero]
  · have hpos : (0 : ℚ) < ((n % d : Nat) : ℚ) / d :=
      div_pos (by exact_mod_cast Nat.pos_of_ne_zero hzero) hdq
    generalize ((n % d : Nat) : ℚ) / d = f at hhalf hhalf' hpos hlt
    rcases Nat.lt_trichotomy (2 * (n % d)) d with h | h | h
    · have hf := hhalf.2 h
      rw [Nat.compare_eq_lt.2 h]
      simp only [Represents, ExtendedMantissa.ofMantissaAndAccuracy, if_true, Bool.toNat_false]
      constructor <;> push_cast <;> linarith
    · have hf : f = 1 / 2 :=
        le_antisymm (not_lt.1 (mt hhalf'.1 h.not_gt)) (not_lt.1 (mt hhalf.1 h.not_lt))
      rw [Nat.compare_eq_eq.2 h, hf]
      simp [Represents, ExtendedMantissa.ofMantissaAndAccuracy]
    · have hf := hhalf'.2 h
      rw [Nat.compare_eq_gt.2 h]
      simp only [Represents, ExtendedMantissa.ofMantissaAndAccuracy, if_true, Bool.toNat_true]
      constructor <;> push_cast <;> linarith

/-- A mantissa is not above what it represents with the bits behind it. -/
theorem Represents.mantissa_le (h : Represents x y) : (x.mantissa : ℚ) ≤ y := by
  have hbit : (0 : ℚ) ≤ (x.roundBit.toNat : ℚ) / 2 := by positivity
  unfold Represents at h
  split_ifs at h <;> linarith

/-- The bit that is shifted out becomes the round bit. -/
theorem Represents.shiftRightOne (h : Represents x y) : Represents x.shiftRightOne (y / 2) := by
  obtain ⟨m, roundBit, stickyBit⟩ := x
  have hsum : (m : ℚ) = 2 * (m / 2 : Nat) + (m % 2 : Nat) := by
    exact_mod_cast (Nat.div_add_mod m 2).symm
  have hbit : ((m % 2 != 0).toNat : ℚ) = (m % 2 : Nat) := by
    rcases Nat.mod_two_eq_zero_or_one m with hm | hm <;> simp [hm]
  unfold Represents ExtendedMantissa.shiftRightOne at *
  dsimp only at *
  rw [hbit]
  cases roundBit <;> cases stickyBit <;>
    simp only [Bool.or_false, Bool.or_true, Bool.false_eq_true, if_true, if_false, Bool.toNat_false,
      Bool.toNat_true, Nat.cast_zero, Nat.cast_one] at h ⊢
  · linarith
  all_goals constructor <;> linarith

/-- **Shifting keeps what is represented**, divided by the power of two. -/
theorem Represents.shiftRight (h : Represents x y) (k : Nat) :
    Represents (x >>> k) (y / 2 ^ k) := by
  induction k with
  | zero =>
    rw [pow_zero, div_one]
    exact h
  | succ k ih =>
    rw [pow_succ, ← div_div]
    exact ih.shiftRightOne

/-- **The rounded mantissa is off by half a unit at most.** -/
theorem Represents.roundedMantissa (h : Represents x y) :
    |(x.roundedMantissa : ℚ) - y| ≤ 1 / 2 := by
  obtain ⟨m, roundBit, stickyBit⟩ := x
  rw [abs_le]
  cases roundBit <;> cases stickyBit <;>
    simp only [Represents, Bool.false_eq_true, if_true, if_false, Bool.toNat_false, Bool.toNat_true,
      Nat.cast_zero, Nat.cast_one] at h <;>
    simp only [ExtendedMantissa.roundedMantissa, ExtendedMantissa.accuracy,
      Accuracy.roundToNearestEven]
  · constructor <;> linarith
  · constructor <;> linarith
  · rcases Nat.mod_two_eq_zero_or_one m with hm | hm <;> rw [hm] <;> push_cast <;>
      constructor <;> linarith
  · push_cast
    constructor <;> linarith

/-- Rounding adds one at most. -/
theorem roundedMantissa_le (x : ExtendedMantissa) : x.roundedMantissa ≤ x.mantissa + 1 := by
  obtain ⟨m, roundBit, stickyBit⟩ := x
  have hmod : m % 2 < 2 := Nat.mod_lt m two_pos
  cases roundBit <;> cases stickyBit <;>
    simp only [ExtendedMantissa.roundedMantissa, ExtendedMantissa.accuracy,
      Accuracy.roundToNearestEven] <;> omega

end Mantissas

section Rationals

/-- A sign as a factor. -/
def factor : Sign → ℚ
  | .positive => 1
  | .negative => -1

/-- What an unpacked finite double stands for. -/
def toRat : UnpackedFloat → ℚ
  | .finite s m e _ => factor s * (m * 2 ^ e)
  | _ => 0

/-- Signs are multiplied as their factors are. -/
theorem factor_mul (s₁ s₂ : Sign) : factor (s₁ * s₂) = factor s₁ * factor s₂ := by
  cases s₁ <;> cases s₂
  · show (1 : ℚ) = -1 * -1
    norm_num
  · show (-1 : ℚ) = -1 * 1
    norm_num
  · show (-1 : ℚ) = 1 * -1
    norm_num
  · show (1 : ℚ) = 1 * 1
    norm_num

/-- Signs are divided as their factors are. -/
theorem factor_div (s₁ s₂ : Sign) : factor (s₁ / s₂) = factor s₁ / factor s₂ := by
  have hinv : (factor s₂)⁻¹ = factor s₂ := by cases s₂ <;> norm_num [factor]
  rw [div_eq_mul_inv, hinv, ← factor_mul]
  cases s₁ <;> cases s₂ <;> rfl

/-- A sign does not change the absolute value. -/
theorem abs_factor_mul (s : Sign) (v : ℚ) : |factor s * v| = |v| := by
  cases s <;> norm_num [factor]

/-- A multiple of a power of two next to a number. The number has 53 digits in front of it,
unless it is the least power there is. -/
def RoundsTo (v x : ℚ) : Prop :=
  ∃ t N : Int, x = N * 2 ^ t ∧ |x - v| ≤ 2 ^ t / 2 ∧ -1074 ≤ t ∧ (t = -1074 ∨ 2 ^ 52 * 2 ^ t ≤ |v|)

/-- Rounding does not look at the sign. -/
theorem RoundsTo.factor_mul {v x : ℚ} (h : RoundsTo v x) (s : Sign) :
    RoundsTo (factor s * v) (factor s * x) := by
  obtain ⟨t, N, hx, hnear, hle, hfull⟩ := h
  refine ⟨t, s.apply N, ?_, ?_, hle, ?_⟩
  · rw [hx]
    cases s <;> simp [factor, Sign.apply]
  · rwa [← mul_sub, abs_factor_mul]
  · rwa [abs_factor_mul]

/-- **A number is rounded at the power of two of its mantissa.** -/
theorem Represents.roundsTo {x : ExtendedMantissa} {z : ℚ} {t : Int} (h : Represents x z)
    (ht : -1074 ≤ t) (hfull : t = -1074 ∨ 2 ^ 52 ≤ x.mantissa) :
    RoundsTo (z * 2 ^ t) (x.roundedMantissa * 2 ^ t) := by
  have hnear := h.roundedMantissa
  refine ⟨t, x.roundedMantissa, by rw [Int.cast_natCast], ?_, ht, hfull.imp id fun hdigits => ?_⟩
  · rw [← sub_mul, abs_mul, abs_of_pos (zpow_pos two_pos t : (0 : ℚ) < _)]
    calc |(x.roundedMantissa : ℚ) - z| * 2 ^ t ≤ 1 / 2 * 2 ^ t := by gcongr
      _ = 2 ^ t / 2 := by ring
  · have hle : (2 : ℚ) ^ 52 ≤ z := le_trans (by exact_mod_cast hdigits) h.mantissa_le
    refine le_trans ?_ (le_abs_self _)
    gcongr

end Rationals

section Shifting

variable {m : Nat} {e : Int}

/-- The exponent that leaves 53 digits, or the least one. -/
theorem targetExponent_eq (m : Nat) (e : Int) :
    Format.binary64.targetExponent (totalExponent m e)
      = max ((m.log2 : Int) + 1 + e - 53) (-1074) :=
  rfl

/-- A mantissa is shifted until it has 53 digits at most, and exactly 53 of them above the least
exponent. -/
theorem shiftRight_bounds {k : Nat}
    (hk : (k : Int) = max ((m.log2 : Int) + 1 + e - 53) (-1074) - e) :
    m / 2 ^ k < 2 ^ 53 ∧ (e + k = -1074 ∨ 2 ^ 52 ≤ m / 2 ^ k) := by
  have hpow : 0 < 2 ^ k := Nat.two_pow_pos k
  constructor
  · refine Nat.div_lt_of_lt_mul ?_
    rw [← Nat.pow_add]
    exact Nat.lt_of_lt_of_le Nat.lt_log2_self (Nat.pow_le_pow_right two_pos (by omega))
  · rcases Int.le_total ((m.log2 : Int) + 1 + e - 53) (-1074) with hmin | hmax
    · exact .inl (by omega)
    · refine .inr ?_
      have hlog : m.log2 = 52 + k := by omega
      have hm : m ≠ 0 := by
        rintro rfl
        rw [Nat.log2_zero] at hlog
        omega
      rw [Nat.le_div_iff_mul_le hpow, ← Nat.pow_add, ← hlog]
      exact Nat.log2_self_le hm

/-- The second shift changes nothing but a mantissa that was rounded up to 54 digits. -/
theorem shiftToTargetExponent_rounded (hm : m ≤ 2 ^ 53) (he : -1074 ≤ e)
    (hfull : e = -1074 ∨ 2 ^ 52 ≤ m) {m' : ExtendedMantissa} {e' : Int}
    (h : shiftToTargetExponent Format.binary64 m e .exact = (m', e')) :
    (m'.mantissa : ℚ) * 2 ^ e' = m * 2 ^ e ∧ m'.mantissa < 2 ^ 53 ∧ -1074 ≤ e' ∧
      (e' = -1074 ∨ 2 ^ 52 ≤ m'.mantissa) := by
  rw [shiftToTargetExponent, shiftToExponent, targetExponent_eq] at h
  obtain ⟨rfl, rfl⟩ := Prod.ext_iff.1 h.symm
  rw [mantissa_shiftRight, mantissa_ofMantissaAndAccuracy]
  rcases Nat.lt_or_eq_of_le hm with hlt | rfl
  · have hlog : m.log2 ≤ 52 := by
      rcases Nat.eq_zero_or_pos m with rfl | hpos
      · rw [Nat.log2_zero]
        omega
      · exact Nat.le_of_lt_succ ((Nat.log2_lt hpos.ne').2 hlt)
    have hshift : (max ((m.log2 : Int) + 1 + e - 53) (-1074) - e).toNat = 0 := by omega
    rw [hshift, pow_zero, Nat.div_one, Int.natCast_zero, Int.add_zero]
    exact ⟨rfl, hlt, he, hfull⟩
  · have hshift : (max (((2 ^ 53).log2 : Int) + 1 + e - 53) (-1074) - e).toNat = 1 := by
      rw [Nat.log2_two_pow]
      omega
    rw [hshift, pow_one, Int.natCast_one, zpow_add₀ two_ne_zero, zpow_one]
    refine ⟨?_, by norm_num, by omega, .inr (by norm_num)⟩
    push_cast
    ring

/-- **Rounding gives a multiple of a fine enough power of two next to the exact number.** -/
theorem roundWithAccuracy_roundsTo (s : Sign) {a : Accuracy} {y : ℚ}
    (hy : Represents (.ofMantissaAndAccuracy m a) y)
    (he : e ≤ Format.binary64.targetExponent (totalExponent m e)) :
    (roundWithAccuracy Format.binary64 s m e a).isFinite = true ∧
      Canonical (roundWithAccuracy Format.binary64 s m e a) ∧
      RoundsTo (factor s * (y * 2 ^ e)) (toRat (roundWithAccuracy Format.binary64 s m e a)) := by
  obtain ⟨k, hk⟩ : ∃ k : Nat, (k : Int) = max ((m.log2 : Int) + 1 + e - 53) (-1074) - e :=
    ⟨(max ((m.log2 : Int) + 1 + e - 53) (-1074) - e).toNat, by rw [targetExponent_eq] at he; omega⟩
  obtain ⟨hlt, hfull⟩ := shiftRight_bounds hk
  have hfirst : shiftToTargetExponent Format.binary64 m e a =
      (ExtendedMantissa.ofMantissaAndAccuracy m a >>> k, e + k) := by
    rw [shiftToTargetExponent, shiftToExponent, targetExponent_eq, ← hk, Int.toNat_natCast]
  have hmantissa : (ExtendedMantissa.ofMantissaAndAccuracy m a >>> k).mantissa = m / 2 ^ k := by
    rw [mantissa_shiftRight, mantissa_ofMantissaAndAccuracy]
  have hrep := hy.shiftRight k
  unfold roundWithAccuracy
  rw [hfirst]
  dsimp only
  generalize ExtendedMantissa.ofMantissaAndAccuracy m a >>> k = x at hmantissa hrep ⊢
  have hup := mantissa_le_roundedMantissa x
  have hdown := roundedMantissa_le x
  obtain ⟨⟨m', e'⟩, hsecond⟩ : ∃ second,
      second = shiftToTargetExponent Format.binary64 x.roundedMantissa (e + k) .exact :=
    ⟨_, rfl⟩
  obtain ⟨hvalue, hlt', hle', hfull'⟩ := shiftToTargetExponent_rounded (by omega) (by omega)
    (hfull.imp id fun h => by omega) hsecond.symm
  rw [← hsecond]
  dsimp only
  have hshifted : y / 2 ^ k * (2 : ℚ) ^ (e + k) = y * 2 ^ e := by
    rw [zpow_add₀ two_ne_zero, zpow_natCast]
    field_simp
  -- The power of two is that of the first shift.
  have hround : RoundsTo (y * 2 ^ e) (m'.mantissa * 2 ^ e') := by
    rw [hvalue, ← hshifted]
    exact hrep.roundsTo (by omega) (by rwa [hmantissa])
  split_ifs with hzero
  · refine ⟨rfl, trivial, ?_⟩
    rw [hzero, Nat.cast_zero, zero_mul] at hround
    simpa [toRat] using hround.factor_mul s
  · exact ⟨rfl, ⟨hlt', hle', hfull'⟩, hround.factor_mul s⟩

end Shifting

section Results

variable {x y : UnpackedFloat}

/-- Zero is not rounded. -/
theorem roundsTo_zero : RoundsTo 0 0 := by
  refine ⟨-1074, 0, by simp, ?_, le_rfl, .inl rfl⟩
  rw [sub_self, abs_zero]
  positivity

/-- Two canonical mantissas have a product of 53 digits, unless both exponents are the least. -/
theorem add_le_targetExponent {m₁ m₂ : Nat} {e₁ e₂ : Int} (hm₁ : 0 < m₁) (hm₂ : 0 < m₂)
    (h₁ : e₁ = -1074 ∨ 2 ^ 52 ≤ m₁) (h₂ : e₂ = -1074 ∨ 2 ^ 52 ≤ m₂) :
    e₁ + e₂ ≤ Format.binary64.targetExponent (totalExponent (m₁ * m₂) (e₁ + e₂)) := by
  have hlog : 2 ^ 52 ≤ m₁ * m₂ → 52 ≤ (m₁ * m₂).log2 :=
    (Nat.le_log2 (Nat.mul_pos hm₁ hm₂).ne').2
  rw [targetExponent_eq]
  rcases h₁ with rfl | h₁
  · rcases h₂ with rfl | h₂
    · omega
    · have hdigits := hlog (Nat.le_trans h₂ (Nat.le_mul_of_pos_left m₂ hm₁))
      omega
  · have hdigits := hlog (Nat.le_trans h₁ (Nat.le_mul_of_pos_right m₁ hm₂))
    omega

/-- **A product of finite doubles is rounded to nearest.** -/
theorem mul_finite (hx : Canonical x) (hy : Canonical y) (hfx : x.isFinite = true)
    (hfy : y.isFinite = true) :
    (mul Format.binary64 x y).isFinite = true ∧ Canonical (mul Format.binary64 x y) ∧
      RoundsTo (toRat x * toRat y) (toRat (mul Format.binary64 x y)) := by
  cases x with
  | notANumber => cases hfx
  | infinity s₁ => cases hfx
  | zero s₁ =>
    cases y with
    | notANumber => cases hfy
    | infinity s₂ => cases hfy
    | zero s₂ => exact ⟨rfl, trivial, by simpa [toRat, mul] using roundsTo_zero⟩
    | finite s₂ m₂ e₂ hm₂ => exact ⟨rfl, trivial, by simpa [toRat, mul] using roundsTo_zero⟩
  | finite s₁ m₁ e₁ hm₁ =>
    cases y with
    | notANumber => cases hfy
    | infinity s₂ => cases hfy
    | zero s₂ => exact ⟨rfl, trivial, by simpa [toRat, mul] using roundsTo_zero⟩
    | finite s₂ m₂ e₂ hm₂ =>
      have hexact : toRat (.finite s₁ m₁ e₁ hm₁) * toRat (.finite s₂ m₂ e₂ hm₂)
          = factor (s₁ * s₂) * ((m₁ * m₂ : Nat) * 2 ^ (e₁ + e₂)) := by
        rw [factor_mul, zpow_add₀ two_ne_zero]
        simp only [toRat]
        push_cast
        ring
      rw [hexact]
      exact roundWithAccuracy_roundsTo (s₁ * s₂) (represents_exact (m₁ * m₂))
        (add_le_targetExponent hm₁ hm₂ hx.2.2 hy.2.2)

/-- A quotient is computed with 53 digits at least, unless its exponent is below the least one. -/
theorem divCore_le_targetExponent {m₁ m₂ : Nat} {e₁ e₂ e : Int} (hm₁ : 0 < m₁) (hm₂ : 0 < m₂)
    (he : e = min (e₁ - e₂) (max ((m₁.log2 : Int) + 1 + e₁ - (m₂.log2 + 1 + e₂) - 53) (-1074))) :
    e ≤ Format.binary64.targetExponent
      (totalExponent (m₁ <<< (e₁ - e₂ - e).toNat / m₂) e) := by
  rw [targetExponent_eq]
  rcases le_or_gt e (-1074) with hleast | hmore
  · omega
  · obtain ⟨k, hk⟩ : ∃ k : Nat, (k : Int) = e₁ - e₂ - e := ⟨(e₁ - e₂ - e).toNat, by omega⟩
    rw [← hk, Int.toNat_natCast, Nat.shiftLeft_eq]
    have hdigits : 53 + m₂.log2 ≤ m₁.log2 + k := by omega
    have hlow : 2 ^ 52 ≤ m₁ * 2 ^ k / m₂ := by
      rw [Nat.le_div_iff_mul_le hm₂]
      calc 2 ^ 52 * m₂ ≤ 2 ^ 52 * 2 ^ (m₂.log2 + 1) := Nat.mul_le_mul_left _ Nat.lt_log2_self.le
        _ = 2 ^ (53 + m₂.log2) := by rw [← Nat.pow_add]; congr 1; omega
        _ ≤ 2 ^ (m₁.log2 + k) := Nat.pow_le_pow_right two_pos hdigits
        _ = 2 ^ m₁.log2 * 2 ^ k := Nat.pow_add ..
        _ ≤ m₁ * 2 ^ k := Nat.mul_le_mul_right _ (Nat.log2_self_le hm₁.ne')
    have hlog : 52 ≤ (m₁ * 2 ^ k / m₂).log2 := (Nat.le_log2 (by omega)).2 hlow
    omega

/-- **A quotient of finite doubles is rounded to nearest**, if the divisor is not zero. -/
theorem div_finite (hfx : x.isFinite = true) (hfy : y.isFinite = true) (hne : toRat y ≠ 0) :
    (div Format.binary64 x y).isFinite = true ∧ Canonical (div Format.binary64 x y) ∧
      RoundsTo (toRat x / toRat y) (toRat (div Format.binary64 x y)) := by
  cases y with
  | notANumber => cases hfy
  | infinity s₂ => cases hfy
  | zero s₂ => exact absurd rfl hne
  | finite s₂ m₂ e₂ hm₂ =>
    cases x with
    | notANumber => cases hfx
    | infinity s₁ => cases hfx
    | zero s₁ => exact ⟨rfl, trivial, by simpa [toRat, div] using roundsTo_zero⟩
    | finite s₁ m₁ e₁ hm₁ =>
      obtain ⟨e, he⟩ : ∃ e, e = min (e₁ - e₂) (Format.binary64.targetExponent
          (totalExponent m₁ e₁ - totalExponent m₂ e₂)) := ⟨_, rfl⟩
      have hdiv : div Format.binary64 (.finite s₁ m₁ e₁ hm₁) (.finite s₂ m₂ e₂ hm₂) =
          roundWithAccuracy Format.binary64 (s₁ / s₂) (m₁ <<< (e₁ - e₂ - e).toNat / m₂) e
            (accuracyOfFraction (m₁ <<< (e₁ - e₂ - e).toNat % m₂) m₂) := by
        rw [he]
        rfl
      have hexact : toRat (.finite s₁ m₁ e₁ hm₁) / toRat (.finite s₂ m₂ e₂ hm₂) = factor (s₁ / s₂) *
          (((m₁ <<< (e₁ - e₂ - e).toNat : Nat) : ℚ) / (m₂ : ℚ) * 2 ^ e) := by
        obtain ⟨k, hk⟩ : ∃ k : Nat, (k : Int) = e₁ - e₂ - e := ⟨(e₁ - e₂ - e).toNat, by omega⟩
        have hpow : (2 : ℚ) ^ k * 2 ^ e * 2 ^ e₂ = 2 ^ e₁ := by
          rw [← zpow_natCast, ← zpow_add₀ two_ne_zero, ← zpow_add₀ two_ne_zero]
          congr 1
          omega
        rw [← hk, Int.toNat_natCast, Nat.shiftLeft_eq, factor_div]
        simp only [toRat]
        rw [mul_div_mul_comm, ← hpow]
        push_cast
        field_simp
      rw [hdiv, hexact]
      exact roundWithAccuracy_roundsTo (s₁ / s₂) (represents_fraction _ hm₂)
        (divCore_le_targetExponent hm₁ hm₂ he)

end Results

end Double
end MultiSegmentWell
