/-
# Magnitudes read back

What `nearest` gives for a ratio depends on the ratio alone: the binade is the integer part of
its binary logarithm (`binade_eq_log`), and rounding to a natural number does not see a factor
that numerator and denominator have in common (`nearest_mul_left`). A ratio that is a magnitude
is the magnitude nearest to it (`nearest_ratio`).

So the exact decimal of a finite magnitude reads back to it (`nearest_exact`). The shorter
decimals in front of it are tried for just that, so the shortest one reads back, too
(`nearest_shortest`).
-/

import MultiSegmentWell.Number.Shortest
import Mathlib.Algebra.Order.Field.Power
import Mathlib.Data.Int.Log
import Mathlib.Data.Rat.Floor
import Mathlib.Tactic.FieldSimp
import Mathlib.Tactic.NormNum
import Mathlib.Tactic.Positivity

namespace MultiSegmentWell
namespace Binary64

variable {num den k : Nat}

/-- A power that is not negative goes to the numerator. -/
theorem scaled_of_nonneg (num den base : Nat) (n : Nat) :
    scaled num den base n = (num * base ^ n, den) := by
  rw [scaled, if_pos (Int.natCast_nonneg n), Int.toNat_natCast, Nat.pow_eq]

/-- A negative power goes to the denominator. -/
theorem scaled_neg (num den base : Nat) (n : Nat) :
    scaled num den base (-n) = (num, den * base ^ n) := by
  cases n with
  | zero => simp [scaled]
  | succ n =>
    rw [scaled, if_neg (by omega), Int.neg_neg, Int.toNat_natCast, Nat.pow_eq]

/-- The ratio of two scaled numbers. -/
theorem scaled_div (num den : Nat) {base : Nat} (hbase : 0 < base) (power : Int) :
    ((scaled num den base power).1 : ℚ) / (scaled num den base power).2 =
      num / den * (base : ℚ) ^ power := by
  have hne : (base : ℚ) ≠ 0 := by exact_mod_cast hbase.ne'
  obtain ⟨n, rfl | rfl⟩ := Int.eq_nat_or_neg power
  · rw [scaled_of_nonneg, zpow_natCast]
    push_cast
    ring
  · rw [scaled_neg, zpow_neg, zpow_natCast]
    push_cast
    field_simp

/-- The denominator stays positive. -/
theorem scaled_pos {base : Nat} (hbase : 0 < base) (hden : 0 < den) (power : Int) :
    0 < (scaled num den base power).2 := by
  unfold scaled
  split_ifs
  · exact hden
  · exact Nat.mul_pos hden (Nat.pow_pos hbase)

/-- A common factor is kept. -/
theorem scaled_mul_left (k num den base : Nat) (power : Int) :
    scaled (k * num) (k * den) base power =
      (k * (scaled num den base power).1, k * (scaled num den base power).2) := by
  unfold scaled
  split_ifs <;> simp [Nat.mul_assoc]

/-- The logarithms of numerator and denominator leave two binades for a ratio. -/
theorem log_bounds (hnum : 0 < num) (hden : 0 < den) :
    (num.log2 : Int) - den.log2 - 1 ≤ Int.log 2 ((num : ℚ) / den) ∧
      Int.log 2 ((num : ℚ) / den) < (num.log2 : Int) - den.log2 + 1 := by
  have hdenq : (0 : ℚ) < den := by exact_mod_cast hden
  have hratio : (0 : ℚ) < (num : ℚ) / den := div_pos (by exact_mod_cast hnum) hdenq
  have hnum₁ : (2 : ℚ) ^ num.log2 ≤ num := by exact_mod_cast Nat.log2_self_le hnum.ne'
  have hnum₂ : (num : ℚ) < 2 ^ (num.log2 + 1) := by exact_mod_cast Nat.lt_log2_self
  have hden₁ : (2 : ℚ) ^ den.log2 ≤ den := by exact_mod_cast Nat.log2_self_le hden.ne'
  have hden₂ : (den : ℚ) < 2 ^ (den.log2 + 1) := by exact_mod_cast Nat.lt_log2_self
  have hadd : ∀ (a : Int) (b c : Nat), a + b = c → (2 : ℚ) ^ a * 2 ^ b = 2 ^ c := by
    intro a b c h
    rw [← zpow_natCast, ← zpow_natCast, ← zpow_add₀ two_ne_zero, h]
  rw [← Int.zpow_le_iff_le_log Nat.one_lt_two hratio,
    ← Int.lt_zpow_iff_log_lt Nat.one_lt_two hratio, Nat.cast_ofNat, le_div_iff₀ hdenq, div_lt_iff₀ hdenq]
  constructor
  · calc (2 : ℚ) ^ ((num.log2 : Int) - den.log2 - 1) * den
        ≤ 2 ^ ((num.log2 : Int) - den.log2 - 1) * 2 ^ (den.log2 + 1) := by gcongr
      _ = 2 ^ num.log2 := hadd _ _ _ (by omega)
      _ ≤ num := hnum₁
  · calc (num : ℚ) < 2 ^ (num.log2 + 1) := hnum₂
      _ = 2 ^ ((num.log2 : Int) - den.log2 + 1) * 2 ^ den.log2 := (hadd _ _ _ (by omega)).symm
      _ ≤ 2 ^ ((num.log2 : Int) - den.log2 + 1) * den := by gcongr

/-- **The binade of a ratio** is the integer part of its binary logarithm. -/
theorem binade_eq_log (hnum : 0 < num) (hden : 0 < den) :
    binade num den = Int.log 2 ((num : ℚ) / den) := by
  have hratio : (0 : ℚ) < (num : ℚ) / den :=
    div_pos (by exact_mod_cast hnum) (by exact_mod_cast hden)
  obtain ⟨hfrom, hbelow⟩ := log_bounds hnum hden
  -- The comparison decides between them.
  unfold binade
  dsimp only
  generalize (num.log2 : Int) - den.log2 = e at hfrom hbelow ⊢
  have hdecide : (scaled num den 2 (-e)).2 ≤ (scaled num den 2 (-e)).1 ↔
      e ≤ Int.log 2 ((num : ℚ) / den) := by
    have hpos : (0 : ℚ) < (scaled num den 2 (-e)).2 := by
      exact_mod_cast scaled_pos Nat.two_pos hden _
    rw [← Int.zpow_le_iff_le_log Nat.one_lt_two hratio, ← Nat.cast_le (α := ℚ), ← one_le_div hpos,
      scaled_div num den Nat.two_pos, zpow_neg, ← div_eq_mul_inv, one_le_div (by positivity)]
  split_ifs with h
  · have := hdecide.1 h
    omega
  · have := mt hdecide.2 h
    omega

/-- Rounding does not see a common factor. -/
theorem roundHalfEven_mul_left (hk : 0 < k) (num den : Nat) :
    roundHalfEven (k * num) (k * den) = roundHalfEven num den := by
  have htwice : 2 * (k * (num % den)) = k * (2 * (num % den)) := Nat.mul_left_comm ..
  have hlt : ∀ a b : Nat, k * a < k * b ↔ a < b := fun a b => Nat.mul_lt_mul_left hk
  unfold roundHalfEven
  simp only [Nat.mul_div_mul_left _ _ hk, Nat.mul_mod_mul_left, htwice, hlt]

/-- A whole multiple is not rounded. -/
theorem roundHalfEven_mul_self (hk : 0 < k) (m : Nat) : roundHalfEven (m * k) k = m := by
  rw [roundHalfEven, Nat.mul_div_cancel m hk, Nat.mul_mod_left, Nat.mul_zero]
  exact if_pos hk

/-- **The nearest magnitude does not see a common factor.** -/
theorem nearest_mul_left (hk : 0 < k) (hden : 0 < den) (num : Nat) :
    nearest (k * num) (k * den) = nearest num den := by
  by_cases hnum : num = 0
  · simp [hnum, nearest]
  · have hpos := Nat.pos_of_ne_zero hnum
    have hbinade : binade (k * num) (k * den) = binade num den := by
      have hkq : (k : ℚ) ≠ 0 := by exact_mod_cast hk.ne'
      rw [binade_eq_log (Nat.mul_pos hk hpos) (Nat.mul_pos hk hden), binade_eq_log hpos hden]
      push_cast
      rw [mul_div_mul_left _ _ hkq]
    rw [nearest, if_neg (Nat.mul_ne_zero hk.ne' hnum), nearest, if_neg hnum]
    simp only [hbinade, scaled_mul_left, roundHalfEven_mul_left hk]

section Ratio

variable {bits : Nat}

/-- The bits of a subnormal magnitude are its mantissa. -/
theorem parts_of_lt (h : bits < 2 ^ 52) : mantissa bits = bits ∧ exponent bits = -1074 :=
  ⟨if_pos h, if_pos h⟩

/-- The bits of a normal magnitude hold the mantissa without its leading bit. -/
theorem parts_of_le (h : 2 ^ 52 ≤ bits) : mantissa bits = bits % 2 ^ 52 + 2 ^ 52 ∧
    exponent bits = (bits / 2 ^ 52 : Nat) - 1075 :=
  ⟨if_neg (Nat.not_lt.2 h), if_neg (Nat.not_lt.2 h)⟩

/-- A magnitude is made up of its mantissa and its exponent. -/
theorem exponent_add_mantissa (bits : Nat) :
    (exponent bits + 1074).toNat * 2 ^ 52 + mantissa bits = bits := by
  rcases Nat.lt_or_ge bits (2 ^ 52) with h | h
  · obtain ⟨hm, he⟩ := parts_of_lt h
    omega
  · obtain ⟨hm, he⟩ := parts_of_le h
    omega

/-- Only zero has the mantissa zero. -/
theorem mantissa_pos (hbits : bits ≠ 0) : 0 < mantissa bits := by
  rcases Nat.lt_or_ge bits (2 ^ 52) with h | h
  · obtain ⟨hm, -⟩ := parts_of_lt h
    omega
  · obtain ⟨hm, -⟩ := parts_of_le h
    omega

/-- A mantissa has 53 bits at most. -/
theorem mantissa_lt (bits : Nat) : mantissa bits < 2 ^ 53 := by
  rcases Nat.lt_or_ge bits (2 ^ 52) with h | h
  · obtain ⟨hm, -⟩ := parts_of_lt h
    omega
  · obtain ⟨hm, -⟩ := parts_of_le h
    omega

/-- The exponent is the least one at which the mantissa has no more than 53 digits. -/
theorem max_log2_mantissa (hbits : bits ≠ 0) :
    max (((mantissa bits).log2 : Int) + exponent bits - 52) (-1074) = exponent bits := by
  have hpos := (mantissa_pos hbits).ne'
  rcases Nat.lt_or_ge bits (2 ^ 52) with h | h
  · obtain ⟨hm, he⟩ := parts_of_lt h
    have hlog : (mantissa bits).log2 < 52 := by
      rw [Nat.log2_lt hpos, hm]
      exact h
    omega
  · obtain ⟨hm, he⟩ := parts_of_le h
    have hlog : (mantissa bits).log2 = 52 := by
      rw [Nat.log2_eq_iff hpos, hm]
      omega
    omega

/-- Scaling up and down again is a common factor. -/
theorem scaled_scaled_neg (m base : Nat) (hbase : 0 < base) (power : Int) : ∃ d, 0 < d ∧
    scaled (scaled m 1 base power).1 (scaled m 1 base power).2 base (-power) = (m * d, d) := by
  obtain ⟨n, rfl | rfl⟩ := Int.eq_nat_or_neg power
  · refine ⟨base ^ n, Nat.pow_pos hbase, ?_⟩
    rw [scaled_of_nonneg, scaled_neg, Nat.one_mul]
  · refine ⟨base ^ n, Nat.pow_pos hbase, ?_⟩
    rw [scaled_neg, Int.neg_neg, scaled_of_nonneg, Nat.one_mul]

/-- The binary logarithm of a natural number is that of the rational. -/
theorem log2_eq_log (m : Nat) : (m.log2 : Int) = Int.log 2 (m : ℚ) := by
  rw [Int.log_natCast, Nat.log2_eq_log_two]

/-- A power of two adds its exponent to the logarithm. -/
theorem log_mul_zpow {r : ℚ} (hr : 0 < r) (e : Int) : Int.log 2 (r * 2 ^ e) = Int.log 2 r + e := by
  have hpos : 0 < r * 2 ^ e := by positivity
  have hle : ∀ x : Int, x ≤ Int.log 2 (r * 2 ^ e) ↔ x ≤ Int.log 2 r + e := by
    intro x
    rw [← Int.zpow_le_iff_le_log Nat.one_lt_two hpos, ← sub_le_iff_le_add,
      ← Int.zpow_le_iff_le_log Nat.one_lt_two hr, Nat.cast_ofNat, zpow_sub₀ two_ne_zero,
      div_le_iff₀ (by positivity)]
  exact le_antisymm ((hle _).1 le_rfl) ((hle _).2 le_rfl)

/-- **A finite magnitude is nearest to itself.** -/
theorem nearest_ratio (hfinite : bits < infinity) (hbits : bits ≠ 0) :
    nearest (ratio bits).1 (ratio bits).2 = bits := by
  obtain ⟨d, hd, hback⟩ := scaled_scaled_neg (mantissa bits) 2 Nat.two_pos (exponent bits)
  have hden : 0 < (ratio bits).2 := scaled_pos Nat.two_pos Nat.one_pos _
  have hmantissa : (0 : ℚ) < mantissa bits := by exact_mod_cast mantissa_pos hbits
  have hvalue : ((ratio bits).1 : ℚ) / (ratio bits).2 = mantissa bits * 2 ^ exponent bits := by
    rw [ratio, scaled_div _ _ Nat.two_pos, Nat.cast_one, div_one, Nat.cast_ofNat]
  have hnum : 0 < (ratio bits).1 := by
    refine Nat.pos_of_ne_zero fun hzero => ?_
    rw [hzero, Nat.cast_zero, zero_div] at hvalue
    have : (0 : ℚ) < mantissa bits * 2 ^ exponent bits := by positivity
    exact this.ne hvalue
  have hbinade : max (binade (ratio bits).1 (ratio bits).2 - 52) (-1074) = exponent bits := by
    rw [binade_eq_log hnum hden, hvalue, log_mul_zpow hmantissa, ← log2_eq_log,
      max_log2_mantissa hbits]
  rw [nearest, if_neg hnum.ne']
  simp only [hbinade]
  rw [ratio, hback]
  simp only [roundHalfEven_mul_self hd, Nat.pow_eq, exponent_add_mantissa]
  exact Nat.min_eq_right hfinite.le

/-- A natural number of at most 52 binary digits is far below infinity. -/
theorem nearest_one_lt {n : Nat} (h : n < 2 ^ 52) : nearest n 1 < infinity := by
  have hinfinity : infinity = 2047 * 2 ^ 52 := rfl
  unfold nearest
  split_ifs with hzero
  · omega
  · have hlog : n.log2 < 52 := (Nat.log2_lt hzero).2 h
    have hbinade : binade n 1 = n.log2 := by
      rw [binade_eq_log (Nat.pos_of_ne_zero hzero) Nat.one_pos, Nat.cast_one, div_one, log2_eq_log]
    obtain ⟨k, hk⟩ : ∃ k, n.log2 + k = 52 := ⟨52 - n.log2, by omega⟩
    have hq : max ((n.log2 : Int) - 52) (-1074) = -(k : Int) := by omega
    have hround : roundHalfEven (n * 2 ^ k) 1 = n * 2 ^ k := by
      simpa using roundHalfEven_mul_self Nat.one_pos (n * 2 ^ k)
    have hlt : n * 2 ^ k < 2 ^ 53 :=
      calc n * 2 ^ k < 2 ^ (n.log2 + 1) * 2 ^ k :=
            Nat.mul_lt_mul_of_pos_right Nat.lt_log2_self (Nat.two_pow_pos k)
        _ = 2 ^ 53 := by rw [← Nat.pow_add, Nat.add_right_comm, hk]
    simp only [hbinade, hq, Int.neg_neg, scaled_of_nonneg, hround, Nat.pow_eq]
    refine Nat.lt_of_le_of_lt (Nat.min_le_right _ _) ?_
    have hexponent : (-(k : Int) + 1074).toNat ≤ 1074 := by omega
    have := Nat.mul_le_mul_right (2 ^ 52) hexponent
    omega

end Ratio

end Binary64

namespace Numeral

variable {digits : Nat}

/-- A number has `k` digits at most exactly if it is below the power of ten. -/
theorem width_le_iff {k : Nat} (hk : 0 < k) : width digits ≤ k ↔ digits < 10 ^ k :=
  Nat.length_toDigits_le_iff (by decide) hk

/-- Every number has a digit. -/
theorem width_pos (digits : Nat) : 0 < width digits := Nat.length_toDigits_pos

/-- Ten times a number has one more digit. -/
theorem width_mul_ten (h : digits ≠ 0) : width (10 * digits) = width digits + 1 := by
  have happend := Nat.toDigits_append_toDigits (b := 10) (n := digits) (d := 0) (by decide)
    (Nat.pos_of_ne_zero h) (by decide)
  rw [Nat.add_zero] at happend
  rw [width, ← happend, List.length_append]
  rfl

/-- Of a numeral that is neither far too large nor far too small the ratio is rounded. -/
theorem nearest_eq {power : Int} (h : digits ≠ 0) (hhigh : width digits + power ≤ 310)
    (hlow : -330 ≤ width digits + power) : nearest digits power =
      Binary64.nearest (Binary64.scaled digits 1 10 power).1
        (Binary64.scaled digits 1 10 power).2 := by
  unfold nearest
  dsimp only
  rw [if_neg h, if_neg (by omega), if_neg (by omega)]

/-- **A zero behind the last digit makes no difference.** -/
theorem nearest_mul_ten (digits : Nat) (power : Int) :
    nearest (10 * digits) (power - 1) = nearest digits power := by
  by_cases h : digits = 0
  · simp [h, nearest]
  · have hne : 10 * digits ≠ 0 := by omega
    have hratio : Binary64.nearest (Binary64.scaled (10 * digits) 1 10 (power - 1)).1
          (Binary64.scaled (10 * digits) 1 10 (power - 1)).2 =
        Binary64.nearest (Binary64.scaled digits 1 10 power).1
          (Binary64.scaled digits 1 10 power).2 := by
      obtain ⟨n, rfl⟩ | ⟨n, rfl⟩ : (∃ n : Nat, power = (n + 1 : Nat)) ∨ ∃ n : Nat, power = -n := by
        rcases lt_or_ge 0 power with hpos | hneg
        · exact .inl ⟨power.toNat - 1, by omega⟩
        · exact .inr ⟨(-power).toNat, by omega⟩
      · rw [show ((n + 1 : Nat) : Int) - 1 = (n : Nat) by omega, Binary64.scaled_of_nonneg,
          Binary64.scaled_of_nonneg, Nat.pow_succ', Nat.mul_left_comm, Nat.mul_assoc]
      · rw [show (-n : Int) - 1 = -((n + 1 : Nat) : Int) by omega, Binary64.scaled_neg,
          Binary64.scaled_neg, Nat.one_mul, Nat.one_mul, Nat.pow_succ',
          Binary64.nearest_mul_left (by decide) (Nat.pow_pos (by decide))]
    have hsize : (width (10 * digits) : Int) + (power - 1) = width digits + power := by
      rw [width_mul_ten h]
      omega
    unfold nearest
    dsimp only
    rw [if_neg h, if_neg hne, hsize, hratio]

/-- Zeros behind the digits and a smaller power denote the same number, so they have the same
nearest magnitude. -/
theorem nearest_mul_pow (digits k : Nat) (power : Int) :
    nearest (digits * 10 ^ k) (power - k) = nearest digits power := by
  induction k with
  | zero => rw [Nat.pow_zero, Nat.mul_one, Int.natCast_zero, Int.sub_zero]
  | succ k ih =>
    rw [Nat.pow_succ', Nat.mul_left_comm,
      show power - ((k + 1 : Nat) : Int) = power - k - 1 by omega, nearest_mul_ten, ih]

end Numeral

namespace Decimal

variable {bits : Nat}

open Binary64 (mantissa exponent ratio scaled)

/-- With an exponent that is not negative a magnitude is a natural number. -/
theorem exact_of_nonneg {n : Nat} (h : exponent bits = n) :
    exact bits = ⟨mantissa bits * 2 ^ n, 0⟩ := by
  rw [exact]
  simp only [h, Int.natCast_nonneg, if_true, Int.toNat_natCast, Nat.pow_eq]

/-- With a negative exponent a magnitude has as many decimals as binary places. -/
theorem exact_of_neg {n : Nat} (h : exponent bits = -n) (hn : 0 < n) :
    exact bits = ⟨mantissa bits * 5 ^ n, -n⟩ := by
  have hneg : ¬ (0 : Int) ≤ -n := by omega
  rw [exact]
  simp only [h, hneg, if_false, Int.neg_neg, Int.toNat_natCast, Nat.pow_eq]

/-- The exponents of finite magnitudes. -/
theorem exponent_bounds (hfinite : bits < Binary64.infinity) :
    -1074 ≤ exponent bits ∧ exponent bits ≤ 971 := by
  have hinfinity : Binary64.infinity = 2047 * 2 ^ 52 := rfl
  rcases Nat.lt_or_ge bits (2 ^ 52) with h | h
  · obtain ⟨-, he⟩ := Binary64.parts_of_lt h
    omega
  · obtain ⟨-, he⟩ := Binary64.parts_of_le h
    omega

/-- Powers of five up to that of the least exponent are not too small. -/
theorem le_width_mul_pow {m n : Nat} (hm : 0 < m) (hn : n ≤ 1074) :
    n ≤ Numeral.width (m * 5 ^ n) + 330 := by
  by_contra hnot
  obtain ⟨j, c, rfl, hc⟩ : ∃ j c, n = j + c ∧ c = 331 := ⟨n - 331, 331, by omega, rfl⟩
  have hwidth : Numeral.width (m * 5 ^ (j + c)) ≤ j := by omega
  have hj : 0 < j := Nat.lt_of_lt_of_le (Numeral.width_pos _) hwidth
  have hsmall : 5 ^ (j + c) < 10 ^ j :=
    Nat.lt_of_le_of_lt (Nat.le_mul_of_pos_left _ hm) ((Numeral.width_le_iff hj).1 hwidth)
  have hpow : 2 ^ (j + c) ≤ 10 ^ c := by
    rw [hc] at hn ⊢
    exact Nat.le_trans (Nat.pow_le_pow_right Nat.two_pos hn) (by decide +kernel)
  have hlt : 10 ^ (j + c) < 10 ^ (j + c) :=
    calc 10 ^ (j + c) = 5 ^ (j + c) * 2 ^ (j + c) := by rw [← Nat.mul_pow]
      _ < 10 ^ j * 2 ^ (j + c) := Nat.mul_lt_mul_of_pos_right hsmall (Nat.two_pow_pos _)
      _ ≤ 10 ^ j * 10 ^ c := Nat.mul_le_mul_left _ hpow
      _ = 10 ^ (j + c) := (Nat.pow_add ..).symm
  exact Nat.lt_irrefl _ hlt

/-- **The exact decimal reads back.** -/
theorem nearest_exact (hfinite : bits < Binary64.infinity) (hbits : bits ≠ 0) :
    Numeral.nearest (exact bits).digits (exact bits).power = bits := by
  have hpos := Binary64.mantissa_pos hbits
  have hlt := Binary64.mantissa_lt bits
  have hratio := Binary64.nearest_ratio hfinite hbits
  obtain ⟨hleast, hgreatest⟩ := exponent_bounds hfinite
  rw [ratio] at hratio
  rcases lt_or_ge (exponent bits) 0 with hneg | hnonneg
  · obtain ⟨n, hn⟩ : ∃ n : Nat, exponent bits = -n := ⟨(-exponent bits).toNat, by omega⟩
    have hlow := le_width_mul_pow (n := n) hpos (by omega)
    have hhigh : Numeral.width (mantissa bits * 5 ^ n) ≤ n + 310 := by
      rw [Numeral.width_le_iff (by omega), Nat.pow_add, Nat.mul_comm]
      refine Nat.mul_lt_mul_of_le_of_lt (Nat.pow_le_pow_left (by decide) n) ?_ (by positivity)
      exact Nat.lt_trans hlt (by decide +kernel)
    rw [hn, Binary64.scaled_neg, Nat.one_mul] at hratio
    rw [exact_of_neg hn (by omega)]
    show Numeral.nearest (mantissa bits * 5 ^ n) (-n) = bits
    rw [Numeral.nearest_eq (by positivity) (by omega) (by omega), Binary64.scaled_neg, Nat.one_mul]
    -- Numerator and denominator have the power of five in common.
    rw [show 10 ^ n = 5 ^ n * 2 ^ n by rw [← Nat.mul_pow], Nat.mul_comm (mantissa bits)]
    exact (Binary64.nearest_mul_left (by positivity) (by positivity) _).trans hratio
  · obtain ⟨n, hn⟩ : ∃ n : Nat, exponent bits = n := ⟨(exponent bits).toNat, by omega⟩
    have hhigh : Numeral.width (mantissa bits * 2 ^ n) ≤ 310 := by
      rw [Numeral.width_le_iff (by decide)]
      calc mantissa bits * 2 ^ n < 2 ^ 53 * 2 ^ n := Nat.mul_lt_mul_of_pos_right hlt (by positivity)
        _ ≤ 2 ^ 53 * 2 ^ 971 := Nat.mul_le_mul_left _ (Nat.pow_le_pow_right Nat.two_pos (by omega))
        _ ≤ 10 ^ 310 := by decide +kernel
    rw [hn, Binary64.scaled_of_nonneg] at hratio
    rw [exact_of_nonneg hn]
    show Numeral.nearest (mantissa bits * 2 ^ n) ((0 : Nat) : Int) = bits
    rw [Numeral.nearest_eq (by positivity) (by omega) (by omega), Binary64.scaled_of_nonneg,
      Nat.pow_zero, Nat.mul_one]
    exact hratio

/-- What is found on a grid reads back. -/
theorem readsBack_of_onGrid {tie : Tie} {power : Int} {d : Decimal}
    (h : onGrid? tie bits power = some d) : readsBack bits d = true := by
  unfold onGrid? at h
  dsimp only at h
  split at h
  · rename_i hbelow habove
    obtain rfl := Option.some.inj h
    split_ifs
    · exact habove
    · exact hbelow
  · rename_i hbelow _
    exact Option.some.inj h ▸ hbelow
  · rename_i habove
    exact Option.some.inj h ▸ habove
  · cases h

/-- What the search finds reads back. -/
theorem readsBack_of_search {tie : Tie} {count : Nat} {power : Int} {d : Decimal}
    (h : search tie bits count power = some d) : readsBack bits d = true := by
  induction count generalizing power with
  | zero => cases h
  | succ count ih =>
    rw [search] at h
    split at h
    · rename_i hfound
      exact readsBack_of_onGrid (Option.some.inj h ▸ hfound)
    · exact ih h

/-- **The shortest decimal reads back.** -/
theorem nearest_shortest (tie : Tie) (hfinite : bits < Binary64.infinity) :
    Numeral.nearest (shortest tie bits).digits (shortest tie bits).power = bits := by
  unfold shortest
  split_ifs with hbits
  · rw [hbits]
    rfl
  · cases hsearch : search tie bits 19 (powerAbove bits) with
    | some d => exact beq_iff_eq.1 (readsBack_of_search hsearch)
    | none => exact nearest_exact hfinite hbits

end Decimal
end MultiSegmentWell
