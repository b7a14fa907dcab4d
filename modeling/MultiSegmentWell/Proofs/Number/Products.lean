/-
# Products and quotients among the doubles

A finite double is a rational number of 53 digits (`value`, `Representable`), and finite doubles
compare as these numbers do (`compare_eq_toRat`). Rounding keeps the order: a double that is not
below the exact result is not below the rounded one (`RoundsTo.le`, `RoundsTo.ge`), also where
that one is packed as an infinity (`Rounded.le`, `Rounded.ge`).

A result that is neither tiny nor too large is off by one part in `2 ^ 53` of the exact one
(`RoundsTo.error_le`), and no double is closer than that to another (`gap_le`). So a quotient that
is multiplied with its divisor again gives the dividend or one of the two doubles next to it
(`neighbours_mul_div`).
-/

import MultiSegmentWell.Proofs.Number.Rounding

namespace MultiSegmentWell
namespace Double

open Float.Model (Format UnpackedFloat totalExponent)
open Float.Model.UnpackedFloat

section Digits

/-- A number of 53 binary digits. -/
def Representable (w : ℚ) : Prop := ∃ k e : Int, w = k * 2 ^ e ∧ |k| < 2 ^ 53 ∧ -1074 ≤ e

variable {v w x : ℚ}

/-- What 53 digits can hold, they hold with the other sign. -/
theorem Representable.neg (h : Representable w) : Representable (-w) := by
  obtain ⟨k, e, rfl, hk, he⟩ := h
  exact ⟨-k, e, by push_cast; ring, by rwa [abs_neg], he⟩

/-- Rounding does not look at the sign. -/
theorem RoundsTo.neg (h : RoundsTo v x) : RoundsTo (-v) (-x) := by
  simpa [factor] using h.factor_mul .negative

/-- Multiples of one power of two are apart by that power. -/
theorem zpow_le_sub {t M N : Int} (h : (M : ℚ) * 2 ^ t < N * 2 ^ t) :
    (2 : ℚ) ^ t ≤ N * 2 ^ t - M * 2 ^ t := by
  have hpos : (0 : ℚ) < 2 ^ t := by positivity
  have hlt : (M : ℚ) < N := lt_of_mul_lt_mul_right h hpos.le
  have hone : (M : ℚ) + 1 ≤ N := by exact_mod_cast hlt
  nlinarith

/-- A power of two is a multiple of every smaller one. -/
theorem exists_mul_zpow (k : Int) {e t : Int} (h : t ≤ e) :
    ∃ M : Int, (k : ℚ) * 2 ^ e = M * 2 ^ t := by
  refine ⟨k * 2 ^ (e - t).toNat, ?_⟩
  rw [Int.cast_mul, mul_assoc]
  congr 1
  push_cast
  rw [← zpow_natCast, ← zpow_add₀ two_ne_zero]
  congr 1
  omega

/-- A double has fewer digits in front of a larger power of two. -/
theorem abs_mul_zpow_le {k e t : Int} (hk : |k| < 2 ^ 53) (h : e < t) :
    |(k : ℚ) * 2 ^ e| ≤ (2 ^ 53 - 1) * (2 ^ t / 2) := by
  have hkq : |(k : ℚ)| ≤ 2 ^ 53 - 1 := by
    have hint : |k| ≤ 2 ^ 53 - 1 := by omega
    exact_mod_cast hint
  rw [abs_mul, abs_of_pos (by positivity : (0 : ℚ) < 2 ^ e)]
  calc |(k : ℚ)| * 2 ^ e ≤ (2 ^ 53 - 1) * 2 ^ (t - 1) := by
        gcongr
        · norm_num
        · omega
    _ = (2 ^ 53 - 1) * (2 ^ t / 2) := by
        rw [zpow_sub₀ two_ne_zero, zpow_one]

/-- **Rounding stops at a double**: what is not above it before is not above it after. -/
theorem RoundsTo.le (h : RoundsTo v x) (hw : Representable w) (hv : v ≤ w) : x ≤ w := by
  obtain ⟨t, N, rfl, hnear, ht, hfull⟩ := h
  obtain ⟨k, e, rfl, hk, he⟩ := hw
  have hpos : (0 : ℚ) < 2 ^ t := by positivity
  have hnear' := (abs_le.1 hnear).2
  by_contra! hlt
  -- A multiple of the power below the result is below the exact number, too.
  have hno : ∀ M : Int, (M : ℚ) * 2 ^ t < N * 2 ^ t → ¬ v ≤ M * 2 ^ t := by
    intro M hM hvM
    have hapart := zpow_le_sub hM
    linarith
  rcases le_or_gt t e with hte | het
  · obtain ⟨M, hM⟩ := exists_mul_zpow k hte
    rw [hM] at hlt hv
    exact hno M hlt hv
  · have hsmall : |(k : ℚ) * 2 ^ e| < 2 ^ 52 * 2 ^ t := by
      have hle := abs_mul_zpow_le hk het
      linarith
    have hfull' := hfull.resolve_left (by omega)
    have hlow := (abs_lt.1 hsmall).1
    -- So the number is negative and of more digits than the double.
    have hneg : v ≤ -(2 ^ 52 * 2 ^ t) := by
      rcases abs_choice v with habs | habs <;> rw [habs] at hfull'
      · have hhigh := (abs_lt.1 hsmall).2
        linarith
      · linarith
    refine hno (-2 ^ 52) ?_ ?_ <;> push_cast <;> linarith

/-- A double that is not above the exact result is not above the rounded one. -/
theorem RoundsTo.ge (h : RoundsTo v x) (hw : Representable w) (hv : w ≤ v) : w ≤ x :=
  neg_le_neg_iff.1 (h.neg.le hw.neg (neg_le_neg hv))

/-- Zero is rounded to zero. -/
theorem RoundsTo.eq_zero (h : RoundsTo 0 x) : x = 0 := by
  have hzero : Representable 0 := ⟨0, 0, by simp, by norm_num, by norm_num⟩
  exact le_antisymm (h.le hzero le_rfl) (h.ge hzero le_rfl)

/-- **The relative error of rounding**, above the least normal double. -/
theorem RoundsTo.error_le (h : RoundsTo v x) (hv : 2 ^ (-1022 : Int) ≤ |v|) :
    |x - v| ≤ |v| * 2 ^ (-53 : Int) := by
  obtain ⟨t, N, rfl, hnear, ht, hfull⟩ := h
  refine hnear.trans ?_
  rcases hfull with rfl | hfull
  · calc (2 : ℚ) ^ (-1074 : Int) / 2 = 2 ^ (-1022 : Int) * 2 ^ (-53 : Int) := by
          rw [← zpow_add₀ two_ne_zero, div_eq_iff two_ne_zero, ← zpow_add_one₀ two_ne_zero]
          norm_num
      _ ≤ |v| * 2 ^ (-53 : Int) := by gcongr
  · calc (2 : ℚ) ^ t / 2 = 2 ^ 52 * 2 ^ t * 2 ^ (-53 : Int) := by
          norm_num
          ring
      _ ≤ |v| * 2 ^ (-53 : Int) := by gcongr

/-- **Doubles keep a distance.** -/
theorem gap_le {k e : Int} (hk : |k| < 2 ^ 53) (hfull : e = -1074 ∨ 2 ^ 52 ≤ |k|)
    (hw : Representable w) (hne : w ≠ k * 2 ^ e) :
    |(k : ℚ) * 2 ^ e| * 2 ^ (-53 : Int) ≤ |(k : ℚ) * 2 ^ e - w| := by
  obtain ⟨l, f, rfl, hl, hf⟩ := hw
  have hpos : (0 : ℚ) < 2 ^ e := by positivity
  have habs : |(k : ℚ) * 2 ^ e| = |(k : ℚ)| * 2 ^ e := by rw [abs_mul, abs_of_pos hpos]
  have hquot : (2 : ℚ) ^ (-53 : Int) = 1 / 2 ^ 53 := by norm_num
  rw [habs, hquot]
  rcases le_or_gt e f with hef | hfe
  · -- Both are multiples of one power.
    obtain ⟨M, hM⟩ := exists_mul_zpow l hef
    rw [hM] at hne ⊢
    have hapart : (2 : ℚ) ^ e ≤ |(k : ℚ) * 2 ^ e - M * 2 ^ e| := by
      rcases lt_or_gt_of_ne hne with h | h
      · exact (zpow_le_sub h).trans (le_abs_self _)
      · rw [abs_sub_comm]
        exact (zpow_le_sub h).trans (le_abs_self _)
    have hkq : |(k : ℚ)| ≤ 2 ^ 53 := by exact_mod_cast hk.le
    refine le_trans ?_ hapart
    calc |(k : ℚ)| * 2 ^ e * (1 / 2 ^ 53) ≤ 2 ^ 53 * 2 ^ e * (1 / 2 ^ 53) := by gcongr
      _ = 2 ^ e := by ring
  · -- The other one has fewer digits in front of its last place.
    have hk52 : (2 : ℚ) ^ 52 ≤ |(k : ℚ)| := by
      exact_mod_cast hfull.resolve_left (by omega)
    have hsmall := abs_mul_zpow_le hl hfe
    have htriangle := abs_sub_abs_le_abs_sub ((k : ℚ) * 2 ^ e) (l * 2 ^ f)
    rw [habs] at htriangle
    nlinarith

end Digits

section Packing

/-- What is left of a magnitude when it is packed: one that is too large becomes infinite. -/
def clamp : UnpackedFloat → UnpackedFloat
  | .finite s m e h => if 971 < e then .infinity s else .finite s m e h
  | x => x

/-- A double that is packed from its fields unpacks as a zero, a subnormal or a normal number, as
the exponent field says. -/
theorem unpack_packComponents (s : Sign) (e : BitVec Format.binary64.exponentBits)
    (m : BitVec Format.binary64.mantissaBitsWithoutImplicit) (he : e ≠ -1#_) :
    unpack Format.binary64 (packComponents Format.binary64 s e m) =
      if e = 0#_ then
        if h : m = 0#_ then .zero s
        else .finite s m.toNat (-1074) (by simpa [BitVec.toNat_pos, BitVec.pos_iff_ne_zero])
      else .finite s (1#1 ++ m).toNat (e.toNat - 1075) (by simp [toNat_leading_append]) := by
  have hbias : Format.binary64.exponentBias = 1023 := rfl
  unfold unpack
  simp only [unpackMantissa_packComponents, unpackExponent_packComponents,
    ofBitVec_unpackSign_packComponents, hbias, if_neg he]
  split_ifs with hzero
  · rfl
  · rw [UnpackedFloat.finite.injEq, hzero]
    exact ⟨rfl, rfl, rfl⟩
  · rw [UnpackedFloat.finite.injEq]
    exact ⟨rfl, rfl, by omega⟩

/-- **Packing loses nothing of a canonical magnitude**, unless it is too large. -/
theorem unpack_pack {x : UnpackedFloat} (hx : Canonical x) :
    unpack Format.binary64 (pack Format.binary64 x) = clamp x := by
  cases x with
  | notANumber => rfl
  | infinity s => cases s <;> rfl
  | zero s => cases s <;> rfl
  | finite s m e hm =>
    obtain ⟨hlt, hle, hfull⟩ := hx
    have hbias : Format.binary64.exponentBias = 1023 := rfl
    unfold pack
    dsimp only
    rw [hbias, clamp]
    by_cases hlarge : 971 < e
    · rw [if_pos (by omega), if_pos hlarge]
      cases s <;> rfl
    · rw [if_neg (by omega), if_neg hlarge]
      by_cases hnormal : 2 ^ 52 ≤ m
      · have hlog : m.log2 = 52 := (Nat.log2_eq_iff hm.ne').2 ⟨hnormal, hlt⟩
        have htoNat : (BitVec.ofNat 11 (e + (1023 : Nat) + (52 : Nat)).toNat).toNat
            = (e + (1023 : Nat) + (52 : Nat)).toNat := by
          rw [BitVec.toNat_ofNat, Nat.mod_eq_of_lt (by omega)]
        obtain ⟨hnumber, hzero⟩ :=
          @exponentField_ne (e + (1023 : Nat) + (52 : Nat)).toNat (by omega) (by omega)
        rw [if_pos (by rw [hlog]; rfl), unpack_packComponents _ _ _ hnumber, if_neg hzero,
          UnpackedFloat.finite.injEq, htoNat, toNat_leading_append, BitVec.toNat_ofNat]
        exact ⟨rfl, by omega, by omega⟩
      · have hlog : m.log2 < 52 := (Nat.log2_lt hm.ne').2 (by omega)
        have hbits : ¬ m.log2 + 1 = Format.binary64.mantissaBits := fun h => by
          have h' : m.log2 + 1 = 53 := h
          omega
        rw [if_neg hbits, unpack_packComponents _ _ _ (by decide), if_pos rfl,
          dif_neg (mantissaField_ne hm (by omega)), UnpackedFloat.finite.injEq, BitVec.toNat_ofNat]
        exact ⟨rfl, Nat.mod_eq_of_lt (show m < 2 ^ 52 by omega), by omega⟩

end Packing

section Comparing

variable {x y : UnpackedFloat}

/-- With a power of two in common, integers compare as they do without. -/
theorem compare_mul_zpow (M N t : Int) :
    compare ((M : ℚ) * 2 ^ t) (N * 2 ^ t) = compare (M - N) 0 := by
  have hpos : (0 : ℚ) < 2 ^ t := by positivity
  rcases Int.lt_trichotomy M N with h | rfl | h
  · have hq : (M : ℚ) < N := by exact_mod_cast h
    rw [Int.compare_eq_lt.2 (by omega), compare_lt_iff_lt]
    exact mul_lt_mul_of_pos_right hq hpos
  · rw [Int.sub_self, compare_eq_iff_eq.2 rfl]
    rfl
  · have hq : (N : ℚ) < M := by exact_mod_cast h
    rw [Int.compare_eq_gt.2 (by omega), compare_gt_iff_gt]
    exact mul_lt_mul_of_pos_right hq hpos

/-- A magnitude at a smaller exponent. -/
theorem apply_mul_zpow (s : Sign) (m : Nat) {e t : Int} (h : t ≤ e) :
    ((s.apply (m <<< (e - t).toNat : Nat) : Int) : ℚ) * 2 ^ t = factor s * (m * 2 ^ e) := by
  have hpow : (2 : ℚ) ^ (e - t).toNat * 2 ^ t = 2 ^ e := by
    rw [← zpow_natCast, ← zpow_add₀ two_ne_zero]
    congr 1
    omega
  rw [Nat.shiftLeft_eq, ← hpow]
  cases s <;> simp only [Sign.apply, factor] <;> push_cast <;> ring

/-- A finite number without a sign is above zero. -/
theorem toRat_finite_pos (m : Nat) (e : Int) (hm : 0 < m) :
    0 < toRat (.finite .positive m e hm) := by
  have hmq : (0 : ℚ) < m := by exact_mod_cast hm
  simp only [toRat, factor, one_mul]
  positivity

/-- A finite number with a sign is below zero. -/
theorem toRat_finite_neg (m : Nat) (e : Int) (hm : 0 < m) :
    toRat (.finite .negative m e hm) < 0 := by
  have h := toRat_finite_pos m e hm
  simp only [toRat, factor, one_mul] at h ⊢
  linarith

/-- **Finite doubles compare as the numbers do.** -/
theorem compare_eq_toRat (hx : Canonical x) (hy : Canonical y) (hfx : x.isFinite = true)
    (hfy : y.isFinite = true) : x.compare y = some (compare (toRat x) (toRat y)) := by
  cases x with
  | notANumber => cases hfx
  | infinity s₁ => cases hfx
  | zero s₁ =>
    cases y with
    | notANumber => cases hfy
    | infinity s₂ => cases hfy
    | zero s₂ => rfl
    | finite s₂ m₂ e₂ hm₂ =>
      cases s₂ with
      | positive => exact congrArg some (compare_lt_iff_lt.2 (toRat_finite_pos m₂ e₂ hm₂)).symm
      | negative => exact congrArg some (compare_gt_iff_gt.2 (toRat_finite_neg m₂ e₂ hm₂)).symm
  | finite s₁ m₁ e₁ hm₁ =>
    cases y with
    | notANumber => cases hfy
    | infinity s₂ => cases hfy
    | zero s₂ =>
      cases s₁ with
      | positive => exact congrArg some (compare_gt_iff_gt.2 (toRat_finite_pos m₁ e₁ hm₁)).symm
      | negative => exact congrArg some (compare_lt_iff_lt.2 (toRat_finite_neg m₁ e₁ hm₁)).symm
    | finite s₂ m₂ e₂ hm₂ =>
      rw [← compare_apply_sub hm₁ hm₂ hx hy, ← compare_mul_zpow _ _ (min e₁ e₂),
        apply_mul_zpow s₁ m₁ (min_le_left e₁ e₂), apply_mul_zpow s₂ m₂ (min_le_right e₁ e₂)]
      rfl

/-- Both zeros compare alike. -/
theorem compare_zero (x : UnpackedFloat) (s : Sign) : x.compare (.zero s) = direction x := by
  cases x with
  | infinity s₁ | finite s₁ => cases s₁ <;> rfl
  | _ => rfl

/-- Nothing is above infinity. -/
theorem compare_infinity_ne_lt (x : UnpackedFloat) :
    UnpackedFloat.compare (.infinity .positive) x ≠ some .lt := by
  intro h
  cases x with
  | infinity s => cases s <;> cases h
  | _ => cases h

/-- Nothing lies below negative infinity. -/
theorem compare_ne_lt_infinity (x : UnpackedFloat) :
    x.compare (.infinity .negative) ≠ some .lt := by
  intro h
  cases x with
  | infinity s | finite s => cases s <;> cases h
  | _ => cases h

/-- A magnitude that becomes infinite is beyond every other one already before. -/
theorem compare_clamp (hy : clamp y = y) (hfx : x.isFinite = true) (hfy : y.isFinite = true) :
    (clamp x).compare y = x.compare y := by
  cases x with
  | notANumber => cases hfx
  | infinity s => cases hfx
  | zero s => rfl
  | finite s₁ m₁ e₁ hm₁ =>
    rw [clamp]
    split_ifs with hlarge
    · cases y with
      | notANumber => cases hfy
      | infinity s => cases hfy
      | zero s₂ => cases s₁ <;> rfl
      | finite s₂ m₂ e₂ hm₂ =>
        have hsmall : e₂ ≤ 971 := by
          rw [clamp] at hy
          split_ifs at hy with h
          exact not_lt.1 h
        have hexponents : compare e₁ e₂ = .gt := Int.compare_eq_gt.2 (by omega)
        cases s₁ <;> cases s₂ <;> simp [UnpackedFloat.compare, hexponents]
    · rfl

/-- What is unpacked was small enough to be packed. -/
theorem clamp_unpack (b : BitVec Format.binary64.numBits) :
    clamp (unpack Format.binary64 b) = unpack Format.binary64 b := by
  have hbias : Format.binary64.exponentBias = 1023 := rfl
  have hlt : (unpackExponent b).toNat < 2 ^ 11 := (unpackExponent b).isLt
  unfold unpack
  dsimp only
  rw [hbias]
  split_ifs with hfull hinfinite hzero hnone
  · rfl
  · rfl
  · rfl
  · exact if_neg (by rw [hzero]; decide)
  · have hne : (unpackExponent b).toNat ≠ 2047 := fun h => hfull (BitVec.eq_of_toNat_eq h)
    exact if_neg (by omega)

/-- Where two doubles are equal and one of them is not zero, they are the same. -/
theorem eq_of_compare_eq (h : x.compare y = some .eq) (hy : direction y = some .gt) : x = y := by
  cases y with
  | notANumber => cases hy
  | zero s => cases hy
  | infinity s₂ =>
    cases s₂ with
    | negative => cases hy
    | positive =>
      cases x with
      | infinity s₁ =>
        cases s₁ with
        | negative => cases h
        | positive => rfl
      | _ => cases h
  | finite s₂ m₂ e₂ hm₂ =>
    cases s₂ with
    | negative => cases hy
    | positive =>
      cases x with
      | notANumber => cases h
      | zero s₁ => cases h
      | infinity s₁ => cases s₁ <;> cases h
      | finite s₁ m₁ e₁ hm₁ =>
        cases s₁ with
        | negative => cases h
        | positive =>
          have hthen : (compare e₁ e₂).then (compare m₁ m₂) = .eq := Option.some.inj h
          obtain ⟨he, hm⟩ := Ordering.then_eq_eq.1 hthen
          obtain rfl := Int.compare_eq_eq.1 he
          obtain rfl := Nat.compare_eq_eq.1 hm
          rfl

end Comparing

section Doubles

/-- The rational number for which a finite double stands. -/
def value (x : Float) : ℚ := toRat x.toModel.unpack

/-- A positive finite double stands for its mantissa times a power of two. -/
theorem value_of_unpack {x : Float} {m : Nat} {e : Int} {hm : 0 < m}
    (hx : x.toModel.unpack = .finite .positive m e hm) : value x = m * 2 ^ e := by
  rw [value, hx, toRat, factor, one_mul]

/-- A double that an exact result was rounded to, if it is not too large. -/
def Rounded (x : Float) (v : ℚ) : Prop :=
  ∃ X, x.toModel.unpack = clamp X ∧ X.isFinite = true ∧ Canonical X ∧ RoundsTo v (toRat X)

variable {a b d r w x y : Float} {v : ℚ}

/-- Doubles unpack in canonical form. -/
theorem canonical_toModel (x : Float) : Canonical x.toModel.unpack :=
  canonical_unpack x.toModel.toBits.toBitVec

/-- What `≤` says of two doubles, in terms of the unpacked ones. -/
theorem le_iff_compare :
    a ≤ b ↔ (a.toModel.unpack.compare b.toModel.unpack).any (·.isLE) = true := by
  show decide (a.toModel ≤ b.toModel) = true ↔ _
  rw [decide_eq_true_iff]
  rfl

/-- Comparing doubles is comparing numbers. -/
theorem compare_eq_value (hx : x.isFinite = true) (hy : y.isFinite = true) :
    x.toModel.unpack.compare y.toModel.unpack = some (compare (value x) (value y)) :=
  compare_eq_toRat (canonical_toModel x) (canonical_toModel y) hx hy

/-- A comparison of rationals is not greater exactly if `≤` holds. -/
theorem any_isLE_compare {p q : ℚ} : (some (compare p q)).any (·.isLE) = true ↔ p ≤ q := by
  rw [Option.any_some, Ordering.isLE_iff_ne_gt]
  exact compare_le_iff_le

/-- Less and not greater the other way round exclude each other. -/
theorem not_le_of_lt (h : a < b) : ¬ b ≤ a := by
  rw [lt_iff_compare] at h
  rw [le_iff_compare, compare_swap, h]
  decide

/-- **Finite doubles are ordered as their values are.** -/
theorem lt_iff_value (hx : x.isFinite = true) (hy : y.isFinite = true) :
    x < y ↔ value x < value y := by
  rw [lt_iff_compare, compare_eq_value hx hy, Option.some.injEq, compare_lt_iff_lt]

/-- Finite doubles are ordered as their values are, ends included. -/
theorem le_iff_value (hx : x.isFinite = true) (hy : y.isFinite = true) :
    x ≤ y ↔ value x ≤ value y := by
  rw [le_iff_compare, compare_eq_value hx hy, any_isLE_compare]

/-- Finite doubles are the same to `==` exactly if their values are, so both zeros are. -/
theorem beq_iff_value (hx : x.isFinite = true) (hy : y.isFinite = true) :
    (x == y) = true ↔ value x = value y := by
  show (x.toModel.unpack.compare y.toModel.unpack == some .eq) = true ↔ _
  rw [beq_iff_eq, compare_eq_value hx hy, Option.some.injEq, compare_eq_iff_eq]

/-- A finite double has 53 digits. -/
theorem exists_digits (x : Float) : ∃ k e : Int, value x = k * 2 ^ e ∧ |k| < 2 ^ 53 ∧ -1074 ≤ e ∧
    (e = -1074 ∨ 2 ^ 52 ≤ |k|) := by
  have hcanonical := canonical_toModel x
  unfold value
  generalize x.toModel.unpack = X at hcanonical ⊢
  cases X with
  | finite s m e hm =>
    obtain ⟨hlt, hle, hfull⟩ := hcanonical
    have habs : |s.apply m| = m := by
      cases s <;> simp only [Sign.apply, abs_neg, Nat.abs_cast]
    refine ⟨s.apply m, e, ?_, by omega, hle, hfull.imp id fun h => by omega⟩
    cases s <;> simp [toRat, factor, Sign.apply]
  | _ => exact ⟨0, -1074, by simp [toRat], by norm_num, le_rfl, .inl rfl⟩

/-- The value of a double has 53 digits. -/
theorem representable_value (x : Float) : Representable (value x) := by
  obtain ⟨k, e, hx, hk, he, -⟩ := exists_digits x
  exact ⟨k, e, hx, hk, he⟩

/-- A rounded result compares with a finite double as some rounding of the exact one does, also
where it has become infinite. -/
theorem Rounded.exists_compare (h : Rounded x v) (hw : w.isFinite = true) :
    ∃ u, RoundsTo v u ∧ x.toModel.unpack.compare w.toModel.unpack = some (compare u (value w)) := by
  obtain ⟨X, hX, hfinite, hcanonical, hround⟩ := h
  have hclamp : (clamp X).compare w.toModel.unpack = X.compare w.toModel.unpack :=
    compare_clamp (clamp_unpack w.toModel.toBits.toBitVec) hfinite hw
  refine ⟨toRat X, hround, ?_⟩
  rw [hX, hclamp]
  exact compare_eq_toRat hcanonical (canonical_toModel w) hfinite hw

/-- **A finite double bounds a rounded result** from above if it bounds the exact one. -/
theorem Rounded.le (h : Rounded x v) (hw : w.isFinite = true) (hv : v ≤ value w) : x ≤ w := by
  obtain ⟨u, hround, hcompare⟩ := h.exists_compare hw
  rw [le_iff_compare, hcompare, any_isLE_compare]
  exact hround.le (representable_value w) hv

/-- **A finite double bounds a rounded result** from below if it bounds the exact one. -/
theorem Rounded.ge (h : Rounded x v) (hw : w.isFinite = true) (hv : value w ≤ v) : w ≤ x := by
  obtain ⟨u, hround, hcompare⟩ := h.exists_compare hw
  have hswap : (compare u (value w)).swap = compare (value w) u :=
    Std.OrientedCmp.eq_swap.symm
  rw [le_iff_compare, compare_swap, hcompare, Option.map_some, hswap, any_isLE_compare]
  exact hround.ge (representable_value w) hv

/-- A rounded result that stays finite stands for a number next to the exact one. -/
theorem Rounded.roundsTo (h : Rounded x v) (hx : x.isFinite = true) : RoundsTo v (value x) := by
  obtain ⟨X, hX, hfinite, -, hround⟩ := h
  have hsame : clamp X = X := by
    have hclamp : (clamp X).isFinite = true := hX ▸ hx
    cases X with
    | finite s m e hm =>
      rw [clamp] at hclamp ⊢
      split_ifs at hclamp ⊢
      · cases hclamp
      · rfl
    | _ => rfl
  rwa [value, hX, hsame]

/-- A product is the rounded product of the values. -/
theorem rounded_mul (ha : a.isFinite = true) (hb : b.isFinite = true) :
    Rounded (a * b) (value a * value b) := by
  obtain ⟨hfinite, hcanonical, hround⟩ :=
    mul_finite (canonical_toModel a) (canonical_toModel b) ha hb
  exact ⟨_, unpack_pack hcanonical, hfinite, hcanonical, hround⟩

/-- A quotient is the rounded quotient of the values. -/
theorem rounded_div (ha : a.isFinite = true) (hb : b.isFinite = true) (hne : value b ≠ 0) :
    Rounded (a / b) (value a / value b) := by
  obtain ⟨hfinite, hcanonical, hround⟩ := div_finite ha hb hne
  exact ⟨_, unpack_pack hcanonical, hfinite, hcanonical, hround⟩

/-- Doubles that unpack to the same are the same. -/
theorem eq_of_unpack_eq (h : x.toModel.unpack = y.toModel.unpack) : x = y := by
  rw [← Float.ofBits_toBits x, ← Float.ofBits_toBits y]
  exact congrArg (fun X => Float.ofModel (Float.Model.pack X)) h

/-- What is above zero points upwards. -/
theorem direction_of_pos (h : x > 0.0) : direction x.toModel.unpack = some .gt := by
  have hswap : direction x.toModel.unpack
      = ((0.0 : Float).toModel.unpack.compare x.toModel.unpack).map Ordering.swap :=
    compare_swap _ _
  rw [hswap, lt_iff_compare.1 h]
  rfl

/-- Zero has the value zero. -/
theorem value_zero : value 0.0 = 0 := rfl

/-- A finite double is above zero exactly if its value is. -/
theorem pos_iff_value (hx : x.isFinite = true) : x > 0.0 ↔ 0 < value x := by
  rw [gt_iff_lt, lt_iff_value rfl hx, value_zero]

/-- Positive doubles are the same if neither is less. -/
theorem eq_of_le_of_not_lt (hy : y > 0.0) (hle : x ≤ y) (hlt : ¬ x < y) : x = y := by
  have hdirection := direction_of_pos hy
  rw [le_iff_compare] at hle
  rw [lt_iff_compare] at hlt
  refine eq_of_unpack_eq (eq_of_compare_eq ?_ hdirection)
  cases hcompare : x.toModel.unpack.compare y.toModel.unpack with
  | none =>
    rw [hcompare] at hle
    cases hle
  | some o =>
    rw [hcompare] at hle hlt
    cases o with
    | lt => exact absurd rfl hlt
    | eq => rfl
    | gt => cases hle

/-- What lies between two doubles is finite. -/
theorem isFinite_of_between (ha : a < w) (hb : w < b) : w.isFinite = true := by
  rw [lt_iff_compare] at ha hb
  show w.toModel.unpack.isFinite = true
  generalize w.toModel.unpack = W at ha hb
  cases W with
  | notANumber => cases hb
  | infinity s =>
    cases s with
    | positive => exact absurd hb (compare_infinity_ne_lt _)
    | negative => exact absurd ha (compare_ne_lt_infinity _)
  | _ => rfl

/-- A bound that a quotient exceeds is exceeded by the exact quotient. -/
theorem mul_lt_of_lt_div (hr : r.isFinite = true) (hd : d.isFinite = true) (hw : w.isFinite = true)
    (hpos : 0 < value d) (h : w < r / d) : value d * value w < value r := by
  rw [mul_comm, ← lt_div_iff₀ hpos]
  exact not_le.1 fun hle => not_le_of_lt h ((rounded_div hr hd hpos.ne').le hw hle)

/-- **A bound that a quotient exceeds** gives the dividend at most, when it is multiplied with the
divisor. -/
theorem mul_le_of_lt_div (hr : r.isFinite = true) (hd : d.isFinite = true) (hw : w.isFinite = true)
    (hpos : 0 < value d) (h : w < r / d) : d * w ≤ r :=
  (rounded_mul hd hw).le hr (mul_lt_of_lt_div hr hd hw hpos h).le

/-- A positive double is finite or infinite. -/
theorem isFinite_or_infinity_of_pos (hd : d > 0.0) :
    d.isFinite = true ∨ d.toModel.unpack = .infinity .positive := by
  have hdirection := direction_of_pos hd
  change d.toModel.unpack.isFinite = true ∨ _
  generalize d.toModel.unpack = D at hdirection ⊢
  cases D with
  | notANumber => cases hdirection
  | infinity s =>
    cases s with
    | positive => exact .inr rfl
    | negative => cases hdirection
  | _ => exact .inl rfl

/-- What is divided by an infinity is zero. -/
theorem unpack_div_infinity (hr : r.isFinite = true) (hd : d.toModel.unpack = .infinity .positive) :
    ∃ s, (r / d).toModel.unpack = .zero s := by
  have hquotient : (r / d).toModel.unpack = unpack Format.binary64
      (pack Format.binary64 (div Format.binary64 r.toModel.unpack d.toModel.unpack)) := rfl
  rw [hd] at hquotient
  change r.toModel.unpack.isFinite = true at hr
  generalize r.toModel.unpack = R at hr hquotient
  cases R with
  | notANumber => cases hr
  | infinity s => cases hr
  | _ => exact ⟨_, hquotient.trans (unpack_pack trivial)⟩

/-- A quotient above zero has a finite divisor. -/
theorem isFinite_of_lt_div (hr : r.isFinite = true) (hd : d > 0.0) (hw : w > 0.0)
    (h : w < r / d) : d.isFinite = true := by
  refine (isFinite_or_infinity_of_pos hd).resolve_right fun hinfinite => ?_
  obtain ⟨s, hs⟩ := unpack_div_infinity hr hinfinite
  rw [lt_iff_compare, hs, compare_zero, direction_of_pos hw] at h
  cases h

/-- **A finite double divided by a positive one is a number**, though perhaps an infinite one. -/
theorem isNaN_div (hr : r.isFinite = true) (hd : d > 0.0) : (r / d).isNaN = false := by
  rw [← Bool.not_eq_true]
  intro hnan
  have hnone : (r / d).toModel.unpack.compare (0.0 : Float).toModel.unpack = none :=
    compare_eq_none_iff.2 (.inl hnan)
  rcases isFinite_or_infinity_of_pos hd with hfinite | hinfinite
  · have hrounded := rounded_div hr hfinite ((pos_iff_value hfinite).1 hd).ne'
    obtain ⟨u, -, hcompare⟩ := hrounded.exists_compare (w := 0.0) rfl
    rw [hcompare] at hnone
    cases hnone
  · obtain ⟨s, hs⟩ := unpack_div_infinity hr hinfinite
    rw [hs] at hnone
    cases s <;> cases hnone

/-- Of two numbers one is not above the other. -/
theorem le_of_not_lt (ha : a.isNaN = false) (hb : b.isNaN = false) (h : ¬ b < a) : a ≤ b := by
  rw [lt_iff_compare, compare_swap] at h
  rw [le_iff_compare]
  cases hcompare : a.toModel.unpack.compare b.toModel.unpack with
  | none =>
    rcases compare_eq_none_iff.1 hcompare with hnan | hnan
    · exact absurd (ha.symm.trans hnan) Bool.false_ne_true
    · exact absurd (hb.symm.trans hnan) Bool.false_ne_true
  | some o =>
    rw [hcompare] at h
    cases o with
    | gt => exact absurd rfl h
    | _ => rfl

/-- The least positive double with 53 digits. -/
def leastNormal : Float := 2.2250738585072014e-308

/-- The least normal number is a power of two. -/
theorem value_leastNormal : value leastNormal = 2 ^ (-1022 : Int) := by
  have hbits : leastNormal = Float.ofBits 0x0010000000000000 := by decide +kernel
  have hunpack : (Float.ofBits 0x0010000000000000).toModel.unpack =
      .finite .positive (2 ^ 52) (-1074) (by decide) := rfl
  rw [hbits, value_of_unpack hunpack, Nat.cast_pow, Nat.cast_ofNat, ← zpow_natCast,
    ← zpow_add₀ two_ne_zero]
  rfl

/-- The least normal number is finite. -/
theorem isFinite_leastNormal : leastNormal.isFinite = true := by decide +kernel

/-- Changing the sign of a double changes that of the unpacked one. -/
theorem unpack_neg (x : Float) : (-x).toModel.unpack = x.toModel.unpack.neg := by
  have hcanonical := canonical_toModel x
  have hclamp : clamp x.toModel.unpack = x.toModel.unpack := clamp_unpack x.toModel.toBits.toBitVec
  refine Eq.trans (unpack_pack (x := x.toModel.unpack.neg) ?_) ?_ <;>
    generalize x.toModel.unpack = X at hcanonical hclamp ⊢
  · cases X <;> exact hcanonical
  · cases X with
    | finite s m e hm =>
      rw [clamp] at hclamp
      split_ifs at hclamp with hlarge
      exact if_neg hlarge
    | _ => rfl

/-- The value of a negated double is the negated value. -/
theorem value_neg (x : Float) : value (-x) = -value x := by
  rw [value, value, unpack_neg]
  cases x.toModel.unpack with
  | finite s m e hm =>
    cases s with
    | positive =>
      show (-1 : ℚ) * (m * 2 ^ e) = -(1 * (m * 2 ^ e))
      ring
    | negative =>
      show (1 : ℚ) * (m * 2 ^ e) = -(-1 * (m * 2 ^ e))
      ring
  | _ => exact neg_zero.symm

/-- A negated finite double is finite. -/
theorem isFinite_neg (hx : x.isFinite = true) : (-x).isFinite = true := by
  show (-x).toModel.unpack.isFinite = true
  rw [unpack_neg]
  change x.toModel.unpack.isFinite = true at hx
  generalize x.toModel.unpack = X at hx ⊢
  cases X with
  | notANumber => cases hx
  | infinity s => cases hx
  | _ => rfl

/-- **A quotient that is multiplied with its divisor is off by one part in `2 ^ 53`** before it
is rounded again, unless the quotient is so small that it has lost digits. -/
theorem abs_mul_div_sub_le (hr : r.isFinite = true) (hd : d.isFinite = true) (hpos : 0 < value d)
    (hq : (r / d).isFinite = true)
    (hdigits : value r = 0 ∨ leastNormal < r / d ∨ r / d < -leastNormal) :
    |value d * value (r / d) - value r| ≤ |value r| * 2 ^ (-53 : Int) := by
  have hquotient := rounded_div hr hd hpos.ne'
  have hround := hquotient.roundsTo hq
  have hexact : value d * (value r / value d) = value r := mul_div_cancel₀ _ hpos.ne'
  have hscale : ∀ u : ℚ, |value d * u| = value d * |u| := fun u => by
    rw [abs_mul, abs_of_pos hpos]
  have hquot : |value (r / d) - value r / value d| ≤ |value r / value d| * 2 ^ (-53 : Int) := by
    rcases hdigits with hzero | hlarge | hlarge
    · rw [hzero, zero_div] at hround ⊢
      rw [hround.eq_zero, sub_zero, abs_zero, zero_mul]
    · have hlt : value leastNormal < value r / value d :=
        not_le.1 fun hle => not_le_of_lt hlarge (hquotient.le isFinite_leastNormal hle)
      rw [value_leastNormal] at hlt
      exact hround.error_le (hlt.le.trans (le_abs_self _))
    · have hfinite := isFinite_neg isFinite_leastNormal
      have hlt : value r / value d < value (-leastNormal) :=
        not_le.1 fun hle => not_le_of_lt hlarge (hquotient.ge hfinite hle)
      rw [value_neg, value_leastNormal] at hlt
      exact hround.error_le ((le_neg_of_le_neg hlt.le).trans (neg_le_abs _))
  calc |value d * value (r / d) - value r|
      = value d * |value (r / d) - value r / value d| := by rw [← hscale, mul_sub, hexact]
    _ ≤ value d * (|value r / value d| * 2 ^ (-53 : Int)) := by gcongr
    _ = |value r| * 2 ^ (-53 : Int) := by rw [← mul_assoc, ← hscale, hexact]

/-- Finite doubles keep their distance. -/
theorem gap_le_value (hw : value w ≠ value r) :
    |value r| * 2 ^ (-53 : Int) ≤ |value r - value w| := by
  obtain ⟨k, e, hr, hk, -, hfull⟩ := exists_digits r
  rw [hr] at hw ⊢
  exact gap_le hk hfull (representable_value w) hw

/-- Doubles with no other one between them. -/
def Neighbours (x y : Float) : Prop :=
  (x ≤ y ∨ y ≤ x) ∧ ∀ w, ¬ (x < w ∧ w < y) ∧ ¬ (y < w ∧ w < x)

/-- **A quotient that is multiplied with its divisor is next to the dividend.** -/
theorem neighbours_mul_div (hr : r.isFinite = true) (hd : d.isFinite = true)
    (hpos : 0 < value d) (hq : (r / d).isFinite = true)
    (hdigits : value r = 0 ∨ leastNormal < r / d ∨ r / d < -leastNormal) :
    Neighbours (d * (r / d)) r := by
  have hproduct := rounded_mul hd hq
  have herror := abs_mul_div_sub_le hr hd hpos hq hdigits
  -- The exact product is closer to the dividend than any other double.
  have hgap : ∀ w : Float, value w ≠ value r → |value r| * 2 ^ (-53 : Int) ≤ |value r - value w| :=
    fun w => gap_le_value
  generalize |value r| * 2 ^ (-53 : Int) = ε at herror hgap
  refine ⟨?_, fun w => ⟨?_, ?_⟩⟩
  · rcases le_total (value d * value (r / d)) (value r) with hle | hge
    · exact .inl (hproduct.le hr hle)
    · exact .inr (hproduct.ge hr hge)
  · rintro ⟨hxw, hwr⟩
    have hw := isFinite_of_between hxw hwr
    rw [lt_iff_value hw hr] at hwr
    have habove : value d * value (r / d) < value w :=
      not_le.1 fun hle => not_le_of_lt hxw (hproduct.ge hw hle)
    have hapart := hgap w hwr.ne
    rw [abs_of_pos (sub_pos.2 hwr)] at hapart
    have hclose := (abs_le.1 herror).1
    linarith
  · rintro ⟨hrw, hwx⟩
    have hw := isFinite_of_between hrw hwx
    rw [lt_iff_value hr hw] at hrw
    have hbelow : value w < value d * value (r / d) :=
      not_le.1 fun hle => not_le_of_lt hwx (hproduct.le hw hle)
    have hapart := hgap w hrw.ne'
    rw [abs_sub_comm, abs_of_pos (sub_pos.2 hrw)] at hapart
    have hclose := (abs_le.1 herror).2
    linarith

end Doubles

end Double
end MultiSegmentWell
