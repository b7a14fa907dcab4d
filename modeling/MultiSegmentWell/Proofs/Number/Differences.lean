/-
# When a difference of doubles is positive

A double is unpacked as no number, an infinity, a zero or a finite magnitude with a sign.
Its direction is how it compares with zero (`direction`). Subtracting is exact before
rounding, so the mantissa that is rounded has the direction in which the two doubles compare
(`compare_magnitudes`). Rounding keeps the direction, because a positive mantissa at an
exponent from the least one up never becomes zero (`exists_round_eq`), and so does packing,
even where it overflows to infinity (`direction_unpack_pack`).

So a difference is above zero exactly if the subtrahend is less than the minuend, with one
exception: doubles of which one is no number, and the same infinity twice, have no
difference at all (`not_sub_le_zero_iff`).
-/

import Mathlib

namespace MultiSegmentWell
namespace Double

open Float.Model (Format UnpackedFloat totalExponent)
open Float.Model.UnpackedFloat

/-- How an unpacked double compares with zero. -/
def direction (x : UnpackedFloat) : Option Ordering := x.compare (.zero .positive)

/-- The direction of a double with a sign that is not zero. -/
def ofSign : Sign → Ordering
  | .positive => .gt
  | .negative => .lt

/-- An infinity points where its sign says. -/
theorem direction_infinity (s : Sign) : direction (.infinity s) = some (ofSign s) := by
  cases s <;> rfl

/-- A magnitude that is not zero points where its sign says. -/
theorem direction_finite (s : Sign) (m : Nat) (e : Int) (h : 0 < m) :
    direction (.finite s m e h) = some (ofSign s) := by
  cases s <;> rfl

/-- A finite magnitude that can be packed: it has at most 53 bits, at an exponent from the
least one up. -/
def Fits : UnpackedFloat → Prop
  | .finite _ m e _ => m < 2 ^ 53 ∧ -1074 ≤ e
  | _ => True

/-- A finite magnitude as it is unpacked: its leading bit is missing at the least exponent
only. -/
def Canonical : UnpackedFloat → Prop
  | .finite _ m e _ => m < 2 ^ 53 ∧ -1074 ≤ e ∧ (e = -1074 ∨ 2 ^ 52 ≤ m)
  | _ => True

/-- What is unpacked can be packed. -/
theorem Canonical.fits {x : UnpackedFloat} (h : Canonical x) : Fits x := by
  cases x with
  | finite s m e hm => exact ⟨h.1, h.2.1⟩
  | _ => trivial

section Packing

/-- The stored bits of a mantissa behind the leading one. -/
theorem toNat_leading_append (m : BitVec 52) : (1#1 ++ m).toNat = 2 ^ 52 + m.toNat := by
  rw [BitVec.toNat_append, ← Nat.shiftLeft_add_eq_or_of_lt m.isLt]
  rfl

/-- Bits are unpacked in canonical form. -/
theorem canonical_unpack (b : BitVec Format.binary64.numBits) :
    Canonical (unpack Format.binary64 b) := by
  have hbias : Format.binary64.exponentBias = 1023 := rfl
  have hlt : (unpackMantissa b).toNat < 2 ^ 52 := (unpackMantissa b).isLt
  unfold unpack
  dsimp only
  split
  · split <;> trivial
  · split
    · rename_i hzero
      split
      · trivial
      · have hexponent : (unpackExponent b).toNat = 0 := by rw [hzero]; rfl
        refine ⟨by omega, ?_, .inl ?_⟩ <;> omega
    · rename_i hne
      have hexponent : (unpackExponent b).toNat ≠ 0 := fun h => hne (BitVec.eq_of_toNat_eq h)
      rw [Canonical, toNat_leading_append]
      exact ⟨by omega, by omega, .inr (by omega)⟩

/-- Packing keeps the sign. -/
theorem ofBitVec_unpackSign_packComponents {spec : Format} (s : Sign)
    (e : BitVec spec.exponentBits) (m : BitVec spec.mantissaBitsWithoutImplicit) :
    Sign.ofBitVec (unpackSign (packComponents spec s e m)) = s := by
  have hsign : unpackSign (packComponents spec s e m) = s.toBitVec := by
    ext i hi
    have hi0 : i = 0 := by omega
    subst hi0
    simp [unpackSign, packComponents, BitVec.getLsbD_append, BitVec.getElem_append]
  rw [hsign]
  cases s <;> rfl

/-- The direction of a double that is packed from its parts. -/
theorem direction_unpack_packComponents (s : Sign) (e : BitVec Format.binary64.exponentBits)
    (m : BitVec Format.binary64.mantissaBitsWithoutImplicit) :
    direction (unpack Format.binary64 (packComponents Format.binary64 s e m)) =
      if e = -1#_ ∧ m ≠ 0#_ then none
      else if e = 0#_ ∧ m = 0#_ then some .eq else some (ofSign s) := by
  unfold unpack
  simp only [unpackMantissa_packComponents, unpackExponent_packComponents,
    ofBitVec_unpackSign_packComponents]
  split
  · rename_i he
    subst he
    split
    · rename_i hm
      subst hm
      exact direction_infinity s
    · rename_i hm
      rw [if_pos ⟨rfl, hm⟩]
      rfl
  · rename_i he
    have hnumber : ¬ (e = -1#_ ∧ m ≠ 0#_) := fun h => he h.1
    rw [if_neg hnumber]
    split
    · rename_i hzero
      split
      · rename_i hm
        rw [if_pos ⟨hzero, hm⟩]
        rfl
      · rename_i hm
        rw [if_neg fun h => hm h.2, direction_finite]
    · rename_i hzero
      rw [if_neg fun h => hzero h.1, direction_finite]

/-- The exponent field of a normal number is neither that of infinity nor that of zero. -/
theorem exponentField_ne {k : Nat} (hpos : 1 ≤ k) (hlt : k < 2047) :
    BitVec.ofNat 11 k ≠ -1#11 ∧ BitVec.ofNat 11 k ≠ 0#11 := by
  have htoNat : (BitVec.ofNat 11 k).toNat = k := by
    rw [BitVec.toNat_ofNat, Nat.mod_eq_of_lt (by omega)]
  constructor
  · intro h
    rw [h] at htoNat
    change 2047 = k at htoNat
    omega
  · intro h
    rw [h] at htoNat
    change 0 = k at htoNat
    omega

/-- The field of a mantissa without its leading bit is not zero. -/
theorem mantissaField_ne {m : Nat} (hm : 0 < m) (hlt : m < 2 ^ 52) : BitVec.ofNat 52 m ≠ 0#52 := by
  intro h
  have hnat := congrArg BitVec.toNat h
  rw [BitVec.toNat_ofNat, Nat.mod_eq_of_lt hlt] at hnat
  exact Nat.ne_of_gt hm hnat

/-- A packed infinity keeps its sign. -/
theorem direction_unpack_packedInfinity (s : Sign) :
    direction (unpack Format.binary64 (packedInfinity Format.binary64 s)) = some (ofSign s) :=
  direction_unpack_packComponents s (-1#11) 0#52

/-- **Packing keeps the direction**, even where it overflows. -/
theorem direction_unpack_pack {x : UnpackedFloat} (h : Fits x) :
    direction (unpack Format.binary64 (pack Format.binary64 x)) = direction x := by
  cases x with
  | notANumber => exact direction_unpack_packComponents .positive (-1#11) (1#52 <<< 51)
  | infinity s => rw [pack, direction_unpack_packedInfinity, direction_infinity]
  | zero s => exact direction_unpack_packComponents s 0#11 0#52
  | finite s m e hm =>
    obtain ⟨hlt, hle⟩ := h
    have hbias : Format.binary64.exponentBias = 1023 := rfl
    rw [direction_finite]
    unfold pack
    dsimp only
    split
    · exact direction_unpack_packedInfinity s
    · rename_i hsmall
      rw [hbias] at hsmall
      split
      · obtain ⟨hnumber, hzero⟩ :=
          @exponentField_ne (e + (1023 : Nat) + (52 : Nat)).toNat (by omega) (by omega)
        rw [direction_unpack_packComponents, if_neg fun h => hnumber h.1, if_neg fun h => hzero h.1]
      · rename_i hlog
        have hshort : m < 2 ^ 52 := by
          have hlog' : m.log2 ≠ 52 := fun h => hlog (by rw [h]; rfl)
          rw [← Nat.log2_lt (Nat.ne_of_gt hm)] at hlt ⊢
          omega
        have hexponent : (0#11 : BitVec 11) ≠ -1#11 := by decide
        rw [direction_unpack_packComponents, if_neg fun h => hexponent h.1,
          if_neg fun h => mantissaField_ne hm hshort h.2]

end Packing

section Rounding

/-- Shifting halves the mantissa as often as it shifts. -/
theorem mantissa_shiftRight (x : ExtendedMantissa) (k : Nat) :
    (x >>> k).mantissa = x.mantissa / 2 ^ k := by
  induction k with
  | zero => exact (Nat.div_one _).symm
  | succ k ih =>
    show (ExtendedMantissa.shiftRightOne (x >>> k)).mantissa = _
    rw [ExtendedMantissa.shiftRightOne, ih, Nat.div_div_eq_div_mul, Nat.pow_succ]

/-- Rounding never makes a mantissa smaller. -/
theorem mantissa_le_roundedMantissa (x : ExtendedMantissa) : x.mantissa ≤ x.roundedMantissa := by
  obtain ⟨m, roundBit, stickyBit⟩ := x
  cases roundBit <;> cases stickyBit
  · exact Nat.le_refl m
  · exact Nat.le_refl m
  · exact Nat.le_add_right m _
  · exact Nat.le_succ m

/-- Bits behind a mantissa do not change it. -/
theorem mantissa_ofMantissaAndAccuracy (m : Nat) (a : Accuracy) :
    (ExtendedMantissa.ofMantissaAndAccuracy m a).mantissa = m := by
  cases a with
  | exact => rfl
  | inexact o => cases o <;> rfl

/-- **A mantissa that is shifted to its target exponent fits and is not lost**, as long as
the exponent was not below the least one. -/
theorem shiftToTargetExponent_fits {m : Nat} {e : Int} (hm : 0 < m) (he : -1074 ≤ e)
    (a : Accuracy) :
    0 < (shiftToTargetExponent Format.binary64 m e a).1.mantissa ∧
      (shiftToTargetExponent Format.binary64 m e a).1.mantissa < 2 ^ 53 ∧
      -1074 ≤ (shiftToTargetExponent Format.binary64 m e a).2 := by
  have htarget : Format.binary64.targetExponent (totalExponent m e)
      = max ((m.log2 : Int) + 1 + e - 53) (-1074) := rfl
  -- So it is shifted as far as it has more than 53 bits.
  have hshift : (Format.binary64.targetExponent (totalExponent m e) - e).toNat = m.log2 - 52 := by
    rw [htarget]
    omega
  have hmantissa : (shiftToTargetExponent Format.binary64 m e a).1.mantissa
      = m / 2 ^ (m.log2 - 52) := by
    rw [shiftToTargetExponent, shiftToExponent, mantissa_shiftRight,
      mantissa_ofMantissaAndAccuracy, hshift]
  have hlow : 2 ^ (m.log2 - 52) ≤ m :=
    Nat.le_trans (Nat.pow_le_pow_right (by decide) (Nat.sub_le _ _))
      (Nat.log2_self_le (Nat.ne_of_gt hm))
  have hhigh : m < 2 ^ (m.log2 - 52) * 2 ^ 53 := by
    rw [← Nat.pow_add]
    exact Nat.lt_of_lt_of_le Nat.lt_log2_self (Nat.pow_le_pow_right (by decide) (by omega))
  rw [hmantissa]
  refine ⟨Nat.div_pos hlow (Nat.two_pow_pos _), Nat.div_lt_of_lt_mul hhigh, ?_⟩
  show -1074 ≤ e + ((_ : Nat) : Int)
  omega

/-- **Rounding keeps the sign and loses no number**: a positive mantissa at an exponent from
the least one up is rounded to a finite magnitude that fits. -/
theorem exists_round_eq (s : Sign) {m : Nat} {e : Int} (hm : 0 < m) (he : -1074 ≤ e) :
    ∃ m' e' h, UnpackedFloat.round Format.binary64 s m e = .finite s m' e' h ∧
      m' < 2 ^ 53 ∧ -1074 ≤ e' := by
  have htarget : -1074 ≤ Format.binary64.targetExponent (totalExponent m e) :=
    Int.le_max_right _ _
  have hm₁ : 0 < m <<< (e - Format.binary64.targetExponent (totalExponent m e)).toNat := by
    rw [Nat.shiftLeft_eq]
    exact Nat.mul_pos hm (Nat.two_pow_pos _)
  have he₁ : -1074 ≤ e - (e - Format.binary64.targetExponent (totalExponent m e)).toNat := by
    omega
  unfold UnpackedFloat.round decreaseExponent
  dsimp only
  unfold roundWithAccuracy
  dsimp only
  generalize m <<< (e - Format.binary64.targetExponent (totalExponent m e)).toNat = m₁ at hm₁ ⊢
  generalize e - (e - Format.binary64.targetExponent (totalExponent m e)).toNat = e₁ at he₁ ⊢
  obtain ⟨hpos, -, hle⟩ := shiftToTargetExponent_fits hm₁ he₁ .exact
  generalize shiftToTargetExponent Format.binary64 m₁ e₁ .exact = x at hpos hle ⊢
  have hrounded := Nat.lt_of_lt_of_le hpos (mantissa_le_roundedMantissa x.1)
  obtain ⟨hpos', hlt', hle'⟩ := shiftToTargetExponent_fits hrounded hle .exact
  rw [dif_neg (Nat.ne_of_gt hpos')]
  exact ⟨_, _, _, rfl, hlt', hle'⟩

/-- The direction of an exact difference is that of its mantissa. -/
theorem fits_and_direction_normalize (m : Int) {e : Int} (he : -1074 ≤ e) (zeroSign : Sign) :
    Fits (UnpackedFloat.normalize Format.binary64 m e zeroSign) ∧
      direction (UnpackedFloat.normalize Format.binary64 m e zeroSign) = some (compare m 0) := by
  unfold UnpackedFloat.normalize
  split
  · rename_i hlt
    have hm : 0 < (-m).toNat := by
      have := Int.compare_eq_lt.1 hlt
      omega
    obtain ⟨m', e', h, heq, hfits⟩ := exists_round_eq .negative hm he
    rw [heq, hlt]
    exact ⟨hfits, rfl⟩
  · rename_i heq
    rw [heq]
    exact ⟨trivial, rfl⟩
  · rename_i hgt
    have hm : 0 < m.toNat := by
      have := Int.compare_eq_gt.1 hgt
      omega
    obtain ⟨m', e', h, heq, hfits⟩ := exists_round_eq .positive hm he
    rw [heq, hgt]
    exact ⟨hfits, rfl⟩

end Rounding

section Subtracting

variable {m₁ m₂ : Nat} {e₁ e₂ : Int}

/-- A full mantissa is above every other one once it is shifted. -/
theorem lt_shiftLeft {k : Nat} (h₁ : m₁ < 2 ^ 53) (h₂ : 2 ^ 52 ≤ m₂) (hk : 1 ≤ k) :
    m₁ < m₂ <<< k := by
  rw [Nat.shiftLeft_eq]
  have hpow : 2 ^ 1 ≤ 2 ^ k := Nat.pow_le_pow_right (by decide) hk
  have hprod : 2 ^ 52 * 2 ^ 1 ≤ m₂ * 2 ^ k := Nat.mul_le_mul h₂ hpow
  omega

/-- **Magnitudes compare as their mantissas do at the smaller exponent.** -/
theorem compare_magnitudes (h₁ : m₁ < 2 ^ 53 ∧ -1074 ≤ e₁ ∧ (e₁ = -1074 ∨ 2 ^ 52 ≤ m₁))
    (h₂ : m₂ < 2 ^ 53 ∧ -1074 ≤ e₂ ∧ (e₂ = -1074 ∨ 2 ^ 52 ≤ m₂)) :
    (compare e₁ e₂).then (compare m₁ m₂)
      = compare (m₁ <<< (e₁ - min e₁ e₂).toNat) (m₂ <<< (e₂ - min e₁ e₂).toNat) := by
  obtain ⟨hlt₁, hle₁, hfull₁⟩ := h₁
  obtain ⟨hlt₂, hle₂, hfull₂⟩ := h₂
  rcases Int.lt_trichotomy e₁ e₂ with hlt | rfl | hgt
  · have hshift : (e₁ - min e₁ e₂).toNat = 0 := by omega
    have hfull : 2 ^ 52 ≤ m₂ := by omega
    have hmore : m₁ < m₂ <<< (e₂ - min e₁ e₂).toNat := lt_shiftLeft hlt₁ hfull (by omega)
    rw [Int.compare_eq_lt.2 hlt, hshift, Nat.shiftLeft_zero, Nat.compare_eq_lt.2 hmore]
    rfl
  · rw [Int.min_self, Int.sub_self, Int.toNat_zero, Nat.shiftLeft_zero, Nat.shiftLeft_zero,
      Int.compare_eq_eq.2 rfl]
    rfl
  · have hshift : (e₂ - min e₁ e₂).toNat = 0 := by omega
    have hfull : 2 ^ 52 ≤ m₁ := by omega
    have hmore : m₂ < m₁ <<< (e₁ - min e₁ e₂).toNat := lt_shiftLeft hlt₂ hfull (by omega)
    rw [Int.compare_eq_gt.2 hgt, hshift, Nat.shiftLeft_zero, Nat.compare_eq_gt.2 hmore]
    rfl

/-- A difference compares with zero as the minuend does with the subtrahend. -/
theorem compare_sub_zero (a b : Nat) : compare ((a : Int) - b) 0 = compare a b := by
  rcases Nat.lt_trichotomy a b with h | rfl | h
  · rw [Nat.compare_eq_lt.2 h, Int.compare_eq_lt]
    omega
  · rw [Nat.compare_eq_eq.2 rfl, Int.compare_eq_eq]
    omega
  · rw [Nat.compare_eq_gt.2 h, Int.compare_eq_gt]
    omega

/-- The exact difference of two magnitudes has the direction in which they compare. -/
theorem compare_apply_sub {s₁ s₂ : Sign} (hm₁ : 0 < m₁) (hm₂ : 0 < m₂)
    (h₁ : Canonical (.finite s₁ m₁ e₁ hm₁)) (h₂ : Canonical (.finite s₂ m₂ e₂ hm₂)) :
    some (compare (s₁.apply (m₁ <<< (e₁ - min e₁ e₂).toNat : Nat)
        - s₂.apply (m₂ <<< (e₂ - min e₁ e₂).toNat : Nat)) 0)
      = UnpackedFloat.compare (.finite s₁ m₁ e₁ hm₁) (.finite s₂ m₂ e₂ hm₂) := by
  have hcompare := compare_magnitudes h₁ h₂
  have hpos₁ : 0 < m₁ <<< (e₁ - min e₁ e₂).toNat := by
    rw [Nat.shiftLeft_eq]
    exact Nat.mul_pos hm₁ (Nat.two_pow_pos _)
  have hpos₂ : 0 < m₂ <<< (e₂ - min e₁ e₂).toNat := by
    rw [Nat.shiftLeft_eq]
    exact Nat.mul_pos hm₂ (Nat.two_pow_pos _)
  generalize m₁ <<< (e₁ - min e₁ e₂).toNat = M₁ at hcompare hpos₁ ⊢
  generalize m₂ <<< (e₂ - min e₁ e₂).toNat = M₂ at hcompare hpos₂ ⊢
  cases s₁ <;> cases s₂ <;>
    simp only [UnpackedFloat.compare, Sign.apply, hcompare, Option.some.injEq]
  · have hneg : -(M₁ : Int) - -(M₂ : Int) = M₂ - M₁ := by omega
    rw [hneg, compare_sub_zero, Nat.compare_swap]
  · rw [Int.compare_eq_lt]
    omega
  · rw [Int.compare_eq_gt]
    omega
  · exact compare_sub_zero M₁ M₂

/-- **A difference has the direction in which the doubles compare**, unless both are the same
infinity. -/
theorem fits_and_direction_sub {x y : UnpackedFloat} (hx : Canonical x) (hy : Canonical y) :
    Fits (sub Format.binary64 x y) ∧ direction (sub Format.binary64 x y)
      = if x.isInf && x.beq y then none else x.compare y := by
  cases x with
  | notANumber => exact ⟨trivial, rfl⟩
  | infinity s₁ =>
    cases y with
    | notANumber => exact ⟨trivial, rfl⟩
    | infinity s₂ => cases s₁ <;> cases s₂ <;> exact ⟨trivial, rfl⟩
    | zero s₂ => cases s₁ <;> exact ⟨trivial, rfl⟩
    | finite s₂ m₂ e₂ hm₂ => cases s₁ <;> exact ⟨trivial, rfl⟩
  | zero s₁ =>
    cases y with
    | notANumber => exact ⟨trivial, rfl⟩
    | infinity s₂ => cases s₂ <;> exact ⟨trivial, rfl⟩
    | zero s₂ => cases s₁ <;> cases s₂ <;> exact ⟨trivial, rfl⟩
    | finite s₂ m₂ e₂ hm₂ => cases s₂ <;> exact ⟨hy.fits, rfl⟩
  | finite s₁ m₁ e₁ hm₁ =>
    cases y with
    | notANumber => exact ⟨trivial, rfl⟩
    | infinity s₂ => cases s₂ <;> exact ⟨trivial, rfl⟩
    | zero s₂ => cases s₁ <;> exact ⟨hx.fits, rfl⟩
    | finite s₂ m₂ e₂ hm₂ =>
      have he : -1074 ≤ min e₁ e₂ := Int.le_min.2 ⟨hx.2.1, hy.2.1⟩
      obtain ⟨hfits, hdirection⟩ := fits_and_direction_normalize
        (s₁.apply (m₁ <<< (e₁ - min e₁ e₂).toNat : Nat)
          - s₂.apply (m₂ <<< (e₂ - min e₁ e₂).toNat : Nat)) he .positive
      exact ⟨hfits, hdirection.trans (compare_apply_sub hm₁ hm₂ hx hy)⟩

end Subtracting

section Comparing

variable {x y : UnpackedFloat}

/-- Only what is no number cannot be compared. -/
theorem compare_eq_none_iff : x.compare y = none ↔ x.isNaN = true ∨ y.isNaN = true := by
  cases x with
  | notANumber => simp [UnpackedFloat.compare, UnpackedFloat.isNaN]
  | infinity s₁ => cases s₁ <;> cases y <;> simp [UnpackedFloat.compare, UnpackedFloat.isNaN]
  | zero s₁ =>
    cases y with
    | infinity s₂ | finite s₂ => cases s₂ <;> simp [UnpackedFloat.compare, UnpackedFloat.isNaN]
    | _ => simp [UnpackedFloat.compare, UnpackedFloat.isNaN]
  | finite s₁ =>
    cases y with
    | infinity s₂ | finite s₂ =>
      cases s₁ <;> cases s₂ <;> simp [UnpackedFloat.compare, UnpackedFloat.isNaN]
    | _ => cases s₁ <;> simp [UnpackedFloat.compare, UnpackedFloat.isNaN]

/-- Compared the other way round, doubles are the other way round. -/
theorem compare_swap (x y : UnpackedFloat) : y.compare x = (x.compare y).map Ordering.swap := by
  cases x with
  | notANumber =>
    cases y with
    | infinity s₂ => cases s₂ <;> rfl
    | finite s₂ => cases s₂ <;> rfl
    | _ => rfl
  | infinity s₁ =>
    cases y with
    | infinity s₂ | finite s₂ => cases s₁ <;> cases s₂ <;> rfl
    | _ => cases s₁ <;> rfl
  | zero s₁ =>
    cases y with
    | infinity s₂ | finite s₂ => cases s₂ <;> rfl
    | _ => rfl
  | finite s₁ m₁ e₁ hm₁ =>
    cases y with
    | infinity s₂ => cases s₁ <;> cases s₂ <;> rfl
    | finite s₂ m₂ e₂ hm₂ =>
      have hmagnitudes : (compare e₂ e₁).then (compare m₂ m₁)
          = ((compare e₁ e₂).then (compare m₁ m₂)).swap := by
        rw [Ordering.swap_then, Int.compare_swap, Nat.compare_swap]
      cases s₁ <;> cases s₂ <;> simp [UnpackedFloat.compare, hmagnitudes]
    | _ => cases s₁ <;> rfl

/-- Only what is no number has no direction. -/
theorem direction_eq_none_iff : direction x = none ↔ x.isNaN = true := by
  rw [direction, compare_eq_none_iff]
  exact or_iff_left Bool.false_ne_true

end Comparing

end Double

open Double

/-- Two doubles have no difference: one of them is no number, or both are the same
infinity. -/
def NoDifference (a b : Float) : Prop :=
  a.isNaN = true ∨ b.isNaN = true ∨ a.isInf = true ∧ (a == b) = true

namespace Double

variable {a b : Float}

/-- What `<` says of two doubles, in terms of the unpacked ones. -/
theorem lt_iff_compare : a < b ↔ a.toModel.unpack.compare b.toModel.unpack = some .lt := by
  show decide (a.toModel < b.toModel) = true ↔ _
  rw [decide_eq_true_iff]
  exact beq_iff_eq

/-- A double is zero or less exactly if it does not point upwards. -/
theorem le_zero_iff_direction : a ≤ 0.0 ↔ (direction a.toModel.unpack).any (·.isLE) = true := by
  show decide (a.toModel ≤ (0.0 : Float).toModel) = true ↔ _
  rw [decide_eq_true_iff]
  rfl

/-- A double that is less than another is not greater. -/
theorem not_gt_of_lt (h : a < b) : ¬ a > b := by
  show ¬ b < a
  rw [lt_iff_compare] at h ⊢
  rw [compare_swap, h]
  decide

/-- Both zeros are zero or less. -/
theorem le_zero_of_beq_zero (h : (a == 0.0) = true) : a ≤ 0.0 := by
  have hdirection : direction a.toModel.unpack = some .eq := beq_iff_eq.1 h
  rw [le_zero_iff_direction, hdirection]
  rfl

/-- **A difference points where the two doubles compare**, unless both are the same infinity. -/
theorem direction_sub (a b : Float) : direction (a - b).toModel.unpack =
    if a.isInf && a == b then none else a.toModel.unpack.compare b.toModel.unpack := by
  obtain ⟨hfits, hdirection⟩ :=
    fits_and_direction_sub (canonical_unpack a.toModel.toBits.toBitVec)
      (canonical_unpack b.toModel.toBits.toBitVec)
  exact (direction_unpack_pack hfits).trans hdirection

/-- **Which differences are no numbers.** -/
theorem isNaN_sub_iff : (a - b).isNaN = true ↔ NoDifference a b := by
  show (a - b).toModel.unpack.isNaN = true ↔ _
  rw [← direction_eq_none_iff, direction_sub]
  split
  · rename_i hsame
    exact iff_of_true rfl (.inr (.inr (Bool.and_eq_true_iff.1 hsame)))
  · rename_i hother
    rw [compare_eq_none_iff]
    refine or_congr_right (or_iff_left fun h => hother (Bool.and_eq_true_iff.2 h)).symm

/-- **When a difference fails the test for being zero or less**: it is above zero exactly if
the doubles are in this order, and what has no difference passes every test. -/
theorem not_sub_le_zero_iff : ¬ a - b ≤ 0.0 ↔ b < a ∨ NoDifference a b := by
  rw [le_zero_iff_direction, ← isNaN_sub_iff, lt_iff_compare, compare_swap]
  show _ ↔ _ ∨ (a - b).toModel.unpack.isNaN = true
  rw [← direction_eq_none_iff, direction_sub]
  split
  · exact iff_of_true (by simp) (.inr rfl)
  · cases a.toModel.unpack.compare b.toModel.unpack with
    | none => exact iff_of_true (by simp) (.inr rfl)
    | some o => cases o <;> simp [Ordering.isLE, Ordering.swap]

end Double
end MultiSegmentWell
