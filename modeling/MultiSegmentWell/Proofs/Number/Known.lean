/-
# Known quantities stay known

A quantity is known if it lies above a marker, so infinity is known and what is no number is not.
Conversions to SI units keep known what is known and take nothing below zero
(`UnitConversions.Lawful`). So do those that multiply with the size of a unit, which is between
zero and one (`Double.Shrinks`): a positive quantity stays at zero or above, and a negative one
does not move away from zero (`isKnown_mul`).

What is computed for a pipe is known if it does not fall below zero: the area of a circle with a
diameter of zero or more, up to infinity (`zero_le_circle`), and a limited roughness of zero or
more in a pipe of a finite diameter (`zero_le_limitRoughness`).
-/

import MultiSegmentWell.Proofs.Number.Products
import MultiSegmentWell.Record

namespace MultiSegmentWell
namespace Double

open Float.Model (Format UnpackedFloat)
open Float.Model.UnpackedFloat

variable {a b k v w : Float}

section Infinity

/-- Finite doubles lie below infinity. -/
theorem lt_infinity (hw : w.isFinite = true) (hv : v.toModel.unpack = .infinity .positive) :
    w < v := by
  rw [lt_iff_compare, hv]
  change w.toModel.unpack.isFinite = true at hw
  generalize w.toModel.unpack = W at hw
  cases W with
  | notANumber => cases hw
  | infinity s => cases hw
  | zero s => rfl
  | finite s m e hm => cases s <;> rfl

/-- What is not below a finite double is finite or infinite. -/
theorem isFinite_or_infinity_of_le (hw : w.isFinite = true) (h : w ≤ v) :
    v.isFinite = true ∨ v.toModel.unpack = .infinity .positive := by
  rw [le_iff_compare] at h
  change w.toModel.unpack.isFinite = true at hw
  change v.toModel.unpack.isFinite = true ∨ _
  generalize w.toModel.unpack = W at hw h
  generalize v.toModel.unpack = V at h ⊢
  cases V with
  | zero s => exact .inl rfl
  | finite s m e hm => exact .inl rfl
  | notANumber => cases W <;> cases h
  | infinity s =>
    cases s with
    | positive => exact .inr rfl
    | negative =>
      cases W with
      | notANumber => cases hw
      | infinity s => cases hw
      | zero s => cases h
      | finite s m e hm => cases s <;> cases h

/-- What lies below a finite double lies below everything that is not below that one, infinity
included. -/
theorem lt_of_lt_of_le (ha : a.isFinite = true) (hb : b.isFinite = true) (hab : a < b)
    (hbv : b ≤ v) : a < v := by
  rcases isFinite_or_infinity_of_le hb hbv with hv | hv
  · rw [lt_iff_value ha hb] at hab
    rw [le_iff_value hb hv] at hbv
    exact (lt_iff_value ha hv).2 (hab.trans_le hbv)
  · exact lt_infinity ha hv

/-- Less is not greater. -/
theorem le_of_lt (h : a < b) : a ≤ b := by
  rw [le_iff_compare, lt_iff_compare.1 h]
  rfl

/-- A positive finite double has no sign and is not zero. -/
theorem exists_unpack_of_pos (hk : k.isFinite = true) (hpos : k > 0.0) :
    ∃ m e h, k.toModel.unpack = .finite .positive m e h := by
  have hdirection := direction_of_pos hpos
  change k.toModel.unpack.isFinite = true at hk
  generalize k.toModel.unpack = K at hk hdirection
  cases K with
  | notANumber => cases hk
  | infinity s => cases hk
  | zero s => cases hdirection
  | finite s m e hm =>
    cases s with
    | negative => cases hdirection
    | positive => exact ⟨m, e, hm, rfl⟩

/-- Infinity times a positive number is infinity. -/
theorem unpack_infinity_mul (hv : v.toModel.unpack = .infinity .positive) (hk : k.isFinite = true)
    (hpos : k > 0.0) : (v * k).toModel.unpack = .infinity .positive := by
  obtain ⟨m, e, h, hunpack⟩ := exists_unpack_of_pos hk hpos
  show unpack Format.binary64 (pack Format.binary64
    (mul Format.binary64 v.toModel.unpack k.toModel.unpack)) = _
  rw [hv, hunpack]
  exact unpack_pack trivial

/-- A part of infinity is infinity. -/
theorem unpack_infinity_div (hv : v.toModel.unpack = .infinity .positive) (hk : k.isFinite = true)
    (hpos : k > 0.0) : (v / k).toModel.unpack = .infinity .positive := by
  obtain ⟨m, e, h, hunpack⟩ := exists_unpack_of_pos hk hpos
  show unpack Format.binary64 (pack Format.binary64
    (div Format.binary64 v.toModel.unpack k.toModel.unpack)) = _
  rw [hv, hunpack]
  exact unpack_pack trivial

end Infinity

section Positive

/-- A finite double is zero or more exactly if its value is. -/
theorem zero_le_iff_value (ha : a.isFinite = true) : 0.0 ≤ a ↔ 0 ≤ value a := by
  rw [le_iff_value rfl ha, value_zero]

/-- A product does not fall below zero where its factors do not. -/
theorem zero_le_mul_of_isFinite (ha : a.isFinite = true) (hb : b.isFinite = true) (hza : 0.0 ≤ a)
    (hzb : 0.0 ≤ b) : 0.0 ≤ a * b := by
  refine (rounded_mul ha hb).ge rfl ?_
  rw [value_zero]
  exact mul_nonneg ((zero_le_iff_value ha).1 hza) ((zero_le_iff_value hb).1 hzb)

/-- A product with a positive number keeps to zero or above, also where the other factor is
infinite. -/
theorem zero_le_mul (ha : 0.0 ≤ a) (hk : k.isFinite = true) (hpos : k > 0.0) : 0.0 ≤ a * k := by
  rcases isFinite_or_infinity_of_le rfl ha with hfinite | hinfinite
  · exact zero_le_mul_of_isFinite hfinite hk ha (le_of_lt hpos)
  · exact le_of_lt (lt_infinity rfl (unpack_infinity_mul hinfinite hk hpos))

/-- A quotient does not fall below zero where the dividend does not and the divisor is positive. -/
theorem zero_le_div (ha : 0.0 ≤ a) (hk : k.isFinite = true) (hpos : k > 0.0) : 0.0 ≤ a / k := by
  rcases isFinite_or_infinity_of_le rfl ha with hfinite | hinfinite
  · have hk' := (pos_iff_value hk).1 hpos
    refine (rounded_div hfinite hk hk'.ne').ge rfl ?_
    rw [value_zero]
    exact div_nonneg ((zero_le_iff_value hfinite).1 ha) hk'.le
  · exact le_of_lt (lt_infinity rfl (unpack_infinity_div hinfinite hk hpos))

/-- What makes a quantity smaller and keeps its sign. -/
structure Shrinks (k : Float) : Prop where
  isFinite : k.isFinite = true
  pos : k > 0.0
  le_one : k ≤ 1.0

/-- One has the value one. -/
theorem value_one : value 1.0 = 1 := by
  have hunpack : (1.0 : Float).toModel.unpack = .finite .positive (2 ^ 52) (-52) (by decide) := rfl
  rw [value, hunpack]
  norm_num [toRat, factor]

/-- A unit may be as large as that of SI. -/
theorem shrinks_one : Shrinks 1.0 := ⟨rfl, by decide, by decide⟩

/-- Dividing by one is rounding, too. -/
theorem zero_le_mul_div_one (ha : 0.0 ≤ a) (hk : Shrinks k) : 0.0 ≤ a * k / 1.0 :=
  zero_le_div (zero_le_mul ha hk.isFinite hk.pos) shrinks_one.isFinite shrinks_one.pos

end Positive

end Double

namespace Quantity

open Double

variable {diameter roughness k v w : Float}

/-- The marker is a finite double. -/
theorem isFinite_unknown : unknown.isFinite = true := by decide +kernel

/-- What is not below a known quantity is known. -/
theorem isKnown_of_le (hw : w.isFinite = true) (hknown : isKnown w = true) (h : w ≤ v) :
    isKnown v = true :=
  isKnown_iff.2 (lt_of_lt_of_le isFinite_unknown hw (isKnown_iff.1 hknown) h)

/-- What is zero or more is known. -/
theorem isKnown_of_zero_le (h : 0.0 ≤ v) : isKnown v = true :=
  isKnown_of_le rfl (by decide +kernel) h

/-- A known quantity that is not finite is infinity. -/
theorem isFinite_or_infinity_of_isKnown (h : isKnown v = true) :
    v.isFinite = true ∨ v.toModel.unpack = .infinity .positive :=
  isFinite_or_infinity_of_le isFinite_unknown (le_of_lt (isKnown_iff.1 h))

/-- Infinity is known. -/
theorem isKnown_of_infinity (h : v.toModel.unpack = .infinity .positive) : isKnown v = true :=
  isKnown_iff.2 (lt_infinity isFinite_unknown h)

/-- A rounded result is known if it is zero or more, or not below a known quantity. -/
theorem isKnown_of_rounded {x : ℚ} (hround : Rounded w x) (hv : v.isFinite = true)
    (hknown : isKnown v = true) (h : 0 ≤ x ∨ value v ≤ x) : isKnown w = true := by
  rcases h with hzero | hle
  · exact isKnown_of_zero_le (hround.ge rfl (by rwa [value_zero]))
  · exact isKnown_of_le hv hknown (hround.ge hv hle)

/-- **A known quantity is known in a smaller unit.** -/
theorem isKnown_mul (h : isKnown v = true) (hk : Shrinks k) : isKnown (v * k) = true := by
  rcases isFinite_or_infinity_of_isKnown h with hv | hv
  · have hpos := ((pos_iff_value hk.isFinite).1 hk.pos).le
    have hone := (le_iff_value hk.isFinite shrinks_one.isFinite).1 hk.le_one
    rw [value_one] at hone
    refine isKnown_of_rounded (rounded_mul hv hk.isFinite) hv h ?_
    rcases le_total 0 (value v) with hzero | hneg
    · exact .inl (mul_nonneg hzero hpos)
    · exact .inr (by nlinarith)
  · exact isKnown_of_infinity (unpack_infinity_mul hv hk.isFinite hk.pos)

/-- Dividing by one keeps a quantity known. -/
theorem isKnown_div_one (h : isKnown v = true) : isKnown (v / 1.0) = true := by
  rcases isFinite_or_infinity_of_isKnown h with hv | hv
  · have hne : value 1.0 ≠ 0 := value_one ▸ one_ne_zero
    refine isKnown_of_rounded (rounded_div hv shrinks_one.isFinite hne) hv h (.inr ?_)
    rw [value_one, div_one]
  · exact isKnown_of_infinity (unpack_infinity_div hv shrinks_one.isFinite shrinks_one.pos)

/-- So does multiplying with the size of a unit and dividing by one. -/
theorem isKnown_mul_div_one (h : isKnown v = true) (hk : Shrinks k) :
    isKnown (v * k / 1.0) = true :=
  isKnown_div_one (isKnown_mul h hk)

/-- What is known is a number. -/
theorem isNaN_eq_false_of_isKnown (h : isKnown v = true) : v.isNaN = false := by
  rw [← Bool.not_eq_true]
  intro hnan
  rw [isKnown_iff, lt_iff_compare, compare_eq_none_iff.2 (.inr hnan)] at h
  cases h

/-- What fails the test for being zero or less is zero or more, or no number. -/
theorem zero_le_of_not_le_zero (hnan : v.isNaN = false) (h : ¬ v ≤ 0.0) : 0.0 ≤ v :=
  le_of_not_lt rfl hnan (mt le_of_lt h)

/-- Of what fails the test for being zero or less, everything is known that is a number. -/
theorem isKnown_iff_of_not_le_zero (h : ¬ v ≤ 0.0) : isKnown v = true ↔ v.isNaN = false :=
  ⟨isNaN_eq_false_of_isKnown, fun hnan => isKnown_of_zero_le (zero_le_of_not_le_zero hnan h)⟩

/-- A limited ratio is finite and does not fall below zero. -/
theorem zero_le_limitRatio {ratio : Float} (h : 0.0 ≤ ratio) :
    (limitRatio ratio).isFinite = true ∧ 0.0 ≤ limitRatio ratio := by
  rw [limitRatio]
  split_ifs with hlt
  · refine ⟨?_, h⟩
    rcases isFinite_or_infinity_of_le rfl h with hfinite | hinfinite
    · exact hfinite
    · rw [lt_iff_compare, hinfinite] at hlt
      exact absurd hlt (by decide)
  · exact ⟨by decide, by decide⟩

/-- **A limited roughness does not fall below zero** in a pipe of a finite diameter. -/
theorem zero_le_limitRoughness (hd : diameter.isFinite = true) (hpos : diameter > 0.0)
    (hr : 0.0 ≤ roughness) : 0.0 ≤ limitRoughness diameter roughness := by
  obtain ⟨hfinite, hzero⟩ := zero_le_limitRatio (zero_le_div hr hd hpos)
  exact zero_le_mul_of_isFinite hd hfinite (le_of_lt hpos) hzero

end Quantity

namespace UnitConversions

open Double

/-- A conversion keeps known what is known, and takes nothing below zero that is not there. -/
structure KeepsKnown (convert : Float → Float) : Prop where
  isKnown : ∀ v, Quantity.isKnown v = true → Quantity.isKnown (convert v) = true
  zero_le : ∀ v, 0.0 ≤ v → 0.0 ≤ convert v

/-- What wells rely on: lengths and areas are converted to SI units by positive factors that take
no known value to the marker. -/
structure Lawful [UnitConversions] : Prop where
  feet : KeepsKnown metresOfFeet
  centimetres : KeepsKnown metresOfCentimetres
  squareFeet : KeepsKnown squareMetresOfSquareFeet
  squareCentimetres : KeepsKnown squareMetresOfSquareCentimetres

/-- A factor between zero and one keeps known what is known. -/
theorem keepsKnown_of_shrinks {k : Float} (hk : Shrinks k) : KeepsKnown fun v => v * k / 1.0 where
  isKnown _ h := Quantity.isKnown_mul_div_one h hk
  zero_le _ h := zero_le_mul_div_one h hk

/-- **Multiplying with the size of a unit is lawful**, as all units are smaller than those of SI. -/
theorem lawful_bySize : Lawful where
  feet := keepsKnown_of_shrinks ⟨rfl, by decide, by decide⟩
  centimetres := keepsKnown_of_shrinks ⟨rfl, by decide, by decide⟩
  squareFeet := keepsKnown_of_shrinks ⟨rfl, by decide, by decide⟩
  squareCentimetres := keepsKnown_of_shrinks ⟨rfl, by decide, by decide⟩

end UnitConversions

namespace UnitSystem

open Quantity (isKnown)

variable [UnitConversions] (hconversions : UnitConversions.Lawful) {units : UnitSystem} {v : Float}
include hconversions

/-- **Lengths stay known.** -/
theorem isKnown_lengthToSI (h : isKnown v = true) : isKnown (units.lengthToSI v) = true := by
  cases units with
  | metric => exact h
  | field => exact hconversions.feet.isKnown v h
  | lab => exact hconversions.centimetres.isKnown v h

/-- **Areas stay known.** -/
theorem isKnown_areaToSI (h : isKnown v = true) : isKnown (units.areaToSI v) = true := by
  cases units with
  | metric => exact h
  | field => exact hconversions.squareFeet.isKnown v h
  | lab => exact hconversions.squareCentimetres.isKnown v h

/-- **Lengths do not fall below zero.** -/
theorem zero_le_lengthToSI (h : 0.0 ≤ v) : 0.0 ≤ units.lengthToSI v := by
  cases units with
  | metric => exact h
  | field => exact hconversions.feet.zero_le v h
  | lab => exact hconversions.centimetres.zero_le v h

end UnitSystem

namespace RangeRecord

open Float.Model (Format)
open Float.Model.UnpackedFloat
open Double

variable {diameter : Float}

/-- The area of an infinite circle. -/
theorem unpack_infinity_circle (h : diameter.toModel.unpack = .infinity .positive) :
    (pi * diameter * diameter).toModel.unpack = .infinity .positive := by
  obtain ⟨m, e, hm, hpi⟩ := exists_unpack_of_pos (k := pi) (by decide) (by decide)
  have hfirst : (pi * diameter).toModel.unpack = .infinity .positive := by
    show unpack Format.binary64 (pack Format.binary64
      (mul Format.binary64 pi.toModel.unpack diameter.toModel.unpack)) = _
    rw [hpi, h]
    exact unpack_pack trivial
  show unpack Format.binary64 (pack Format.binary64
    (mul Format.binary64 (pi * diameter).toModel.unpack diameter.toModel.unpack)) = _
  rw [hfirst, h]
  exact unpack_pack trivial

/-- **The area of a circle does not fall below zero.** -/
theorem zero_le_circle (h : 0.0 ≤ diameter) : 0.0 ≤ pi * diameter * diameter / 4.0 := by
  have hpi : pi.isFinite = true := by decide
  refine zero_le_div ?_ rfl (by decide)
  rcases isFinite_or_infinity_of_le rfl h with hfinite | hinfinite
  · rcases lt_or_eq_of_le ((zero_le_iff_value hfinite).1 h) with hpos | hzero
    · have hpos' := (pos_iff_value hfinite).2 hpos
      exact zero_le_mul (zero_le_mul (by decide) hfinite hpos') hfinite hpos'
    · have hround := rounded_mul hpi hfinite
      rw [← hzero, mul_zero] at hround
      have hbelow : pi * diameter ≤ 0.0 := hround.le rfl (by rw [value_zero])
      have habove : 0.0 ≤ pi * diameter := hround.ge rfl (by rw [value_zero])
      have hproduct := (isFinite_or_infinity_of_le rfl habove).resolve_right
        fun hinfinite => not_le_of_lt (lt_infinity rfl hinfinite) hbelow
      exact zero_le_mul_of_isFinite hproduct hfinite habove h
  · exact le_of_lt (lt_infinity rfl (unpack_infinity_circle hinfinite))

end RangeRecord
end MultiSegmentWell
