/-
# Which roughness a range carries

SPEC_FULL.md, 3 and 8, P5: the bound of the roughness; 4.2: the warning when clamped.

The segments of a range carry one roughness: the ratio of the given roughness and the diameter,
limited to the greatest admissible one and multiplied with the diameter again. A finding says
that it is below the given one (`CarriesRoughness`).

Where the ratio is above the limit, the segments carry the diameter times the limit, which is
never above what is given (`limit_le_roughness`), and the finding is missing only if both are the
same double. Where it is not, the roughness has been divided and multiplied in vain: the segments
carry it or one of the two doubles next to it (`neighbours_of_hasFullRatio`), and a finding is
made where it is the one below.

The limit itself is a multiple of a power of two doubles; the double that stands for the power is
the closest one to it (`frictionPower_nearest`).
-/

import MultiSegmentWell.Proofs.Number.Products
import MultiSegmentWell.Record
import Mathlib.Analysis.SpecialFunctions.Pow.Real

namespace MultiSegmentWell

open Double

namespace Quantity

section Limit

/-- The base of the power as a rational number. -/
theorem value_frictionBase : value frictionBase = 8982654636771823 / 2 ^ 53 := by
  have hunpack : frictionBase.toModel.unpack =
      .finite .positive 8982654636771823 (-53) (by decide) := rfl
  rw [value_of_unpack hunpack]
  norm_num

/-- The double for the power as a rational number. -/
theorem value_frictionPower : value frictionPower = 8985106085773376 / 2 ^ 53 := by
  have hunpack : frictionPower.toModel.unpack =
      .finite .positive 8985106085773376 (-53) (by decide) := rfl
  rw [value_of_unpack hunpack]
  norm_num

/-- The exponent of the power as a rational number. -/
theorem value_frictionExponent : value (9.0 / 10.0) = 8106479329266893 / 2 ^ 53 := by
  have hunpack : (9.0 / 10.0 : Float).toModel.unpack =
      .finite .positive 8106479329266893 (-53) (by decide) := rfl
  rw [value_of_unpack hunpack]
  norm_num

/-- The tenth power of `b ^ e` lies close below `b ^ 9` where the exponent, being rounded, is
hardly more than `9 / 10`. -/
theorem rpow_pow_ten_bounds {b e : ℝ} (hb : 0 < b) (hb1 : b ≤ 1) (he : 9 / 10 ≤ e) :
    b ^ 9 * (1 + (e * 10 - 9) * (1 - b⁻¹)) ≤ (b ^ e) ^ 10 ∧ (b ^ e) ^ 10 ≤ b ^ 9 := by
  have hsplit : (b ^ e) ^ 10 = b ^ 9 * b ^ (e * 10 - 9) := by
    rw [← Real.rpow_natCast (b ^ e) 10, ← Real.rpow_mul hb.le, ← Real.rpow_natCast b 9,
      ← Real.rpow_add hb]
    norm_num
  have hrest : 0 ≤ e * 10 - 9 := by linarith
  rw [hsplit]
  constructor
  · refine mul_le_mul_of_nonneg_left ?_ (by positivity)
    rw [Real.rpow_def_of_pos hb]
    have hlog := Real.one_sub_inv_le_log_of_pos hb
    have hexp := Real.add_one_le_exp (Real.log b * (e * 10 - 9))
    nlinarith
  · exact mul_le_of_le_one_right (by positivity) (Real.rpow_le_one hb.le hb1 hrest)

/-- **No double is closer to the power in the limit** than the one that stands for it: doubles
between a half and one are `2 ^ (-53)` apart. -/
theorem frictionPower_nearest :
    |((value frictionBase : ℚ) : ℝ) ^ ((value (9.0 / 10.0) : ℚ) : ℝ) - (value frictionPower : ℚ)|
      < 1 / 2 ^ 54 := by
  rw [value_frictionBase, value_frictionPower, value_frictionExponent]
  push_cast
  obtain ⟨hlow, hhigh⟩ := @rpow_pow_ten_bounds (8982654636771823 / 2 ^ 53 : ℝ)
    (8106479329266893 / 2 ^ 53) (by norm_num) (by norm_num) (by norm_num)
  have hpos : 0 < (8982654636771823 / 2 ^ 53 : ℝ) ^ (8106479329266893 / 2 ^ 53 : ℝ) :=
    Real.rpow_pos_of_pos (by norm_num) _
  generalize (8982654636771823 / 2 ^ 53 : ℝ) ^ (8106479329266893 / 2 ^ 53 : ℝ) = y
    at hlow hhigh hpos ⊢
  -- Both midpoints to the neighbours are told from the power by their tenth powers.
  have hbelow : 8985106085773376 / 2 ^ 53 - 1 / 2 ^ 54 < y :=
    lt_of_pow_lt_pow_left₀ 10 hpos.le (lt_of_lt_of_le (by norm_num) hlow)
  have habove : y < 8985106085773376 / 2 ^ 53 + 1 / 2 ^ 54 :=
    lt_of_pow_lt_pow_left₀ 10 (by norm_num) (hhigh.trans_lt (by norm_num))
  rw [abs_sub_lt_iff]
  constructor <;> linarith

end Limit

variable {ratio : Float}

/-- The limit is a finite double. -/
theorem isFinite_maxRelativeRoughness : maxRelativeRoughness.isFinite = true := by decide

/-- A ratio above the limit is limited to it. -/
theorem limitRatio_of_gt (h : ratio > maxRelativeRoughness) :
    limitRatio ratio = maxRelativeRoughness :=
  if_neg (not_gt_of_lt h)

/-- Another ratio is kept. -/
theorem limitRatio_of_not_gt (hnan : ratio.isNaN = false) (h : ¬ ratio > maxRelativeRoughness) :
    limitRatio ratio = ratio := by
  rw [limitRatio]
  split_ifs with hlt
  · rfl
  · exact (eq_of_le_of_not_lt (by decide) (le_of_not_lt hnan (by decide) h) hlt).symm

/-- The limit is positive. -/
theorem maxRelativeRoughness_pos : maxRelativeRoughness > 0.0 := by decide

end Quantity

open Quantity (maxRelativeRoughness isFinite_maxRelativeRoughness maxRelativeRoughness_pos)

namespace RangeRecord

variable {r : RangeRecord} {mode : GeometryMode} {t : Segment}

/-- The ratio of roughness and diameter loses no digits to a result that is too small or too
large. -/
def HasFullRatio (r : RangeRecord) : Prop :=
  r.diameter.isFinite = true ∧ (r.roughness / r.diameter).isFinite = true ∧
    ((r.roughness == 0.0) = true ∨ leastNormal < r.roughness / r.diameter ∨
      r.roughness / r.diameter < -leastNormal)

/-- The record is expanded to the segments of its range, which all carry one roughness; a finding
says so where that is below the given one. -/
structure CarriesRoughness (r : RangeRecord) (well : String) (mode : GeometryMode)
    (roughness : Float) : Prop where
  segments : ∃ segments, (r.expand well mode).outcome = .ok segments ∧
    segments.map Segment.number = r.numbers ∧ ∀ t ∈ segments, t.pipe.roughness = roughness
  findings : (r.expand well mode).findings =
    if r.roughness > roughness then
      [.limitedRoughness well r.first r.last r.roughness roughness]
    else []

/-- An accepted record is expanded, with its findings. -/
theorem expand_of_check {well : String} (h : r.check well mode = .ok ()) :
    r.expand well mode = ⟨r.findings well, .ok (r.segments mode)⟩ := by
  rw [expand, h]

/-- **All segments of a range carry the roughness of the record**, and a finding is made where it is
below the given one. -/
theorem carriesRoughness_of_check {well : String} (h : r.check well mode = .ok ()) :
    r.CarriesRoughness well mode r.segmentRoughness := by
  have hnumbers : (r.segments mode).map Segment.number = r.numbers := by
    rw [segments, List.map_map]
    exact List.map_id _
  have hroughness : ∀ t ∈ r.segments mode, t.pipe.roughness = r.segmentRoughness := by
    intro t ht
    obtain ⟨n, -, rfl⟩ := List.mem_map.1 ht
    rfl
  constructor <;> rw [expand_of_check h]
  · exact ⟨_, rfl, hnumbers, hroughness⟩
  · rfl

/-- Nothing is found where the roughness is not below the given one. -/
theorem CarriesRoughness.findings_eq_nil_iff {well : String} {roughness : Float}
    (h : r.CarriesRoughness well mode roughness) :
    (r.expand well mode).findings = [] ↔ ¬ r.roughness > roughness := by
  rw [h.findings]
  split_ifs with hlower <;> simp [hlower]

/-- A ratio above the limit is limited. -/
theorem segmentRoughness_of_gt (h : r.roughness / r.diameter > maxRelativeRoughness) :
    r.segmentRoughness = r.diameter * maxRelativeRoughness := by
  rw [segmentRoughness, Quantity.limitRoughness, Quantity.limitRatio_of_gt h]

section Valid

variable (hdiameter : r.diameter > 0.0) (hfinite : r.roughness.isFinite = true)
include hdiameter hfinite

/-- Any other ratio is multiplied with the diameter as it is. -/
theorem segmentRoughness_of_not_gt (h : ¬ r.roughness / r.diameter > maxRelativeRoughness) :
    r.segmentRoughness = r.diameter * (r.roughness / r.diameter) := by
  rw [segmentRoughness, Quantity.limitRoughness,
    Quantity.limitRatio_of_not_gt (isNaN_div hfinite hdiameter) h]

/-- **The limit is never above what is given.** -/
theorem limit_le_roughness (h : r.roughness / r.diameter > maxRelativeRoughness) :
    r.diameter * maxRelativeRoughness ≤ r.roughness ∧
      (¬ r.roughness > r.diameter * maxRelativeRoughness ↔
        r.diameter * maxRelativeRoughness = r.roughness) := by
  have hd := isFinite_of_lt_div hfinite hdiameter maxRelativeRoughness_pos h
  have hpos := (pos_iff_value hd).1 hdiameter
  have hlimit := (pos_iff_value isFinite_maxRelativeRoughness).1 maxRelativeRoughness_pos
  have hle : r.diameter * maxRelativeRoughness ≤ r.roughness :=
    mul_le_of_lt_div hfinite hd isFinite_maxRelativeRoughness hpos h
  have hroughness : r.roughness > 0.0 := (pos_iff_value hfinite).2
    ((mul_pos hpos hlimit).trans (mul_lt_of_lt_div hfinite hd isFinite_maxRelativeRoughness hpos h))
  refine ⟨hle, eq_of_le_of_not_lt hroughness hle, fun heq => ?_⟩
  rw [heq]
  exact fun hlt => not_gt_of_lt hlt hlt

/-- **A ratio that is not above the limit leaves the roughness where it is**, up to the rounding
of a division and a multiplication. -/
theorem neighbours_of_hasFullRatio (hfull : r.HasFullRatio) :
    Neighbours (r.diameter * (r.roughness / r.diameter)) r.roughness := by
  obtain ⟨hd, hratio, hdigits⟩ := hfull
  exact neighbours_mul_div hfinite hd ((pos_iff_value hd).1 hdiameter) hratio
    (hdigits.imp (beq_iff_value hfinite rfl).1 id)

/-- **The roughness of an expanded record.**  Where the ratio of roughness and diameter is above
the limit, the segments carry the diameter times the limit, which is never above the given
roughness, and a finding says so unless both are the same double. Any other ratio is multiplied
with the diameter again, and a finding is made if the product is below the given roughness; it is
the given roughness or one of the doubles next to it, unless the ratio has lost digits. -/
theorem expand_roughness {well : String} (hcheck : r.check well mode = .ok ()) :
    (r.roughness / r.diameter > maxRelativeRoughness →
      r.CarriesRoughness well mode (r.diameter * maxRelativeRoughness) ∧
        r.diameter * maxRelativeRoughness ≤ r.roughness ∧
        ((r.expand well mode).findings = [] ↔
          r.diameter * maxRelativeRoughness = r.roughness)) ∧
      (¬ r.roughness / r.diameter > maxRelativeRoughness →
        r.CarriesRoughness well mode (r.diameter * (r.roughness / r.diameter)) ∧
          (r.HasFullRatio → Neighbours (r.diameter * (r.roughness / r.diameter)) r.roughness)) := by
  have hcarries := carriesRoughness_of_check hcheck
  refine ⟨fun h => ?_, fun h => ?_⟩
  · rw [segmentRoughness_of_gt h] at hcarries
    obtain ⟨hle, hsame⟩ := limit_le_roughness hdiameter hfinite h
    exact ⟨hcarries, hle, hcarries.findings_eq_nil_iff.trans hsame⟩
  · rw [segmentRoughness_of_not_gt hdiameter hfinite h] at hcarries
    exact ⟨hcarries, neighbours_of_hasFullRatio hdiameter hfinite⟩

end Valid

/-- A record of one segment. -/
def single (diameter roughness : Float) : RangeRecord where
  first := 2
  last := 2
  branch := 1
  join := 1
  node := ⟨10.0, 5.0, 0.0, 0.0⟩
  diameter := diameter
  roughness := roughness

/-- A roughness of ten diameters is limited to 3.69 of them and reported; an ordinary one is
carried as it is given, without a finding. -/
theorem expand_roughness_single :
    ((single 0.1 1.0).check "W" .incremental = .ok () ∧ (single 0.1 1.0).diameter > 0.0 ∧
      (single 0.1 1.0).roughness.isFinite = true ∧
      (single 0.1 1.0).roughness / (single 0.1 1.0).diameter > maxRelativeRoughness ∧
      (single 0.1 1.0).CarriesRoughness "W" .incremental 0.36909245123963313 ∧
      ((single 0.1 1.0).expand "W" .incremental).findings =
        [.limitedRoughness "W" 2 2 1.0 0.36909245123963313]) ∧
    (single 0.2 1.0e-4).check "W" .incremental = .ok () ∧ (single 0.2 1.0e-4).diameter > 0.0 ∧
      (single 0.2 1.0e-4).roughness.isFinite = true ∧
      ¬ (single 0.2 1.0e-4).roughness / (single 0.2 1.0e-4).diameter > maxRelativeRoughness ∧
      (single 0.2 1.0e-4).HasFullRatio ∧
      (single 0.2 1.0e-4).CarriesRoughness "W" .incremental 1.0e-4 ∧
      ((single 0.2 1.0e-4).expand "W" .incremental).findings = [] ∧ Neighbours 1.0e-4 1.0e-4 := by
  have hcheck : (single 0.1 1.0).check "W" .incremental = .ok () := by decide
  have hcheck' : (single 0.2 1.0e-4).check "W" .incremental = .ok () := by decide
  have hlimit : (single 0.1 1.0).diameter * maxRelativeRoughness = 0.36909245123963313 := by decide
  have hsame : (single 0.2 1.0e-4).diameter *
      ((single 0.2 1.0e-4).roughness / (single 0.2 1.0e-4).diameter) = 1.0e-4 := by decide
  have hrough : (single 0.1 1.0).roughness / (single 0.1 1.0).diameter > maxRelativeRoughness := by
    decide
  have hsmooth : ¬ (single 0.2 1.0e-4).roughness / (single 0.2 1.0e-4).diameter
      > maxRelativeRoughness := by decide
  have hfull : (single 0.2 1.0e-4).HasFullRatio :=
    ⟨by decide, by decide, .inr (.inl (by decide +kernel))⟩
  obtain ⟨hcarries, -⟩ := (expand_roughness (by decide) (by decide) hcheck).1 hrough
  obtain ⟨hcarries', hneighbours⟩ := (expand_roughness (by decide) (by decide) hcheck').2 hsmooth
  rw [hlimit] at hcarries
  rw [hsame] at hcarries' hneighbours
  exact ⟨⟨hcheck, by decide, by decide, hrough, hcarries, hcarries.findings⟩, hcheck',
    by decide, by decide, hsmooth, hfull, hcarries', hcarries'.findings, hneighbours hfull⟩

/-- **A rounding passes for a limitation.**  A ratio far below the limit is reported, and the
segment carries another roughness than is given. -/
theorem findings_of_small_ratio :
    ¬ (single 0.2 1.5e-5).roughness / (single 0.2 1.5e-5).diameter > maxRelativeRoughness ∧
      (single 0.2 1.5e-5).expand "W" .incremental =
        ⟨[.limitedRoughness "W" 2 2 1.5e-5 1.4999999999999999e-5],
          .ok ((single 0.2 1.5e-5).segments .incremental)⟩ ∧
      ((single 0.2 1.5e-5).segments .incremental).map (fun t => t.pipe.roughness) =
        [1.4999999999999999e-5] := by
  have hreported : (single 0.2 1.5e-5).findings "W" =
      [.limitedRoughness "W" 2 2 1.5e-5 1.4999999999999999e-5] := by decide
  refine ⟨by decide, ?_, by decide⟩
  rw [expand_of_check (by decide), hreported]

end RangeRecord
end MultiSegmentWell
