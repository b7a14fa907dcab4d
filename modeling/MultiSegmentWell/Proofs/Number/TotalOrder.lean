/-
# The total order of doubles

All doubles stand in one line (`place`): those with a sign from the greatest magnitude to
negative zero, then those without a sign from zero to infinity and, beyond it, what is no
number. Different doubles have different places (`place_injective`); that a value is no number is
all that a double says of it, so there is one place for all such values and no order among them.

A double without a sign is unpacked from its magnitude alone (`unpack_eq_unsigned`), and
magnitudes are numbered in the order of what they stand for (`compare_unsigned`). So without
a sign, numbers stand in their order, and what is no number stands last (`place_lt_iff`).
-/

import MultiSegmentWell.Proofs.Number.Magnitudes
import MultiSegmentWell.Proofs.Number.Parts

namespace MultiSegmentWell
namespace Binary64

open Float.Model (Format UnpackedFloat)
open Float.Model.UnpackedFloat

/-- The place of a double in the total order. What is no number has one place, whichever of the
bit patterns for it is meant. -/
def place (x : Float) : Int :=
  if isNegative x then -(magnitude x : Int) - 1 else magnitude x

/-- **Every double has a place of its own.** -/
theorem place_injective {x y : Float} (h : place x = place y) : x = y := by
  have hparts : isNegative x = isNegative y ∧ magnitude x = magnitude y := by
    unfold place at h
    split_ifs at h with hx hy hy
    · exact ⟨hx.trans hy.symm, by omega⟩
    · omega
    · omega
    · rw [Bool.not_eq_true] at hx hy
      exact ⟨hx.trans hy.symm, by omega⟩
  rw [← ofParts_eq x, ← ofParts_eq y, hparts.1, hparts.2]

/-- Without a sign the place of a double is its magnitude. -/
theorem place_of_not_isNegative {x : Float} (h : isNegative x = false) :
    place x = magnitude x := by
  rw [place, h]
  rfl

/-- What magnitude bits stand for. -/
def unsigned (bits : Nat) : UnpackedFloat :=
  if h : bits = 0 then .zero .positive
  else if bits < infinity then .finite .positive (mantissa bits) (exponent bits) (mantissa_pos h)
  else if bits = infinity then .infinity .positive
  else .notANumber

section Unpacking

variable {b : BitVec Format.binary64.numBits}

/-- The mantissa field is the last 52 bits. -/
theorem toNat_unpackMantissa : (unpackMantissa b).toNat = b.toNat % 2 ^ 52 := by
  rw [unpackMantissa, BitVec.toNat_cast, BitVec.extractLsb_toNat, Nat.shiftRight_zero]
  rfl

/-- The mantissa field is empty exactly if the last 52 bits are. -/
theorem unpackMantissa_eq_zero_iff : unpackMantissa b = 0#_ ↔ b.toNat % 2 ^ 52 = 0 := by
  rw [← toNat_unpackMantissa, ← BitVec.toNat_inj]
  rfl

/-- The exponent field is empty exactly if its 11 bits are. -/
theorem unpackExponent_eq_zero_iff :
    unpackExponent b = 0#_ ↔ b.toNat / 2 ^ 52 % 2 ^ 11 = 0 := by
  rw [← toNat_unpackExponent, ← BitVec.toNat_inj]
  rfl

/-- Without the first bit there is no sign. -/
theorem unpackSign_eq_zero (h : b.toNat < 2 ^ 63) : unpackSign b = 0#1 := by
  apply BitVec.eq_of_toNat_eq
  rw [unpackSign, BitVec.toNat_cast, BitVec.extractLsb_toNat, Nat.shiftRight_eq_div_pow]
  show b.toNat / 2 ^ 63 % 2 = 0
  omega

/-- From infinity on the exponent field is full. -/
theorem unpack_of_infinity_le (hle : infinity ≤ b.toNat) (hlt : b.toNat < 2 ^ 63) :
    unpack Format.binary64 b = if b.toNat = infinity then .infinity .positive else .notANumber := by
  have hinfinity : infinity = 2047 * 2 ^ 52 := rfl
  have hfull : unpackExponent b = -1#_ := unpackExponent_eq_iff.2 (by omega)
  have hnone : unpackMantissa b = 0#_ ↔ b.toNat = infinity := by
    rw [unpackMantissa_eq_zero_iff]
    omega
  unfold unpack
  dsimp only
  rw [if_pos hfull, unpackSign_eq_zero hlt]
  simp only [hnone]
  rfl

/-- Below infinity a double is unpacked as its mantissa and its exponent. -/
theorem unpack_of_lt_infinity (hlt : b.toNat < infinity) (hne : b.toNat ≠ 0) :
    unpack Format.binary64 b
      = .finite .positive (mantissa b.toNat) (exponent b.toNat) (mantissa_pos hne) := by
  have hinfinity : infinity = 2047 * 2 ^ 52 := rfl
  have hbias : Format.binary64.exponentBias = 1023 := rfl
  have hexponent := @toNat_unpackExponent b
  have hmantissa := @toNat_unpackMantissa b
  have hnotFull : unpackExponent b ≠ -1#_ := mt unpackExponent_eq_iff.1 (by omega)
  unfold unpack
  dsimp only
  rw [if_neg hnotFull, unpackSign_eq_zero (by omega), hbias]
  rcases Nat.lt_or_ge b.toNat (2 ^ 52) with hlow | hhigh
  · obtain ⟨hm, he⟩ := parts_of_lt hlow
    have hzero : unpackExponent b = 0#_ := unpackExponent_eq_zero_iff.2 (by omega)
    have hsome : unpackMantissa b ≠ 0#_ := mt unpackMantissa_eq_zero_iff.1 (by omega)
    rw [if_pos hzero, dif_neg hsome, UnpackedFloat.finite.injEq]
    exact ⟨rfl, by omega, by omega⟩
  · obtain ⟨hm, he⟩ := parts_of_le hhigh
    have hnonzero : unpackExponent b ≠ 0#_ := mt unpackExponent_eq_zero_iff.1 (by omega)
    rw [if_neg hnonzero, UnpackedFloat.finite.injEq, Double.toNat_leading_append]
    exact ⟨rfl, by omega, by omega⟩

/-- **A double without a sign is unpacked from its magnitude.** -/
theorem unpack_eq_unsigned (h : b.toNat < 2 ^ 63) :
    unpack Format.binary64 b = unsigned b.toNat := by
  unfold unsigned
  split_ifs with hzero hfinite hinfinite
  · obtain rfl : b = 0#_ := BitVec.eq_of_toNat_eq hzero
    rfl
  · exact unpack_of_lt_infinity hfinite hzero
  · rw [unpack_of_infinity_le (Nat.not_lt.1 hfinite) h, if_pos hinfinite]
  · rw [unpack_of_infinity_le (Nat.not_lt.1 hfinite) h, if_neg hinfinite]

end Unpacking

section Packing

/-- Without a sign, the bit of the sign is missing. -/
theorem toNat_packComponents_lt (e : BitVec Format.binary64.exponentBits)
    (m : BitVec Format.binary64.mantissaBitsWithoutImplicit) :
    (packComponents Format.binary64 .positive e m).toNat < 2 ^ 63 := by
  have hsign : ((Sign.positive.toBitVec ++ e).toNat) = e.toNat := by
    rw [BitVec.toNat_append]
    exact Nat.zero_or _
  have he : e.toNat < 2 ^ 11 := e.isLt
  have hm : m.toNat < 2 ^ 52 := m.isLt
  rw [packComponents, BitVec.toNat_append, hsign, ← Nat.shiftLeft_add_eq_or_of_lt m.isLt,
    Nat.shiftLeft_eq]
  show e.toNat * 2 ^ 52 + m.toNat < 2 ^ 63
  omega

/-- An absolute value is packed without a sign. -/
theorem toNat_pack_abs_lt (x : UnpackedFloat) : (pack Format.binary64 x.abs).toNat < 2 ^ 63 := by
  cases x with
  | finite s m e hm =>
    show (pack Format.binary64 (.finite .positive m e hm)).toNat < 2 ^ 63
    unfold pack
    dsimp only
    split
    · exact toNat_packComponents_lt _ _
    · split
      · exact toNat_packComponents_lt _ _
      · exact toNat_packComponents_lt _ _
  | _ => exact toNat_packComponents_lt _ _

end Packing

section Comparing

variable {m n : Nat}

/-- Of two magnitudes the smaller has the smaller exponent, or the same and the smaller
mantissa. -/
theorem parts_lt (h : m < n) :
    exponent m < exponent n ∨ exponent m = exponent n ∧ mantissa m < mantissa n := by
  rcases Nat.lt_or_ge n (2 ^ 52) with hn | hn
  · obtain ⟨hnm, hne⟩ := parts_of_lt hn
    obtain ⟨hmm, hme⟩ := parts_of_lt (h.trans hn)
    omega
  · obtain ⟨hnm, hne⟩ := parts_of_le hn
    rcases Nat.lt_or_ge m (2 ^ 52) with hm | hm
    · obtain ⟨hmm, hme⟩ := parts_of_lt hm
      omega
    · obtain ⟨hmm, hme⟩ := parts_of_le hm
      omega

/-- Magnitude bits are numbered in the order of what they stand for. -/
theorem compare_unsigned_of_lt (h : m < n) (hn : n ≤ infinity) :
    (unsigned m).compare (unsigned n) = some .lt := by
  have hm : m < infinity := Nat.lt_of_lt_of_le h hn
  have hne : n ≠ 0 := by omega
  rcases Nat.lt_or_eq_of_le hn with hfinite | rfl
  · by_cases hzero : m = 0
    · simp only [unsigned, dif_pos hzero, dif_neg hne, if_pos hfinite]
      rfl
    · simp only [unsigned, dif_neg hzero, dif_neg hne, if_pos hfinite, if_pos hm,
        UnpackedFloat.compare, Option.some.injEq]
      rcases parts_lt h with he | ⟨he, hmantissa⟩
      · rw [Int.compare_eq_lt.2 he]
        rfl
      · rw [Int.compare_eq_eq.2 he, Nat.compare_eq_lt.2 hmantissa]
        rfl
  · by_cases hzero : m = 0
    · simp only [unsigned, dif_pos hzero]
      rfl
    · simp only [unsigned, dif_neg hzero, if_pos hm]
      rfl

/-- **Magnitudes up to infinity compare as their numbers do.** -/
theorem compare_unsigned (hm : m ≤ infinity) (hn : n ≤ infinity) :
    (unsigned m).compare (unsigned n) = some (compare m n) := by
  rcases Nat.lt_trichotomy m n with h | rfl | h
  · rw [compare_unsigned_of_lt h hn, Nat.compare_eq_lt.2 h]
  · rw [Nat.compare_eq_eq.2 rfl, unsigned]
    split_ifs with hzero
    · rfl
    · simp [UnpackedFloat.compare]
    · rfl
    · omega
  · rw [Double.compare_swap, compare_unsigned_of_lt h hm, Nat.compare_eq_gt.2 h]
    rfl

end Comparing

section Placing

variable {x y : Float}

/-- Without a sign a double is what its magnitude bits stand for. -/
theorem unpack_of_not_isNegative (h : isNegative x = false) :
    x.toModel.unpack = unsigned (magnitude x) := by
  have hlt : x.toBits.toNat < 2 ^ 63 := by
    simpa [isNegative] using h
  have hmagnitude : magnitude x = x.toBits.toNat := by
    rw [magnitude, Nat.pow_eq, Nat.mod_eq_of_lt hlt]
  rw [hmagnitude]
  exact unpack_eq_unsigned hlt

/-- Without a sign, what is no number is what lies beyond infinity. -/
theorem isNaN_iff_infinity_lt (h : isNegative x = false) :
    x.isNaN = true ↔ infinity < magnitude x := by
  show x.toModel.unpack.isNaN = true ↔ _
  rw [unpack_of_not_isNegative h, unsigned]
  split_ifs <;> simp [UnpackedFloat.isNaN] <;> omega

/-- Without a sign, numbers go up to infinity. -/
theorem magnitude_le_infinity (h : isNegative x = false) (hx : x.isNaN = false) :
    magnitude x ≤ infinity := by
  rw [← Nat.not_lt, ← isNaN_iff_infinity_lt h, hx]
  exact Bool.false_ne_true

/-- What is no number has the same bits always. -/
theorem magnitude_of_isNaN (h : x.isNaN = true) : magnitude x = 0x7FF8000000000000 := by
  rw [Float.isNaN_eq_decide_eq_nan, decide_eq_true_iff] at h
  rw [h]
  rfl

/-- An absolute value has no sign. -/
theorem isNegative_abs (x : Float) : isNegative x.abs = false := by
  have hlt : x.abs.toBits.toNat < 2 ^ 63 := toNat_pack_abs_lt x.toModel.unpack
  simpa [isNegative] using hlt

/-- **Without a sign, doubles stand in the order of their numbers**, and what is no number
stands last. -/
theorem place_lt_iff (hx : isNegative x = false) (hy : isNegative y = false) :
    place x < place y ↔ x < y ∨ y.isNaN = true ∧ x.isNaN = false := by
  have hinfinity : infinity < 0x7FF8000000000000 := by decide
  rw [place_of_not_isNegative hx, place_of_not_isNegative hy, Int.ofNat_lt, Double.lt_iff_compare]
  cases hnx : x.isNaN with
  | true =>
    have hnone : x.toModel.unpack.compare y.toModel.unpack = none :=
      Double.compare_eq_none_iff.2 (.inl hnx)
    have hle : magnitude y ≤ magnitude x := by
      rw [magnitude_of_isNaN hnx]
      cases hny : y.isNaN with
      | true => exact (magnitude_of_isNaN hny).le
      | false => exact (magnitude_le_infinity hy hny).trans hinfinity.le
    rw [hnone]
    simpa using hle
  | false =>
    have hfinite := magnitude_le_infinity hx hnx
    cases hny : y.isNaN with
    | true =>
      rw [magnitude_of_isNaN hny]
      exact iff_of_true (hfinite.trans_lt hinfinity) (.inr ⟨rfl, rfl⟩)
    | false =>
      rw [unpack_of_not_isNegative hx, unpack_of_not_isNegative hy,
        compare_unsigned hfinite (magnitude_le_infinity hy hny), Option.some.injEq,
        Nat.compare_eq_lt]
      exact (or_iff_left fun h => Bool.false_ne_true h.1).symm

end Placing

end Binary64
end MultiSegmentWell
