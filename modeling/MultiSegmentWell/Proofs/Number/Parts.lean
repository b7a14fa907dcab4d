/-
# Doubles and their parts

A double is put together again from its sign and its magnitude bits (`ofParts_eq`), and it is
finite exactly if these are below those of infinity (`isFinite_iff`, `isFinite_ofParts`).
-/

import MultiSegmentWell.Proofs.Number.Differences
import MultiSegmentWell.Number.Binary64

namespace MultiSegmentWell
namespace Binary64

open Float.Model (Format UnpackedFloat)
open Float.Model.UnpackedFloat

/-- **A double consists of its sign and its magnitude.** -/
theorem ofParts_eq (x : Float) : ofParts (isNegative x) (magnitude x) = x := by
  have hlt : x.toBits.toNat < 2 ^ 64 := x.toBits.toNat_lt
  have hbits : (if isNegative x then magnitude x + Nat.pow 2 63 else magnitude x) =
      x.toBits.toNat := by
    unfold isNegative magnitude
    rw [Nat.pow_eq]
    by_cases hsign : 2 ^ 63 ≤ x.toBits.toNat
    · rw [if_pos (decide_eq_true hsign)]
      omega
    · rw [if_neg (by simpa using hsign)]
      omega
  rw [ofParts, hbits, UInt64.ofNat_toNat, Float.ofBits_toBits]

section Unpacking

variable {b : BitVec Format.binary64.numBits}

/-- What is unpacked is finite unless the exponent field is full. -/
theorem isFinite_unpack_iff :
    (unpack Format.binary64 b).isFinite = true ↔ unpackExponent b ≠ -1#_ := by
  unfold unpack
  dsimp only
  split_ifs with hfull
  · exact iff_of_false (fun h => by cases h) fun h => h hfull
  · exact iff_of_false (fun h => by cases h) fun h => h hfull
  · exact iff_of_true rfl hfull
  · exact iff_of_true rfl hfull
  · exact iff_of_true rfl hfull

/-- The exponent field is the 11 bits in front of the mantissa. -/
theorem toNat_unpackExponent :
    (unpackExponent b).toNat = b.toNat / 2 ^ 52 % 2 ^ 11 := by
  rw [unpackExponent, BitVec.toNat_cast, BitVec.extractLsb_toNat, Nat.shiftRight_eq_div_pow]
  rfl

/-- The exponent field is full exactly if its 11 bits are. -/
theorem unpackExponent_eq_iff :
    unpackExponent b = -1#_ ↔ b.toNat / 2 ^ 52 % 2 ^ 11 = 2047 := by
  rw [← toNat_unpackExponent, ← BitVec.toNat_inj]
  rfl

/-- A magnitude below infinity leaves the exponent field below the full one. -/
theorem unpackExponent_pack_ne {s : Sign} {m : Nat} {e : Int} {hm : 0 < m} (hleast : -1074 ≤ e)
    (hgreatest : e ≤ 971) : unpackExponent (pack Format.binary64 (.finite s m e hm)) ≠ -1#_ := by
  have hbias : Format.binary64.exponentBias = 1023 := rfl
  unfold pack
  dsimp only
  rw [hbias]
  split
  · rename_i hlarge
    exfalso
    omega
  · split
    · rw [unpackExponent_packComponents]
      exact (Double.exponentField_ne (by omega) (by omega)).1
    · rw [unpackExponent_packComponents]
      decide

/-- Packed again, what was unpacked is finite if it was. -/
theorem isFinite_unpack_pack (h : unpackExponent b ≠ -1#_) :
    (unpack Format.binary64 (pack Format.binary64 (unpack Format.binary64 b))).isFinite = true := by
  have hbias : Format.binary64.exponentBias = 1023 := rfl
  have hlt : (unpackExponent b).toNat < 2 ^ 11 := (unpackExponent b).isLt
  have hne : (unpackExponent b).toNat ≠ 2047 := fun hfull => h (BitVec.eq_of_toNat_eq hfull)
  rw [isFinite_unpack_iff]
  unfold unpack
  dsimp only
  rw [if_neg h, hbias]
  split
  · split
    · rw [pack, packedZero, unpackExponent_packComponents]
      decide
    · rename_i hzero _
      rw [hzero]
      exact unpackExponent_pack_ne (by decide) (by decide)
  · rename_i hnonzero
    have hpos : (unpackExponent b).toNat ≠ 0 := fun hz => hnonzero (BitVec.eq_of_toNat_eq hz)
    exact unpackExponent_pack_ne (by omega) (by omega)

end Unpacking

/-- **The magnitude of a finite double** is below infinity. -/
theorem magnitude_lt_of_isFinite {x : Float} (h : x.isFinite = true) :
    magnitude x < infinity := by
  have hexponent : ¬ x.toBits.toNat / 2 ^ 52 % 2 ^ 11 = 2047 :=
    mt unpackExponent_eq_iff.2 (isFinite_unpack_iff.1 h)
  have hinfinity : infinity = 2047 * 2 ^ 52 := rfl
  rw [magnitude, Nat.pow_eq]
  omega

/-- A finite magnitude gives a finite double. -/
theorem isFinite_ofParts (negative : Bool) {bits : Nat} (h : bits < infinity) :
    (ofParts negative bits).isFinite = true := by
  have hinfinity : infinity = 2047 * 2 ^ 52 := rfl
  have hbits : (UInt64.ofNat (if negative then bits + Nat.pow 2 63 else bits)).toNat =
      if negative then bits + Nat.pow 2 63 else bits := by
    rw [UInt64.toNat_ofNat', Nat.mod_eq_of_lt]
    rw [Nat.pow_eq]
    split <;> omega
  refine isFinite_unpack_pack (mt unpackExponent_eq_iff.1 ?_)
  show ¬ (UInt64.ofNat _).toNat / 2 ^ 52 % 2 ^ 11 = 2047
  rw [hbits, Nat.pow_eq]
  split <;> omega

end Binary64
end MultiSegmentWell
