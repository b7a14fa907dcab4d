/-
# Ranges of segment numbers

SPEC_FULL.md, 4.2: ranges of a record.

Segments that are given together have consecutive numbers. `numbersBetween` lists
the numbers of such a range, both ends included; a range that ends before it starts
has none.
-/

namespace MultiSegmentWell

/-- The numbers from `first` to `last`. -/
def numbersBetween (first last : Int) : List Int :=
  (List.range (last + 1 - first).toNat).map fun i => first + Int.ofNat i

/-- A range holds the numbers between its ends. -/
theorem mem_numbersBetween {first last n : Int} :
    n ∈ numbersBetween first last ↔ first ≤ n ∧ n ≤ last := by
  simp only [numbersBetween, List.mem_map, List.mem_range, Int.ofNat_eq_natCast]
  constructor
  · rintro ⟨i, hi, rfl⟩
    omega
  · rintro ⟨hf, hl⟩
    exact ⟨(n - first).toNat, by omega, by omega⟩

/-- A range of one number. -/
theorem numbersBetween_self (n : Int) : numbersBetween n n = [n] := by
  have h : (n + 1 - n).toNat = 1 := by omega
  rw [numbersBetween, h]
  simp

end MultiSegmentWell
