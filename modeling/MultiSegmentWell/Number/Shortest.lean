/-
# Shortest digits

The decimal that stands for a finite double is the one with the fewest digits
among those that read back to the same double, and of several such the nearest
to the exact value. `shortest` tries the grids `10 ^ k` from coarse to fine: a
grid has a decimal that reads back only if one of the two grid points around the
exact value does, so those two are tried.

Two grid points can be equally near. Which one is taken is a choice of the
notation that writes the number, given as `Tie`.

The first grid is coarser than the value itself, and seventeen digits always
suffice, so nineteen grids are tried. The exact expansion, which stands after
them, reads back for every double.
-/

import MultiSegmentWell.Number.Numeral

namespace MultiSegmentWell

/-- Which of two equally near decimals is written. -/
inductive Tie where
  /-- The one whose last digit is even. -/
  | toEven
  /-- The larger one. -/
  | up
deriving Repr, DecidableEq

/-- The positive decimal `digits · 10 ^ power`. -/
structure Decimal where
  digits : Nat
  power : Int
deriving Repr, DecidableEq

namespace Decimal

/-- Whether a decimal reads back to the double with these magnitude bits. -/
def readsBack (bits : Nat) (d : Decimal) : Bool :=
  Numeral.nearest d.digits d.power == bits

/-- A power `k` with `10 ^ k` above the magnitude: `30103 / 100000` is a little more
than `log 2 / log 10`. -/
def powerAbove (bits : Nat) : Int :=
  (((Binary64.mantissa bits).log2 : Int) + 1 + Binary64.exponent bits) * 30103 / 100000 + 1

/-- The decimal that reads back on the grid `10 ^ power`, if there is one. -/
def onGrid? (tie : Tie) (bits : Nat) (power : Int) : Option Decimal :=
  let (m, w) := Binary64.ratio bits
  let (num, den) := Binary64.scaled m w 10 (-power)
  let below : Decimal := ⟨num / den, power⟩
  let above : Decimal := ⟨num / den + 1, power⟩
  let twice := 2 * (num % den)
  let upper := match tie with
    | .toEven => den < twice || (twice == den && below.digits % 2 == 1)
    | .up => den ≤ twice
  match readsBack bits below, readsBack bits above with
  | true, true => some (if upper then above else below)
  | true, false => some below
  | false, true => some above
  | false, false => none

/-- The decimal on the coarsest of `count` grids from `10 ^ power` down. -/
def search (tie : Tie) (bits : Nat) : (count : Nat) → (power : Int) → Option Decimal
  | 0, _ => none
  | count + 1, power =>
    match onGrid? tie bits power with
    | some d => some d
    | none => search tie bits count (power - 1)

/-- The exact value of the magnitude: `m · 2 ^ q` is `m · 5 ^ (-q) · 10 ^ q` for `q < 0`. -/
def exact (bits : Nat) : Decimal :=
  let m := Binary64.mantissa bits
  let q := Binary64.exponent bits
  if 0 ≤ q then ⟨m * Nat.pow 2 q.toNat, 0⟩ else ⟨m * Nat.pow 5 (-q).toNat, q⟩

/-- The fewest digits that read back to the double with these magnitude bits. -/
def shortest (tie : Tie) (bits : Nat) : Decimal :=
  if bits = 0 then ⟨0, 0⟩
  else (search tie bits 19 (powerAbove bits)).getD (exact bits)

end Decimal
end MultiSegmentWell
