/-
# Binary64 magnitudes

A finite double of magnitude `m · 2 ^ q` is kept as the pair `m`, `q`, with
`2 ^ 52 ≤ m < 2 ^ 53` for a normal number and `q = -1074`, `m < 2 ^ 52` for a
subnormal one. The 63 magnitude bits of the pair are `(q + 1074) · 2 ^ 52 + m`:
the leading bit of a normal `m` is not stored, and adding it to the exponent
field instead gives the biased exponent. The same sum carries a mantissa that
was rounded up to `2 ^ 53` into the next binade.

`nearest` rounds a ratio of naturals to the closest such magnitude, a half to
the even neighbour, and gives infinity from the midpoint above the largest
finite magnitude on.
-/

namespace MultiSegmentWell
namespace Binary64

/-- The magnitude bits of infinity. -/
def infinity : Nat := 0x7FF * Nat.pow 2 52

/-- `num / den` rounded to a natural number, a half to the even neighbour. -/
def roundHalfEven (num den : Nat) : Nat :=
  let quotient := num / den
  let twice := 2 * (num % den)
  if twice < den then quotient
  else if den < twice then quotient + 1
  else quotient + quotient % 2

/-- `num · base ^ power / den` as a ratio of naturals, for a power of any sign. -/
def scaled (num den base : Nat) (power : Int) : Nat × Nat :=
  if 0 ≤ power then (num * Nat.pow base power.toNat, den) else (num, den * Nat.pow base (-power).toNat)

/-- The exponent `e` with `2 ^ e ≤ num / den < 2 ^ (e + 1)`, for positive `num` and `den`. -/
def binade (num den : Nat) : Int :=
  let e : Int := (num.log2 : Int) - den.log2
  let (n, d) := scaled num den 2 (-e)
  if d ≤ n then e else e - 1

/-- The magnitude bits of the double nearest to `num / den`, for a positive `den`. -/
def nearest (num den : Nat) : Nat :=
  if num = 0 then 0
  else
    let q := max (binade num den - 52) (-1074)
    let (n, d) := scaled num den 2 (-q)
    min infinity ((q + 1074).toNat * Nat.pow 2 52 + roundHalfEven n d)

/-- The mantissa `m` of finite magnitude bits. -/
def mantissa (bits : Nat) : Nat :=
  if bits < Nat.pow 2 52 then bits else bits % Nat.pow 2 52 + Nat.pow 2 52

/-- The exponent `q` of finite magnitude bits. -/
def exponent (bits : Nat) : Int :=
  if bits < Nat.pow 2 52 then -1074 else (bits / Nat.pow 2 52 : Nat) - 1075

/-- The magnitude of finite bits as a ratio of naturals. -/
def ratio (bits : Nat) : Nat × Nat :=
  scaled (mantissa bits) 1 2 (exponent bits)

/-- The magnitude bits of a double, its sign left out. -/
def magnitude (x : Float) : Nat := x.toBits.toNat % Nat.pow 2 63

/-- Whether the sign bit of a double is set. -/
def isNegative (x : Float) : Bool := Nat.pow 2 63 ≤ x.toBits.toNat

/-- The double with the given sign and magnitude bits. -/
def ofParts (negative : Bool) (bits : Nat) : Float :=
  Float.ofBits (UInt64.ofNat (if negative then bits + Nat.pow 2 63 else bits))

end Binary64
end MultiSegmentWell
