/-
# Known and unknown quantities

SPEC_FULL.md, 3: the invalid sentinel and the greatest relative roughness.

A length, a depth or a volume of a segment may not be known before the segment
tree is resolved. Such a quantity holds a finite marker far below every physical
value, so that comparisons with it keep their meaning.

A pipe whose roughness is large against its diameter has no friction factor. The
greatest admissible ratio of the two is `maxRelativeRoughness`.
-/

namespace MultiSegmentWell
namespace Quantity

/-- Marks a quantity that is not known yet. -/
def unknown : Float := -1.0e100

/-- A quantity is known when it lies above the marker. -/
def isKnown (v : Float) : Bool := v > unknown

/-- Being known is lying above the marker. -/
theorem isKnown_iff {v : Float} : isKnown v = true ↔ unknown < v := decide_eq_true_iff

/-- The marker is not a known quantity. -/
theorem isKnown_unknown : isKnown unknown = false := by decide +kernel

/-- The base of the power in the greatest ratio of roughness and diameter. -/
def frictionBase : Float := (1.0 - 1.0e-3) - 6.9 / 4000.0

/-- The double nearest to `frictionBase ^ (9 / 10)`. Powers are not among the operations that
doubles round exactly, so the result is given here. -/
def frictionPower : Float := 0.9975471655125219

/-- The ratio of roughness and diameter at which the argument of the logarithm in
Haaland's friction factor reaches its bound for a Reynolds number of 4000:
`3.7 · ((1 - 10⁻³) - 6.9 / 4000) ^ (9 / 10)`. -/
def maxRelativeRoughness : Float := 3.7 * frictionPower

example : maxRelativeRoughness = 3.690924512396331 := by decide

/-- A ratio of roughness and diameter, limited to the admissible ones; a ratio
that is no number is limited too. -/
def limitRatio (ratio : Float) : Float :=
  if ratio < maxRelativeRoughness then ratio else maxRelativeRoughness

/-- The roughness closest to the given one that a pipe of this diameter admits. -/
def limitRoughness (diameter roughness : Float) : Float :=
  diameter * limitRatio (roughness / diameter)

end Quantity
end MultiSegmentWell
