/-
# Unit systems

SPEC_FULL.md, 2: unit systems; 6: the conversion of lengths; 10: of areas and volumes.

Decks give lengths, areas and volumes in one of three unit systems; segments hold
them in metres, square metres and cubic metres. Metric values are taken as they are.

The conversions of feet and centimetres are not part of this library: they are given
as `UnitConversions`, and what is proved of wells holds for all of them. Programs run
with the conversions `bySize`, which multiply a value with the size of its unit and
take the rounded reciprocal of that size for the way back.
-/

import MultiSegmentWell.Text.Blank

namespace MultiSegmentWell

/-- A system of units for lengths, areas and volumes. -/
inductive UnitSystem where
  | metric
  | field
  | lab
deriving Repr, DecidableEq, Inhabited

namespace UnitSystem

/-- The name of a unit system in a deck. -/
def name : UnitSystem → String
  | metric => "METRIC"
  | field => "FIELD"
  | lab => "LAB"

/-- The name of the unit of length. -/
def lengthName : UnitSystem → String
  | metric => "meters"
  | field => "feet"
  | lab => "cm"

/-- All unit systems. -/
def all : List UnitSystem := [metric, field, lab]

/-- The unit system with a name, blanks around it and the case of its letters aside. -/
def ofText? (text : String) : Option UnitSystem :=
  all.find? fun units => units.name == Text.toAsciiUpper (Text.trim text)

/-- The message about a text that names no unit system. -/
def unknownMessage (text : String) : String :=
  "Unknown unit system '" ++ text ++ "' (expected metric, field or lab)"

end UnitSystem

/-- The conversions of feet and centimetres, of their squares and of their cubes. -/
class UnitConversions where
  metresOfFeet : Float → Float
  feetOfMetres : Float → Float
  metresOfCentimetres : Float → Float
  centimetresOfMetres : Float → Float
  squareMetresOfSquareFeet : Float → Float
  squareMetresOfSquareCentimetres : Float → Float
  cubicMetresOfCubicFeet : Float → Float
  cubicMetresOfCubicCentimetres : Float → Float

namespace UnitConversions

/-- The size of a foot in metres. -/
def foot : Float := 0.3048

/-- The size of a centimetre in metres. -/
def centimetre : Float := 0.01

/-- The conversions by the sizes of the units. -/
instance bySize : UnitConversions where
  metresOfFeet v := v * foot / 1.0
  feetOfMetres v := v * (1.0 / foot)
  metresOfCentimetres v := v * centimetre / 1.0
  centimetresOfMetres v := v * (1.0 / centimetre)
  squareMetresOfSquareFeet v := v * 0.09290304 / 1.0
  squareMetresOfSquareCentimetres v := v * (centimetre * centimetre) / 1.0
  cubicMetresOfCubicFeet v := v * 0.02831685 / 1.0
  cubicMetresOfCubicCentimetres v := v * (centimetre * centimetre * centimetre) / 1.0

end UnitConversions

namespace UnitSystem

variable [UnitConversions]

/-- A length in metres. -/
def lengthToSI (units : UnitSystem) (v : Float) : Float :=
  match units with
  | metric => v
  | field => UnitConversions.metresOfFeet v
  | lab => UnitConversions.metresOfCentimetres v

/-- A length in metres in the unit of the system. -/
def lengthFromSI (units : UnitSystem) (v : Float) : Float :=
  match units with
  | metric => v
  | field => UnitConversions.feetOfMetres v
  | lab => UnitConversions.centimetresOfMetres v

/-- An area in square metres. -/
def areaToSI (units : UnitSystem) (v : Float) : Float :=
  match units with
  | metric => v
  | field => UnitConversions.squareMetresOfSquareFeet v
  | lab => UnitConversions.squareMetresOfSquareCentimetres v

/-- A volume in cubic metres. -/
def volumeToSI (units : UnitSystem) (v : Float) : Float :=
  match units with
  | metric => v
  | field => UnitConversions.cubicMetresOfCubicFeet v
  | lab => UnitConversions.cubicMetresOfCubicCentimetres v

end UnitSystem
end MultiSegmentWell
