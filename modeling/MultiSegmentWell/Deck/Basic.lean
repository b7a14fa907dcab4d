/-
# Decks

SPEC_FULL.md, 6: the deck description file.

A deck holds, for each of its wells, the data of the segment tree and the devices
and connections on its segments, all in the units of the deck. Settings are kept as
the words that the deck gives. What may be left out is optional here unless leaving
it out means the same as a fixed value.
-/

import MultiSegmentWell.Device.Basic
import MultiSegmentWell.Units

namespace MultiSegmentWell
namespace Deck

/-- The segments with numbers from `first` to `last`. -/
structure RangeEntry where
  first : Int
  last : Int
  branch : Int
  join : Int
  length : Float
  depth : Float
  diameter : Float
  roughness : Float
  area : Option Float := none
  volume : Option Float := none
  x : Float := 0.0
  y : Float := 0.0
deriving Repr, DecidableEq

/-- The segment tree of a well. -/
structure TreeEntry where
  well : String
  topDepth : Float
  topLength : Float
  volume : Float
  mode : String
  pressureDrop : String := "HFA"
  flowModel : String := "HO"
  topX : Float := 0.0
  topY : Float := 0.0
  records : List RangeEntry := []
deriving Repr, DecidableEq

/-- The data that spiral and autonomous inflow control devices share. -/
structure IcdEntry where
  segment : Int
  strength : Float
  length : Float
  densityCalibration : Option Float := none
  viscosityCalibration : Option Float := none
  criticalValue : Option Float := none
  widthTransition : Option Float := none
  maxViscosityRatio : Option Float := none
  method : Option Int := none
  maxAbsoluteRate : Option Float := none
  status : Status := .opened
deriving Repr, DecidableEq

/-- An autonomous inflow control device. -/
structure AutonomousIcdEntry where
  icd : IcdEntry
  flowRateExponent : Float
  viscosityExponent : Float
  oilFlowFraction : Option Float := none
  waterFlowFraction : Option Float := none
  gasFlowFraction : Option Float := none
  oilViscosityFraction : Option Float := none
  waterViscosityFraction : Option Float := none
  gasViscosityFraction : Option Float := none
deriving Repr, DecidableEq

/-- A valve. -/
structure ValveEntry where
  segment : Int
  flowCoefficient : Float
  crossArea : Float
  additionalLength : Option Float := none
  pipeDiameter : Option Float := none
  pipeRoughness : Option Float := none
  pipeCrossArea : Option Float := none
  maxCrossArea : Option Float := none
  status : Status := .opened
deriving Repr, DecidableEq

/-- A perforated interval. -/
structure ConnectionEntry where
  branch : Int := 1
  start : Float
  finish : Float
  segment : Option Int := none
  centerDepth : Option Float := none
deriving Repr, DecidableEq

/-- A well with everything on it. -/
structure WellEntry where
  tree : TreeEntry
  spiralIcds : List IcdEntry := []
  autonomousIcds : List AutonomousIcdEntry := []
  valves : List ValveEntry := []
  connections : List ConnectionEntry := []
deriving Repr, DecidableEq

/-- The name of a well. -/
def WellEntry.name (w : WellEntry) : String := w.tree.well

/-- The number of devices of a well. -/
def WellEntry.deviceCount (w : WellEntry) : Nat :=
  w.spiralIcds.length + w.autonomousIcds.length + w.valves.length

end Deck

/-- A deck. -/
structure Deck where
  version : Nat
  units : UnitSystem := .metric
  wells : List Deck.WellEntry := []
deriving Repr, DecidableEq

namespace Deck

/-- The word for a status in a deck. -/
def statusName : Status → String
  | .opened => "OPEN"
  | .shut => "SHUT"

/-- The status that a word names. -/
def statusOfName? (name : String) : Option Status :=
  [Status.opened, .shut].find? fun s => statusName s == name

/-- The word for a unit system in a deck. -/
def unitsName : UnitSystem → String
  | .metric => "metric"
  | .field => "field"
  | .lab => "lab"

/-- The unit system that a word names. -/
def unitsOfName? (name : String) : Option UnitSystem :=
  UnitSystem.all.find? fun u => unitsName u == name

/-- Reading the word for a status gives the status. -/
theorem statusOfName?_statusName (s : Status) : statusOfName? (statusName s) = some s := by
  cases s <;> decide +kernel

/-- Reading the word for a unit system gives the unit system. -/
theorem unitsOfName?_unitsName (u : UnitSystem) : unitsOfName? (unitsName u) = some u := by
  cases u <;> decide +kernel

end Deck
end MultiSegmentWell
