/-
# The schema of a deck

SPEC_FULL.md, 6: the deck description file.

The names of the fields of each part of a deck, in their order, and a deck as a
value with these fields. A field that is not given is left out, and so is an empty
list of devices or connections. The data of an autonomous inflow control device
follows the data that it shares with a spiral one, in one object.
-/

import MultiSegmentWell.Deck.Basic
import MultiSegmentWell.Json.Basic

namespace MultiSegmentWell
namespace Deck

/-- The fields of a deck. -/
def deckFields : List String := ["version", "units", "wells"]

/-- The fields of a well. -/
def wellFields : List String := ["welsegs", "sicd", "aicd", "valves", "connections"]

/-- The fields of a segment tree. -/
def treeFields : List String :=
  ["well", "top_depth", "top_length", "wellbore_volume", "info_type", "pressure_components",
    "flow_model", "top_x", "top_y", "records"]

/-- The fields of a range of segments. -/
def rangeFields : List String :=
  ["segment1", "segment2", "branch", "join_segment", "length", "depth", "diameter", "roughness",
    "area", "volume", "length_x", "length_y"]

/-- The fields of an autonomous inflow control device that it does not share. -/
def autonomousFields : List String :=
  ["flow_rate_exponent", "viscosity_exponent", "oil_flow_fraction", "water_flow_fraction",
    "gas_flow_fraction", "oil_viscosity_fraction", "water_viscosity_fraction",
    "gas_viscosity_fraction"]

/-- The fields of a valve. -/
def valveFields : List String :=
  ["segment", "flow_coefficient", "cross_area", "additional_length", "pipe_diameter",
    "pipe_roughness", "pipe_cross_area", "max_cross_area", "status"]

/-- The fields of a connection. -/
def connectionFields : List String :=
  ["branch", "perf_start", "perf_end", "segment", "center_depth"]

/-- A range of segments as a value. -/
def RangeEntry.toJson (r : RangeEntry) : Json :=
  .ofFields <|
    [("segment1", .integer r.first), ("segment2", .integer r.last), ("branch", .integer r.branch),
      ("join_segment", .integer r.join), ("length", .real r.length), ("depth", .real r.depth),
      ("diameter", .real r.diameter), ("roughness", .real r.roughness)]
    ++ Json.optionalField "area" .real r.area
    ++ Json.optionalField "volume" .real r.volume
    ++ [("length_x", .real r.x), ("length_y", .real r.y)]

/-- A segment tree as a value. -/
def TreeEntry.toJson (t : TreeEntry) : Json :=
  .ofFields
    [("well", .text t.well), ("top_depth", .real t.topDepth), ("top_length", .real t.topLength),
      ("wellbore_volume", .real t.volume), ("info_type", .text t.mode),
      ("pressure_components", .text t.pressureDrop), ("flow_model", .text t.flowModel),
      ("top_x", .real t.topX), ("top_y", .real t.topY),
      ("records", .list (t.records.map RangeEntry.toJson))]

/-- The shared data of an inflow control device as fields. -/
def IcdEntry.fields (d : IcdEntry) : List (String × Json) :=
  [("segment", .integer d.segment), ("strength", .real d.strength), ("length", .real d.length)]
  ++ Json.optionalField "density_calibration" .real d.densityCalibration
  ++ Json.optionalField "viscosity_calibration" .real d.viscosityCalibration
  ++ Json.optionalField "critical_value" .real d.criticalValue
  ++ Json.optionalField "width_transition" .real d.widthTransition
  ++ Json.optionalField "max_viscosity_ratio" .real d.maxViscosityRatio
  ++ Json.optionalField "method_scaling_factor" .integer d.method
  ++ Json.optionalField "max_absolute_rate" .real d.maxAbsoluteRate
  ++ [("status", .text (statusName d.status))]

/-- A spiral inflow control device as a value. -/
def IcdEntry.toJson (d : IcdEntry) : Json := .ofFields d.fields

/-- An autonomous inflow control device as a value. -/
def AutonomousIcdEntry.toJson (d : AutonomousIcdEntry) : Json :=
  .ofFields <|
    d.icd.fields
    ++ [("flow_rate_exponent", .real d.flowRateExponent),
      ("viscosity_exponent", .real d.viscosityExponent)]
    ++ Json.optionalField "oil_flow_fraction" .real d.oilFlowFraction
    ++ Json.optionalField "water_flow_fraction" .real d.waterFlowFraction
    ++ Json.optionalField "gas_flow_fraction" .real d.gasFlowFraction
    ++ Json.optionalField "oil_viscosity_fraction" .real d.oilViscosityFraction
    ++ Json.optionalField "water_viscosity_fraction" .real d.waterViscosityFraction
    ++ Json.optionalField "gas_viscosity_fraction" .real d.gasViscosityFraction

/-- A valve as a value. -/
def ValveEntry.toJson (v : ValveEntry) : Json :=
  .ofFields <|
    [("segment", .integer v.segment), ("flow_coefficient", .real v.flowCoefficient),
      ("cross_area", .real v.crossArea)]
    ++ Json.optionalField "additional_length" .real v.additionalLength
    ++ Json.optionalField "pipe_diameter" .real v.pipeDiameter
    ++ Json.optionalField "pipe_roughness" .real v.pipeRoughness
    ++ Json.optionalField "pipe_cross_area" .real v.pipeCrossArea
    ++ Json.optionalField "max_cross_area" .real v.maxCrossArea
    ++ [("status", .text (statusName v.status))]

/-- A connection as a value. -/
def ConnectionEntry.toJson (c : ConnectionEntry) : Json :=
  .ofFields <|
    [("branch", .integer c.branch), ("perf_start", .real c.start), ("perf_end", .real c.finish)]
    ++ Json.optionalField "segment" .integer c.segment
    ++ Json.optionalField "center_depth" .real c.centerDepth

/-- A well as a value. -/
def WellEntry.toJson (w : WellEntry) : Json :=
  .ofFields <|
    [("welsegs", w.tree.toJson)]
    ++ Json.listField "sicd" IcdEntry.toJson w.spiralIcds
    ++ Json.listField "aicd" AutonomousIcdEntry.toJson w.autonomousIcds
    ++ Json.listField "valves" ValveEntry.toJson w.valves
    ++ Json.listField "connections" ConnectionEntry.toJson w.connections

/-- A deck as a value. -/
def toJson (d : Deck) : Json :=
  .ofFields
    [("version", .integer d.version), ("units", .text (unitsName d.units)),
      ("wells", .list (d.wells.map WellEntry.toJson))]

end Deck
end MultiSegmentWell
