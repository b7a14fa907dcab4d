/-
# Reading a deck from a value

SPEC_FULL.md, 6: `from_yaml_str` and `from_json_str`.

A `Source` says how the values of a data format give fields, items, numbers and
words; reading a deck is the same for all of them. A field that the schema does not
know is passed over, a field that it knows must not stand twice.

The entries of inflow control devices take their shared data from the same object
as their own. Everything in such an object but an autonomous device's own fields is
therefore first described as a plain value, whatever its name, and an entry with a
part that cannot be described is refused.
-/

import MultiSegmentWell.Deck.Schema

namespace MultiSegmentWell
namespace Deck

/-- How the values of a data format are read. -/
structure Source (V : Type) where
  /-- The fields of a value for a schema with these names. -/
  fields? : List String → V → Option (List (String × V))
  /-- The fields of a value that must name each of them. -/
  namedFields? : V → Option (List (String × V))
  /-- The value in plain form. -/
  describe? : V → Option Json
  items? : V → Option (List V)
  isNull : V → Bool
  integer? : V → Option Int
  natural? : V → Option Nat
  real? : V → Option Float
  text? : V → Option String
  /-- The name of an alternative without contents. -/
  word? : V → Option String

/-- The value of a field, if it is there; `none` where it stands twice. -/
def field? (fields : List (String × V)) (name : String) : Option (Option V) :=
  match fields.filter fun f => f.1 == name with
  | [] => some none
  | [(_, v)] => some (some v)
  | _ => none

/-- A field that must be there. -/
def required (fields : List (String × V)) (name : String) (read : V → Option α) : Option α :=
  match field? fields name with
  | some (some v) => read v
  | _ => none

/-- A field with a value of its own where it is left out. -/
def defaulted (fields : List (String × V)) (name : String) (fallback : α) (read : V → Option α) :
    Option α :=
  match field? fields name with
  | some (some v) => read v
  | some none => some fallback
  | none => none

/-- A field that may be left out or null. -/
def optional (fields : List (String × V)) (name : String) (isNull : V → Bool)
    (read : V → Option α) : Option (Option α) :=
  match field? fields name with
  | some (some v) => if isNull v then some none else (read v).map some
  | some none => some none
  | none => none

namespace Source

/-- An integer of 32 bits. -/
def int32? (source : Source V) (v : V) : Option Int :=
  (source.integer? v).filter fun n => -0x80000000 ≤ n && n < 0x80000000

/-- A natural number of 32 bits. -/
def nat32? (source : Source V) (v : V) : Option Nat :=
  (source.natural? v).filter fun n => n < 0x100000000

/-- A status. -/
def status? (source : Source V) (v : V) : Option Status := (source.word? v).bind statusOfName?

/-- A unit system. -/
def units? (source : Source V) (v : V) : Option UnitSystem := (source.word? v).bind unitsOfName?

/-- A list whose items are read alike. -/
def list? (source : Source V) (read : V → Option α) (v : V) : Option (List α) :=
  (source.items? v).bind fun items => items.mapM read

end Source

/-- A range of segments. -/
def RangeEntry.read (source : Source V) (v : V) : Option RangeEntry := do
  let fields ← source.fields? rangeFields v
  let real (name : String) := required fields name source.real?
  let integer (name : String) := required fields name source.int32?
  let optionalReal (name : String) := optional fields name source.isNull source.real?
  some {
    first := ← integer "segment1"
    last := ← integer "segment2"
    branch := ← integer "branch"
    join := ← integer "join_segment"
    length := ← real "length"
    depth := ← real "depth"
    diameter := ← real "diameter"
    roughness := ← real "roughness"
    area := ← optionalReal "area"
    volume := ← optionalReal "volume"
    x := ← defaulted fields "length_x" 0.0 source.real?
    y := ← defaulted fields "length_y" 0.0 source.real? }

/-- A segment tree. -/
def TreeEntry.read (source : Source V) (v : V) : Option TreeEntry := do
  let fields ← source.fields? treeFields v
  let real (name : String) := required fields name source.real?
  some {
    well := ← required fields "well" source.text?
    topDepth := ← real "top_depth"
    topLength := ← real "top_length"
    volume := ← real "wellbore_volume"
    mode := ← required fields "info_type" source.text?
    pressureDrop := ← defaulted fields "pressure_components" "HFA" source.text?
    flowModel := ← defaulted fields "flow_model" "HO" source.text?
    topX := ← defaulted fields "top_x" 0.0 source.real?
    topY := ← defaulted fields "top_y" 0.0 source.real?
    records := ← defaulted fields "records" [] (source.list? (RangeEntry.read source)) }

/-- The shared data of an inflow control device, from its fields. -/
def IcdEntry.readFields (source : Source V) (fields : List (String × V)) : Option IcdEntry := do
  let optionalReal (name : String) := optional fields name source.isNull source.real?
  some {
    segment := ← required fields "segment" source.int32?
    strength := ← required fields "strength" source.real?
    length := ← required fields "length" source.real?
    densityCalibration := ← optionalReal "density_calibration"
    viscosityCalibration := ← optionalReal "viscosity_calibration"
    criticalValue := ← optionalReal "critical_value"
    widthTransition := ← optionalReal "width_transition"
    maxViscosityRatio := ← optionalReal "max_viscosity_ratio"
    method := ← optional fields "method_scaling_factor" source.isNull source.int32?
    maxAbsoluteRate := ← optionalReal "max_absolute_rate"
    status := ← defaulted fields "status" .opened source.status? }

/-- Fields with their values in plain form. -/
def describeFields (source : Source V) (fields : List (String × V)) :
    Option (List (String × Json)) :=
  fields.mapM fun f => (source.describe? f.2).map fun v => (f.1, v)

/-- A spiral inflow control device; `plain` reads values in plain form. -/
def IcdEntry.read (source : Source V) (plain : Source Json) (v : V) : Option IcdEntry := do
  let fields ← source.namedFields? v
  IcdEntry.readFields plain (← describeFields source fields)

/-- An autonomous inflow control device; `plain` reads values in plain form. -/
def AutonomousIcdEntry.read (source : Source V) (plain : Source Json) (v : V) :
    Option AutonomousIcdEntry := do
  let fields ← source.namedFields? v
  let others := fields.filter fun f => !autonomousFields.contains f.1
  let icd ← IcdEntry.readFields plain (← describeFields source others)
  let optionalReal (name : String) := optional fields name source.isNull source.real?
  some {
    icd
    flowRateExponent := ← required fields "flow_rate_exponent" source.real?
    viscosityExponent := ← required fields "viscosity_exponent" source.real?
    oilFlowFraction := ← optionalReal "oil_flow_fraction"
    waterFlowFraction := ← optionalReal "water_flow_fraction"
    gasFlowFraction := ← optionalReal "gas_flow_fraction"
    oilViscosityFraction := ← optionalReal "oil_viscosity_fraction"
    waterViscosityFraction := ← optionalReal "water_viscosity_fraction"
    gasViscosityFraction := ← optionalReal "gas_viscosity_fraction" }

/-- A valve. -/
def ValveEntry.read (source : Source V) (v : V) : Option ValveEntry := do
  let fields ← source.fields? valveFields v
  let optionalReal (name : String) := optional fields name source.isNull source.real?
  some {
    segment := ← required fields "segment" source.int32?
    flowCoefficient := ← required fields "flow_coefficient" source.real?
    crossArea := ← required fields "cross_area" source.real?
    additionalLength := ← optionalReal "additional_length"
    pipeDiameter := ← optionalReal "pipe_diameter"
    pipeRoughness := ← optionalReal "pipe_roughness"
    pipeCrossArea := ← optionalReal "pipe_cross_area"
    maxCrossArea := ← optionalReal "max_cross_area"
    status := ← defaulted fields "status" .opened source.status? }

/-- A connection. -/
def ConnectionEntry.read (source : Source V) (v : V) : Option ConnectionEntry := do
  let fields ← source.fields? connectionFields v
  some {
    branch := ← defaulted fields "branch" 1 source.int32?
    start := ← required fields "perf_start" source.real?
    finish := ← required fields "perf_end" source.real?
    segment := ← optional fields "segment" source.isNull source.int32?
    centerDepth := ← optional fields "center_depth" source.isNull source.real? }

/-- A well. -/
def WellEntry.read (source : Source V) (plain : Source Json) (v : V) : Option WellEntry := do
  let fields ← source.fields? wellFields v
  some {
    tree := ← required fields "welsegs" (TreeEntry.read source)
    spiralIcds := ← defaulted fields "sicd" [] (source.list? (IcdEntry.read source plain))
    autonomousIcds :=
      ← defaulted fields "aicd" [] (source.list? (AutonomousIcdEntry.read source plain))
    valves := ← defaulted fields "valves" [] (source.list? (ValveEntry.read source))
    connections :=
      ← defaulted fields "connections" [] (source.list? (ConnectionEntry.read source)) }

/-- A deck. -/
def read (source : Source V) (plain : Source Json) (v : V) : Option Deck := do
  let fields ← source.fields? deckFields v
  some {
    version := ← required fields "version" source.nat32?
    units := ← defaulted fields "units" .metric source.units?
    wells := ← defaulted fields "wells" [] (source.list? (WellEntry.read source plain)) }

end Deck
end MultiSegmentWell
