/-
# Converting a deck to SI units

SPEC_FULL.md, 6: `well_input`.

What a deck gives for a well, in SI units and with the words for settings read. Only
lengths, areas and volumes have units here. The length of an inflow control device
has one where it is positive; otherwise it is a scaling factor.
-/

import MultiSegmentWell.Connection
import MultiSegmentWell.Deck.Basic
import MultiSegmentWell.Record

namespace MultiSegmentWell

/-- What a well is built from. -/
structure WellInput where
  definition : TreeDefinition
  /-- Spiral devices, then autonomous ones, then valves, each with its segment. -/
  devices : List (Int × Device)
  perforations : List Perforation
deriving Repr, DecidableEq

namespace Deck

variable [UnitConversions]

/-- A range of segments in SI units. -/
def RangeEntry.toRecord (r : RangeEntry) (units : UnitSystem) : RangeRecord where
  first := r.first
  last := r.last
  branch := r.branch
  join := r.join
  node := ⟨units.lengthToSI r.length, units.lengthToSI r.depth, units.lengthToSI r.x,
    units.lengthToSI r.y⟩
  diameter := units.lengthToSI r.diameter
  roughness := units.lengthToSI r.roughness
  area := r.area.map units.areaToSI
  volume := r.volume.map units.volumeToSI

/-- The node of the top segment in SI units. -/
def TreeEntry.topNode (t : TreeEntry) (units : UnitSystem) : Node where
  length := units.lengthToSI t.topLength
  depth := units.lengthToSI t.topDepth
  x := units.lengthToSI t.topX
  y := units.lengthToSI t.topY

/-- A segment tree in SI units. -/
def TreeEntry.toDefinition (t : TreeEntry) (units : UnitSystem) :
    Except SegmentError TreeDefinition := do
  let mode ← GeometryMode.ofText t.mode
  let pressureDrop ← PressureDrop.ofText t.pressureDrop
  let flowModel ← FlowModel.ofText t.flowModel
  .ok {
    header := {
      well := t.well
      top := t.topNode units
      volume := units.volumeToSI t.volume
      mode
      pressureDrop
      flowModel }
    records := t.records.map fun r => r.toRecord units }

/-- The shared data of an inflow control device in SI units. -/
def IcdEntry.toIcd (d : IcdEntry) (units : UnitSystem) : Icd :=
  let defaults : Icd := { strength := d.strength, length := d.length }
  { defaults with
    length := if d.length > 0.0 then units.lengthToSI d.length else d.length
    densityCalibration := d.densityCalibration.getD defaults.densityCalibration
    viscosityCalibration := d.viscosityCalibration.getD defaults.viscosityCalibration
    criticalValue := d.criticalValue.getD defaults.criticalValue
    widthTransitionRegion := d.widthTransition.getD defaults.widthTransitionRegion
    maxViscosityRatio := d.maxViscosityRatio.getD defaults.maxViscosityRatio
    method := d.method.getD defaults.method
    maxAbsoluteRate := d.maxAbsoluteRate
    status := d.status }

/-- An autonomous inflow control device in SI units. -/
def AutonomousIcdEntry.toDevice (d : AutonomousIcdEntry) (units : UnitSystem) : AutonomousIcd where
  icd := d.icd.toIcd units
  flowRateExponent := d.flowRateExponent
  viscosityExponent := d.viscosityExponent
  oilFlowFraction := d.oilFlowFraction.getD 1.0
  waterFlowFraction := d.waterFlowFraction.getD 1.0
  gasFlowFraction := d.gasFlowFraction.getD 1.0
  oilViscosityFraction := d.oilViscosityFraction.getD 1.0
  waterViscosityFraction := d.waterViscosityFraction.getD 1.0
  gasViscosityFraction := d.gasViscosityFraction.getD 1.0

/-- A valve in SI units. -/
def ValveEntry.toValve (v : ValveEntry) (units : UnitSystem) : Valve where
  flowCoefficient := v.flowCoefficient
  crossArea := units.areaToSI v.crossArea
  maxCrossArea := v.maxCrossArea.map units.areaToSI
  additionalLength := v.additionalLength.map units.lengthToSI
  pipeDiameter := v.pipeDiameter.map units.lengthToSI
  pipeRoughness := v.pipeRoughness.map units.lengthToSI
  pipeCrossArea := v.pipeCrossArea.map units.areaToSI
  status := v.status

/-- A connection in SI units. -/
def ConnectionEntry.toPerforation (c : ConnectionEntry) (units : UnitSystem) : Perforation where
  branch := c.branch
  start := units.lengthToSI c.start
  finish := units.lengthToSI c.finish
  segment := c.segment
  centerDepth := c.centerDepth.map units.lengthToSI

/-- The devices of a well with their segments. -/
def WellEntry.devices (w : WellEntry) (units : UnitSystem) : List (Int × Device) :=
  w.spiralIcds.map (fun d => (d.segment, .spiralIcd (d.toIcd units)))
  ++ w.autonomousIcds.map (fun d => (d.icd.segment, .autonomousIcd (d.toDevice units)))
  ++ w.valves.map (fun v => (v.segment, .valve (v.toValve units)))

/-- A well in SI units. -/
def WellEntry.toInput (w : WellEntry) (units : UnitSystem) : Except SegmentError WellInput := do
  let definition ← w.tree.toDefinition units
  .ok {
    definition
    devices := w.devices units
    perforations := w.connections.map fun c => c.toPerforation units }

end Deck
end MultiSegmentWell
