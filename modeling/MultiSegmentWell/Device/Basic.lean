/-
# Devices on segments

SPEC_FULL.md, 3 and 4.1: devices, their types and the data of each.

A segment carries at most one device: a spiral inflow control device, an
autonomous one or a valve. The two kinds of inflow control device share their
calibration and their flow scaling.

Pipe data of a valve that is not given is taken from the segment when the valve is
attached, so it is optional here.
-/

namespace MultiSegmentWell

/-- Whether a device lets flow through. -/
inductive Status where
  | opened
  | shut
deriving Repr, DecidableEq, Inhabited

/-- Calibration and flow scaling of an inflow control device. -/
structure Icd where
  strength : Float
  /-- The length of the device; a negative one is a scaling factor. -/
  length : Float
  densityCalibration : Float := 1000.25
  viscosityCalibration : Float := 1.45e-3
  /-- The water fraction at which the emulsion changes its continuous phase. -/
  criticalValue : Float := 0.5
  widthTransitionRegion : Float := 0.05
  maxViscosityRatio : Float := 5.0
  /-- The scaling method: -1, 0, 1 or 2. -/
  method : Int := -1
  maxAbsoluteRate : Option Float := none
  status : Status := .opened
  /-- The flow scaling factor once it is computed. -/
  scalingFactor : Option Float := none
deriving Repr, DecidableEq

/-- An inflow control device that reacts to the phases flowing through it. -/
structure AutonomousIcd where
  icd : Icd
  flowRateExponent : Float
  viscosityExponent : Float
  oilFlowFraction : Float := 1.0
  waterFlowFraction : Float := 1.0
  gasFlowFraction : Float := 1.0
  oilViscosityFraction : Float := 1.0
  waterViscosityFraction : Float := 1.0
  gasViscosityFraction : Float := 1.0
deriving Repr, DecidableEq

/-- A valve that constricts the flow. -/
structure Valve where
  flowCoefficient : Float
  crossArea : Float
  maxCrossArea : Option Float := none
  additionalLength : Option Float := none
  pipeDiameter : Option Float := none
  pipeRoughness : Option Float := none
  pipeCrossArea : Option Float := none
  status : Status := .opened
deriving Repr, DecidableEq

/-- What a segment carries. -/
inductive Device where
  | regular
  | spiralIcd (icd : Icd)
  | autonomousIcd (icd : AutonomousIcd)
  | valve (valve : Valve)
deriving Repr, DecidableEq

/-- The kind of a segment, which its device decides. -/
inductive DeviceKind where
  | regular
  | spiralIcd
  | autonomousIcd
  | valve
deriving Repr, DecidableEq

namespace DeviceKind

/-- What a kind of segment is called. -/
def name : DeviceKind → String
  | regular => "regular"
  | spiralIcd => "spiral ICD"
  | autonomousIcd => "autonomous ICD"
  | valve => "valve"

/-- The number of a kind of segment in simulation output. -/
def typeId : DeviceKind → Int
  | regular => -1
  | spiralIcd => -7
  | autonomousIcd => -8
  | valve => -5

end DeviceKind

namespace Device

/-- The kind of a device. -/
def kind : Device → DeviceKind
  | regular => .regular
  | spiralIcd _ => .spiralIcd
  | autonomousIcd _ => .autonomousIcd
  | valve _ => .valve

/-- The shared data of an inflow control device of either kind. -/
def icd? : Device → Option Icd
  | spiralIcd icd => some icd
  | autonomousIcd a => some a.icd
  | _ => none

/-- The spiral inflow control device, if it is one. -/
def spiralIcd? : Device → Option Icd
  | spiralIcd icd => some icd
  | _ => none

/-- The autonomous inflow control device, if it is one. -/
def autonomousIcd? : Device → Option AutonomousIcd
  | autonomousIcd a => some a
  | _ => none

/-- The valve, if it is one. -/
def valve? : Device → Option Valve
  | valve v => some v
  | _ => none

end Device
end MultiSegmentWell
