/-
# Equipping segments

SPEC_FULL.md, 4.6: `update_devices`, `update_devices_scaled` and `update_perf_length`.

Devices are attached to the segments as they were before the call, and the results
are stored one after the other, so of several devices for one segment the last
counts. Where friction is not part of the pressure drop, only regular segments are
possible. A valve needs the length of its segment.

Scaled devices are inflow control devices whose scaling factor is computed first,
from the length of the outlet of their segment and the connections on it.
-/

import MultiSegmentWell.Device.Scaling
import MultiSegmentWell.SegmentSet.Basic

namespace MultiSegmentWell
namespace SegmentSet

/-- Whether the pressure drop allows the devices. -/
def requireFriction (s : SegmentSet) (devices : List (Int × Device)) : Except SegmentError Unit :=
  if s.pressureDrop.includesFriction then .ok ()
  else
    match devices.find? fun (_, d) => d.kind != .regular with
    | some (_, d) => .error (.frictionRequired s.well d.kind)
    | none => .ok ()

/-- The length that attaching a device to a segment needs. -/
def attachmentLength (s : SegmentSet) (number : Int) (device : Device) : Except SegmentError Float :=
  match device with
  | .valve _ => s.segmentLength number
  | _ => .ok 0.0

/-- The segment with a number, with a device attached. -/
def equipped (s : SegmentSet) (number : Int) (device : Device) : Except SegmentError Segment := do
  let segment ← s.get number
  let length ← s.attachmentLength number device
  .ok (segment.attach device length)

/-- The set with devices attached to segments. -/
def attachDevices (s : SegmentSet) (devices : List (Int × Device)) :
    Except SegmentError SegmentSet := do
  s.requireFriction devices
  let segments ← devices.mapM fun (number, device) => s.equipped number device
  .ok (s.addAll segments)

/-- A device with its scaling factor computed, if it is an inflow control device. -/
def scaledDevice (s : SegmentSet) (connections : List Connection) (number : Int) (device : Device) :
    Except SegmentError Device :=
  match device.icd? with
  | none => .ok device
  | some icd => do
    let segment ← s.get number
    let outletLength ← s.segmentLength segment.outlet
    (icd.scale outletLength (Connection.perfLength connections number)).map device.withIcd

/-- The set with devices attached after scaling them. -/
def attachScaledDevices (s : SegmentSet) (devices : List (Int × Device))
    (connections : List Connection) : Except SegmentError SegmentSet := do
  s.requireFriction devices
  let scaled ← devices.mapM fun (number, device) =>
    (s.scaledDevice connections number device).map fun d => (number, d)
  s.attachDevices scaled

/-- The set with the summed length of the connections assigned to every segment. -/
def assignPerfLengths (s : SegmentSet) (connections : List Connection) : SegmentSet :=
  { s with
    segments := s.segments.map fun t =>
      t.withPerfLength (Connection.perfLength connections t.number) }

end SegmentSet
end MultiSegmentWell
