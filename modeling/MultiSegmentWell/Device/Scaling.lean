/-
# Flow scaling of inflow control devices

SPEC_FULL.md, 4.6: `update_scaling_factor`.

The strength of an inflow control device is meant for one joint of pipe. Its
scaling factor carries it over to the segment, by one of four methods:

| method | factor | refused |
| --- | --- | --- |
| -1 | length over outlet length, or minus a negative length | length zero |
| 0 | length over outlet length | length not above zero |
| 1 | absolute length | |
| 2 | length over connection length | connection length zero |

Outlet length is the length of the segment's outlet, connection length the summed
length of the connections on the segment.
-/

import MultiSegmentWell.Error

namespace MultiSegmentWell
namespace Icd

/-- The factor that the method of the device gives. -/
def factor (icd : Icd) (outletLength connectionLength : Float) : Except SegmentError Float :=
  let refuse (fault : ScalingFault) := .error (.invalidScaling icd.method fault)
  if icd.method = -1 then
    if icd.length > 0.0 then .ok (icd.length / outletLength)
    else if icd.length < 0.0 then .ok icd.length.abs
    else refuse .zeroLength
  else if icd.method = 0 then
    if icd.length <= 0.0 then refuse .lengthNotPositive else .ok (icd.length / outletLength)
  else if icd.method = 1 then .ok icd.length.abs
  else if icd.method = 2 then
    if connectionLength == 0.0 then refuse .zeroConnectionLength
    else .ok (icd.length / connectionLength)
  else refuse .unknownMethod

/-- The device with its scaling factor computed anew. -/
def scale (icd : Icd) (outletLength connectionLength : Float) : Except SegmentError Icd :=
  (icd.factor outletLength connectionLength).map fun f => { icd with scalingFactor := some f }

end Icd

namespace Device

/-- A device with the shared data of an inflow control device replaced. -/
def withIcd (device : Device) (icd : Icd) : Device :=
  match device with
  | spiralIcd _ => spiralIcd icd
  | autonomousIcd a => autonomousIcd { a with icd }
  | other => other

end Device
end MultiSegmentWell
