/-
# Operations in place

SPEC_FULL.md, 4.2 to 4.6: the operations on a set, step by step.

Every operation on a set as the steps that it takes, one after the other, on a set that
is changed in place. A failure may come between any two of them: at a record after
earlier ones have been expanded, at a device after others have been scaled, at a
segment after others have changed places.

Loading and processing work on a set of their own, which takes the place of the old one
at the end. A pass over it is taken as a single step, since what is left of it by a failing
one is lost anyway. Devices are attached to copies of all segments before the first of them is
stored. Ordering swaps segments and enters them at their new positions one by one; if
it is given up, all positions are entered anew.
-/

import MultiSegmentWell.SegmentSet.History
import MultiSegmentWell.Work

namespace MultiSegmentWell

/-- The scaling factor of a device, computed anew in place. -/
def Icd.rescale (outletLength connectionLength : Float) : Work Icd Unit := do
  let icd ← Work.look
  let f ← Work.attempt (icd.factor outletLength connectionLength)
  Work.change fun icd => { icd with scalingFactor := some f }

/-- A list with the items at two positions in each other's place. -/
def swapItems {α : Type} (i j : Nat) (xs : List α) : List α :=
  match xs[i]?, xs[j]? with
  | some x, some y => (xs.set i y).set j x
  | _, _ => xs

namespace SegmentSet

open Work

/-- Segments added one after the other. -/
def addEach : List Segment → Work SegmentSet Unit
  | [] => pure ()
  | a :: rest => do
    change (·.add a)
    addEach rest

/-- The segments of records added in turn. -/
def addRecordsEach (mode : GeometryMode) : List RangeRecord → Work SegmentSet Unit
  | [] => pure ()
  | record :: rest => do
    let s ← look
    let segments ← report (record.expand s.well mode)
    addEach segments
    addRecordsEach mode rest

/-- The set processed aside and put back. -/
def processInPlace (mode : GeometryMode) (topDepth topLength : Float) (options : Options) :
    Work SegmentSet Unit := do
  let s ← look
  let processed ← aside s do
    step (·.resolve mode topDepth topLength)
    step (·.linkInlets)
    let built ← look
    report (built.check options)
    change ({ · with resolved := true })
    report (.tell (built.resolvedNote mode))
  change fun _ => processed

/-- The set of a definition, built aside and put in place of an empty one. -/
def loadInPlace (d : TreeDefinition) (options : Options) : Work SegmentSet Unit := do
  let s ← look
  if s.resolved || !s.isEmpty then fail (.alreadyLoaded s.well)
  else
    let h := d.header
    let empty := { well := h.well, pressureDrop := h.pressureDrop, flowModel := h.flowModel }
    let loaded ← aside empty do
      change (·.add h.topSegment)
      addRecordsEach h.mode d.records
      step (·.linkInlets)
      processInPlace h.mode h.top.depth h.top.length options
    change fun _ => loaded

/-- The choice among segments with their positions, in one pass that holds the best one
seen so far. Those that are entered count as placed. -/
def seek (index : SegmentIndex) (branch : Int) :
    (held : Option (Segment × Nat)) → (pending : List (Segment × Nat)) → Choice
  | none, [] => .stuck
  | some (_, position), [] => .next position
  | none, (t, i) :: rest =>
    if index.contains t.outlet then seek index branch (some (t, i)) rest
    else seek index branch none rest
  | some (first, position), (t, i) :: rest =>
    if index.contains t.outlet then
      if t.branch = branch then
        if first.branch = branch then .ambiguous first t else seek index branch (some (t, i)) rest
      else seek index branch (some (first, position)) rest
    else seek index branch (some (first, position)) rest

/-- The set with the segment at a position swapped to another one and entered there. -/
def place (s : SegmentSet) (current position : Nat) : SegmentSet :=
  match s.segments[position]? with
  | some t =>
    { s with
      segments := swapItems current position s.segments
      index := s.index.insert t.number current }
  | none => s

/-- Up to `count` segments placed behind the one at a position. -/
def placeAfter : (count last : Nat) → Work SegmentSet Unit
  | 0, _ => pure ()
  | count + 1, last => do
    let s ← look
    match s.segments[last]? with
    | none => pure ()
    | some previous =>
      let pending := s.segments.drop (last + 1)
      match seek s.index previous.branch none pending.zipIdx with
      | .ambiguous first second =>
        fail (.ambiguousOutlet s.well previous.branch first.number second.number)
      | .stuck => fail (.unresolvableTopology s.well (pending.map Segment.number))
      | .next position =>
        change (·.place (last + 1) (last + 1 + position))
        placeAfter count (last + 1)

/-- The set with its positions entered anew. -/
def reindexed (s : SegmentSet) : SegmentSet := s.withSegments s.segments

/-- The segments swapped into order, the top segment first. -/
def orderInPlace : Work SegmentSet Unit :=
  Work.onFailure
    (do
      let s ← look
      match s.index.get? topNumber with
      | none => fail (.unknownSegment s.well topNumber)
      | some top =>
        change fun s => { s with index := {} }
        change (·.place 0 top)
        placeAfter (s.size - 1) 0)
    reindexed

/-- Devices attached to copies of their segments, which are then stored. -/
def attachDevicesInPlace (devices : List (Int × Device)) : Work SegmentSet Unit := do
  let s ← look
  attempt (s.requireFriction devices)
  let segments ← attempt (devices.mapM fun (number, device) => s.equipped number device)
  addEach segments

/-- A device with its scaling factor computed anew, if it is an inflow control device. -/
def rescaleDevice (connections : List Connection) (number : Int) (device : Device) :
    Work SegmentSet Device :=
  match device.icd? with
  | none => pure device
  | some icd => do
    let s ← look
    let segment ← attempt (s.get number)
    let outletLength ← attempt (s.segmentLength segment.outlet)
    let rescaled ← aside icd (Icd.rescale outletLength (Connection.perfLength connections number))
    pure (device.withIcd rescaled)

/-- Devices scaled one after the other. -/
def rescaleEach (connections : List Connection) :
    List (Int × Device) → Work SegmentSet (List (Int × Device))
  | [] => pure []
  | (number, device) :: rest => do
    let rescaled ← rescaleDevice connections number device
    let others ← rescaleEach connections rest
    pure ((number, rescaled) :: others)

/-- Devices attached after scaling them. -/
def attachScaledDevicesInPlace (devices : List (Int × Device)) (connections : List Connection) :
    Work SegmentSet Unit := do
  let s ← look
  attempt (s.requireFriction devices)
  let scaled ← rescaleEach connections devices
  attachDevicesInPlace scaled

/-- An operation in place. -/
def performInPlace : Operation → Work SegmentSet Unit
  | .add segments => addEach segments
  | .load definition options => loadInPlace definition options
  | .process mode topDepth topLength options => processInPlace mode topDepth topLength options
  | .order => orderInPlace
  | .attachDevices devices => attachDevicesInPlace devices
  | .attachScaledDevices devices connections => attachScaledDevicesInPlace devices connections
  | .assignPerfLengths connections => change (·.assignPerfLengths connections)

end SegmentSet
end MultiSegmentWell
