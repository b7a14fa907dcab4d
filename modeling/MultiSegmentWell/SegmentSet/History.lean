/-
# Histories of a segment set

SPEC_FULL.md, 4.6: the operations on a set, taken together.

The operations that change a set, as values, and the sets that they can lead to. An
operation that fails leaves the set as it was, but for ordering, which may leave it
in the order it had come to.
-/

import MultiSegmentWell.SegmentSet.Equipment
import MultiSegmentWell.SegmentSet.Processing

namespace MultiSegmentWell

/-- An operation that changes a set. -/
inductive Operation where
  | add (segments : List Segment)
  | load (definition : TreeDefinition) (options : Options)
  | process (mode : GeometryMode) (topDepth topLength : Float) (options : Options)
  | order
  | attachDevices (devices : List (Int × Device))
  | attachScaledDevices (devices : List (Int × Device)) (connections : List Connection)
  | assignPerfLengths (connections : List Connection)

namespace SegmentSet

/-- The outcome of an operation: the new set or a failure, with findings. -/
def perform (s : SegmentSet) : Operation → Reported SegmentError SegmentSet
  | .add segments => pure (s.addAll segments)
  | .load definition options => s.load definition options
  | .process mode topDepth topLength options => s.process mode topDepth topLength options
  | .order => .ofExcept s.order
  | .attachDevices devices => .ofExcept (s.attachDevices devices)
  | .attachScaledDevices devices connections =>
    .ofExcept (s.attachScaledDevices devices connections)
  | .assignPerfLengths connections => pure (s.assignPerfLengths connections)

/-- What a failing operation leaves. -/
def afterFailure (s : SegmentSet) : Operation → SegmentSet
  | .order => s.rearranged
  | _ => s

/-- The set after an operation, whether it succeeds or fails. -/
def after (s : SegmentSet) (op : Operation) : SegmentSet :=
  match (s.perform op).outcome with
  | .ok result => result
  | .error _ => s.afterFailure op

/-- The sets that operations can lead to from an empty one. -/
inductive Reachable : SegmentSet → Prop where
  | empty (well : String) (pressureDrop : PressureDrop) (flowModel : FlowModel) :
    Reachable { well, pressureDrop, flowModel }
  | after {s : SegmentSet} (op : Operation) : Reachable s → Reachable (s.after op)

end SegmentSet
end MultiSegmentWell
