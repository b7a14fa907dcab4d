/-
# Resolving the nodes

SPEC_FULL.md, 4.4: the resolvers of both modes; 4.2: the linking pass.

After ordering, the node of every segment is settled from that of its outlet.

With incremental records each node that is not ready holds the changes from its
outlet, which are added to the node of the outlet.

With absolute records a run of segments that are not ready ends at a ready one, and
the nodes between the outlet of the run and that segment are spread evenly. Every
segment of the run, the ready one included, whose volume is not known gets the area
of the ready segment times the even length. Volumes that are still unknown are then
filled in from each segment's own area and length.

Last, every segment is entered as an inlet of its outlet.
-/

import MultiSegmentWell.SegmentSet.Order

namespace MultiSegmentWell

namespace Node

/-- The even change from one node to another over `count` segments. -/
def evenChange (outlet last : Node) (count : Float) : Node where
  length := (last.length - outlet.length) / count
  depth := (last.depth - outlet.depth) / count
  x := (last.x - outlet.x) / count
  y := (last.y - outlet.y) / count

/-- The node reached after `k` equal changes. -/
def advance (outlet : Node) (k : Float) (change : Node) : Node where
  length := outlet.length + k * change.length
  depth := outlet.depth + k * change.depth
  x := outlet.x + k * change.x
  y := outlet.y + k * change.y

end Node

namespace SegmentSet

/-- The outlet of a segment among others. -/
def outletAmong (well : String) (others : List Segment) (s : Segment) : Except SegmentError Segment :=
  match others.find? fun t => t.number == s.outlet with
  | some outlet => .ok outlet
  | none => .error (.unknownSegment well s.outlet)

/-- The segment with the changes it holds added to the node of its outlet, unless it
is ready. -/
def settleChanges (well : String) (done : List Segment) (s : Segment) :
    Except SegmentError Segment :=
  if s.ready then .ok s
  else (outletAmong well done s).map fun outlet => s.settle (outlet.node.add s.node)

/-- Segments with changes settled one after the other, behind those that are done. -/
def settleAllChanges (well : String) (done : List Segment) :
    List Segment → Except SegmentError (List Segment)
  | [] => .ok done
  | s :: rest => do
    let settled ← settleChanges well done s
    settleAllChanges well (done ++ [settled]) rest

/-- The ordered set with the top segment settled at the given node and all changes
added up from there. -/
def resolveIncremental (s : SegmentSet) (topDepth topLength : Float) :
    Except SegmentError SegmentSet := do
  let top ← s.get topNumber
  let ordered ← (s.add (top.settle { top.node with length := topLength, depth := topDepth })).order
  match ordered.segments with
  | [] => .ok ordered
  | top :: rest => (settleAllChanges s.well [top] rest).map ordered.withSegments

/-- A volume, or another one where it is far below every physical volume. -/
def volumeOr (volume fallback : Float) : Float :=
  if volume < 0.5 * Quantity.unknown then fallback else volume

/-- A run of segments that are not ready, with the ready one that ends it, spread
evenly from the outlet of the run. -/
def spread (outlet : Segment) (run : List Segment) (last : Segment) : List Segment :=
  let change := outlet.node.evenChange last.node (Nat.toFloat (run.length + 1))
  let volume := last.pipe.area * change.length
  let inner := run.zipIdx.map fun (s, i) =>
    (s.settle (outlet.node.advance (Nat.toFloat (i + 1)) change)).withVolume (volumeOr s.volume volume)
  inner ++ [(last.settle last.node).withVolume (volumeOr last.volume volume)]

/-- Runs spread one after the other, behind the segments that are done. `run` holds
the segments since the last ready one. -/
def spreadRuns (well : String) (done run : List Segment) :
    List Segment → Except SegmentError (List Segment)
  | [] =>
    match run with
    | [] => .ok done
    | first :: _ => .error (.incompleteRange well first.number)
  | s :: rest =>
    match run with
    | [] => if s.ready then spreadRuns well (done ++ [s]) [] rest else spreadRuns well done [s] rest
    | first :: _ =>
      if s.ready then do
        let outlet ← outletAmong well done first
        spreadRuns well (done ++ spread outlet run s) [] rest
      else spreadRuns well done (run ++ [s]) rest

/-- The segment with its volume filled in from its area and length, if it is unknown. -/
def fillVolume (well : String) (segments : List Segment) (s : Segment) :
    Except SegmentError Segment :=
  if Quantity.isKnown s.volume then .ok s
  else (outletAmong well segments s).map fun outlet =>
    s.withVolume (s.pipe.area * (s.node.length - outlet.node.length))

/-- The ordered set with all runs spread and all volumes but that of the top segment
filled in. -/
def resolveAbsolute (s : SegmentSet) : Except SegmentError SegmentSet := do
  let ordered ← s.order
  match ordered.segments with
  | [] => .ok ordered
  | top :: rest =>
    let settled ← spreadRuns s.well [top] [] rest
    let filled ← settled.tail.mapM (fillVolume s.well settled)
    .ok (ordered.withSegments (settled.take 1 ++ filled))

/-- The resolved nodes in either mode; the top node is given for incremental records only. -/
def resolve (s : SegmentSet) (mode : GeometryMode) (topDepth topLength : Float) :
    Except SegmentError SegmentSet :=
  match mode with
  | .incremental => s.resolveIncremental topDepth topLength
  | .absolute => s.resolveAbsolute

/-- The numbers of the segments that flow into a segment, in storage order. -/
def inletNumbers (segments : List Segment) (s : Segment) : List Int :=
  (segments.filter fun t => decide (0 < t.outlet) && t.outlet == s.number).map Segment.number

/-- The set with every segment entered as an inlet of its outlet. -/
def linkInlets (s : SegmentSet) : Except SegmentError SegmentSet :=
  match s.segments.find? fun t => decide (0 < t.outlet) && !s.contains t.outlet with
  | some t => .error (.unresolvableTopology s.well [t.number])
  | none =>
    .ok { s with
      segments := s.segments.map fun t => (inletNumbers s.segments t).foldl Segment.addInlet t }

end SegmentSet
end MultiSegmentWell
