/-
# Allocating perforations

SPEC_FULL.md, 4.6: `segment_from_measured_depth`, `connection_center_depth` and
`allocate_connections`.

A perforation that names no segment goes to the segment of its branch whose node is
closest to the middle of the interval, the first stored one of several. A
perforation without a depth gets one on the straight line from that segment's node
to the node of its outlet or, if the middle lies past the node, to the node of its
first inlet on the branch. On the top segment the depth stays open.
-/

import MultiSegmentWell.SegmentSet.Basic

namespace MultiSegmentWell
namespace SegmentSet

/-- Whether a distance is less than another; a distance that is no number is greater
than all others. -/
def closer (a b : Float) : Bool := a < b || (b.isNaN && !a.isNaN)

/-- How far the node of a segment is from a length along the well. -/
def distance (center : Float) (s : Segment) : Float := (center - s.node.length).abs

/-- The first of the segments with the least distance. -/
def closest (center : Float) : List Segment → Option Segment
  | [] => none
  | s :: rest =>
    match closest center rest with
    | none => some s
    | some t => some (if closer (distance center t) (distance center s) then t else s)

/-- The number of the segment of a branch closest to a length along the well. -/
def segmentAt (s : SegmentSet) (branch : Int) (center : Float) : Option Int :=
  (closest center (s.segments.filter fun t => t.branch == branch)).map Segment.number

/-- Whether the tree is resolved. -/
def requireResolved (s : SegmentSet) : Except SegmentError Unit :=
  if s.resolved then .ok () else .error (.notResolved s.well)

/-- The segment at the other end of the line on which a middle lies. -/
def neighbour (s : SegmentSet) (segment : Segment) (branch : Int) (center : Float) :
    Option Segment :=
  if center > segment.node.length then
    (segment.inlets.filterMap s.get?).find? fun inlet => inlet.branch == branch
  else s.get? segment.outlet

/-- The depth at a length on the line through two nodes. -/
def interpolate (node other : Node) (center : Float) : Float :=
  let lengthChange := node.length - other.length
  if lengthChange == 0.0 then node.depth
  else node.depth + (center - node.length) / lengthChange * (node.depth - other.depth)

/-- The depth of the middle of a perforation on a segment; none on the top segment. -/
def centerDepth (s : SegmentSet) (number branch : Int) (center : Float) :
    Except SegmentError (Option Float) := do
  s.requireResolved
  if number = topNumber then .ok none
  else
    let segment ← s.get number
    match s.neighbour segment branch center with
    | some other => .ok (some (interpolate segment.node other.node center))
    | none => .error (.connectionNotAllocated s.well branch center center)

/-- The number of the segment that a perforation goes to. -/
def target (s : SegmentSet) (p : Perforation) : Except SegmentError Int :=
  match p.segment.filter (· != 0) with
  | some n => (s.get n).map fun _ => n
  | none =>
    match s.segmentAt p.branch p.center with
    | some n => .ok n
    | none => .error (.connectionNotAllocated s.well p.branch p.start p.finish)

/-- The connection for a perforation. -/
def connect (s : SegmentSet) (p : Perforation) : Except SegmentError Connection := do
  let segment ← s.target p
  let depth ← match p.centerDepth.filter (· != 0.0) with
    | some d => .ok (some d)
    | none => s.centerDepth segment p.branch p.center
  .ok ⟨segment, p.start, p.finish, depth⟩

/-- The connections for perforations, one each and in their order. -/
def allocate (s : SegmentSet) (perforations : List Perforation) :
    Except SegmentError (List Connection) := do
  s.requireResolved
  perforations.mapM s.connect

end SegmentSet
end MultiSegmentWell
