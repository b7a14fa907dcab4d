/-
# Segment sets

SPEC_FULL.md, 3: the set and its map; 4.6: queries and `add_segment`.

The segments of one well in their storage order, with the position of each number.
Adding a segment whose number is there replaces it in its place. A set is marked
resolved when its tree has been ordered, settled and checked.

The length of a segment is the difference of its node to that of its outlet; for
the top segment it is the length of the node itself.
-/

import MultiSegmentWell.Connection
import MultiSegmentWell.Record
import MultiSegmentWell.SegmentSet.Index

namespace MultiSegmentWell

/-- The segments of one well. -/
structure SegmentSet where
  well : String := ""
  pressureDrop : PressureDrop := .acceleration
  flowModel : FlowModel := .homogeneous
  segments : List Segment := []
  index : SegmentIndex := {}
  resolved : Bool := false
deriving Repr, DecidableEq

namespace SegmentSet

/-- The set with a segment added, or put in the place of the one with its number. -/
def add (s : SegmentSet) (segment : Segment) : SegmentSet :=
  match s.index.get? segment.number with
  | some i => { s with segments := s.segments.set i segment }
  | none =>
    { s with
      segments := s.segments ++ [segment]
      index := s.index.insert segment.number s.segments.length }

/-- The set with segments added one after the other. -/
def addAll (s : SegmentSet) (segments : List Segment) : SegmentSet := segments.foldl add s

/-- The set with its segments in another form and order, its positions entered anew. -/
def withSegments (s : SegmentSet) (segments : List Segment) : SegmentSet :=
  { s with segments, index := .ofNumbers (segments.map Segment.number) }

/-- A set that holds segments added one after the other. -/
def ofSegments (well : String) (pressureDrop : PressureDrop) (segments : List Segment) :
    SegmentSet :=
  addAll { well, pressureDrop } segments

/-- The segment with a number. -/
def get? (s : SegmentSet) (number : Int) : Option Segment :=
  (s.index.get? number).bind fun i => s.segments[i]?

/-- Whether a number is stored. -/
def contains (s : SegmentSet) (number : Int) : Bool := s.index.contains number

/-- The segment with a number, or the failure to find it. -/
def get (s : SegmentSet) (number : Int) : Except SegmentError Segment :=
  match s.get? number with
  | some segment => .ok segment
  | none => .error (.unknownSegment s.well number)

/-- The number of segments. -/
def size (s : SegmentSet) : Nat := s.segments.length

/-- Whether there are no segments. -/
def isEmpty (s : SegmentSet) : Bool := s.segments.isEmpty

/-- The numbers in storage order. -/
def numbers (s : SegmentSet) : List Int := s.segments.map Segment.number

/-- The segment at position 0. -/
def top (s : SegmentSet) : Except SegmentError Segment :=
  match s.segments with
  | segment :: _ => .ok segment
  | [] => .error (.unknownSegment s.well topNumber)

/-- The largest of some numbers, 0 if there are none. -/
def largest : List Int → Int
  | [] => 0
  | n :: ns => ns.foldl max n

/-- The largest segment number, 0 if there are no segments. -/
def maxNumber (s : SegmentSet) : Int := largest s.numbers

/-- The largest branch number, 0 if there are no segments. -/
def maxBranch (s : SegmentSet) : Int := largest (s.segments.map Segment.branch)

/-- A number put into increasing numbers, unless it is there. -/
def insertIncreasing (n : Int) : List Int → List Int
  | [] => [n]
  | m :: ms => if n < m then n :: m :: ms else if n = m then m :: ms else m :: insertIncreasing n ms

/-- The branch numbers in use, increasing. -/
def branches (s : SegmentSet) : List Int :=
  (s.segments.map Segment.branch).foldr insertIncreasing []

/-- The length of a segment. -/
def segmentLength (s : SegmentSet) (number : Int) : Except SegmentError Float := do
  let segment ← s.get number
  if number = topNumber then .ok segment.node.length
  else
    let outlet ← s.get segment.outlet
    let length := segment.node.length - outlet.node.length
    if length <= 0.0 then .error (.nonPositiveLength s.well number length) else .ok length

/-- The change of depth along a segment; for the top segment it is its depth. -/
def depthChange (s : SegmentSet) (number : Int) : Except SegmentError Float := do
  let segment ← s.get number
  if number = topNumber then .ok segment.node.depth
  else
    let outlet ← s.get segment.outlet
    .ok (segment.node.depth - outlet.node.depth)

end SegmentSet
end MultiSegmentWell
