/-
# Records of a segment tree

SPEC_FULL.md, 4.2: header, top segment and range records; 6: their fields.

A header gives the well, its settings and the top segment. Each range record gives
segments with consecutive numbers on one branch, every one but the first flowing
into its predecessor. All values are in SI units.

A record is refused for the first of these that holds: its range covers a number
below 2, it is reversed, it has several segments although its values are absolute,
or its branch is below 1.
-/

import MultiSegmentWell.Error
import MultiSegmentWell.Finding
import MultiSegmentWell.Segment
import MultiSegmentWell.SegmentRange

namespace MultiSegmentWell

/-- The number of the segment next to the well head. -/
def topNumber : Int := 1

/-- What is given once for a tree. -/
structure Header where
  well : String
  /-- The node of the top segment. -/
  top : Node
  /-- The volume of the top segment. -/
  volume : Float
  mode : GeometryMode
  pressureDrop : PressureDrop := .acceleration
  flowModel : FlowModel := .homogeneous
deriving Repr, DecidableEq

/-- What is given for the segments with numbers from `first` to `last`. -/
structure RangeRecord where
  first : Int
  last : Int
  branch : Int
  /-- The outlet of the first segment. -/
  join : Int
  /-- The change along each segment, or the node of the last one. -/
  node : Node
  diameter : Float
  roughness : Float
  /-- The cross-sectional area; that of a circle if it is not given. -/
  area : Option Float := none
  volume : Option Float := none
deriving Repr, DecidableEq

/-- Everything that is given for the tree of one well. -/
structure TreeDefinition where
  header : Header
  records : List RangeRecord
deriving Repr, DecidableEq

namespace Header

/-- The top segment. With incremental records its node is settled when the tree is
resolved; its pipe stays unknown. -/
def topSegment (h : Header) : Segment where
  number := topNumber
  branch := 1
  outlet := 0
  node := match h.mode with
    | .incremental => { h.top with length := 0.0, depth := 0.0 }
    | .absolute => h.top
  pipe := Pipe.unknown
  volume := h.volume
  ready := h.mode == .absolute

end Header

namespace RangeRecord

/-- What is wrong with the range, if anything is. -/
def fault? (r : RangeRecord) (mode : GeometryMode) : Option RangeFault :=
  if r.first < 2 then some .startsTooLow
  else if r.last < r.first then some .reversed
  else if r.first ≠ r.last ∧ mode = .absolute then some .severalAbsolute
  else none

/-- Whether the record can be expanded. -/
def check (r : RangeRecord) (well : String) (mode : GeometryMode) : Except SegmentError Unit :=
  match r.fault? mode with
  | some fault => .error (.malformedRange well r.first r.last fault)
  | none =>
    if r.branch < 1 then .error (.invalidBranch well r.branch r.first r.last) else .ok ()

/-- The ratio of the circumference of a circle to its diameter. -/
def pi : Float := 3.141592653589793

/-- The cross-sectional area. -/
def crossArea (r : RangeRecord) : Float :=
  r.area.getD (pi * r.diameter * r.diameter / 4.0)

/-- The volume of each segment, unknown where it depends on lengths that are not
known yet. -/
def segmentVolume (r : RangeRecord) (mode : GeometryMode) : Float :=
  match r.volume, mode with
  | some volume, _ => volume
  | none, .incremental => r.crossArea * r.node.length
  | none, .absolute => Quantity.unknown

/-- The roughness of each segment. -/
def segmentRoughness (r : RangeRecord) : Float :=
  Quantity.limitRoughness r.diameter r.roughness

/-- The numbers of the range. -/
def numbers (r : RangeRecord) : List Int := numbersBetween r.first r.last

/-- The segment of the range with a given number. -/
def segment (r : RangeRecord) (mode : GeometryMode) (n : Int) : Segment where
  number := n
  branch := r.branch
  outlet := if n = r.first then r.join else n - 1
  node := r.node
  pipe := ⟨r.diameter, r.segmentRoughness, r.crossArea⟩
  volume := r.segmentVolume mode
  ready := mode == .absolute && n == r.last

/-- The segments of the range. -/
def segments (r : RangeRecord) (mode : GeometryMode) : List Segment :=
  r.numbers.map (r.segment mode)

/-- The finding about the roughness: it is limited whenever the segments have less
than the record gives. -/
def findings (r : RangeRecord) (well : String) : List Finding :=
  if r.roughness > r.segmentRoughness then
    [.limitedRoughness well r.first r.last r.roughness r.segmentRoughness]
  else []

/-- The segments of a record that can be expanded, with the finding about its roughness. -/
def expand (r : RangeRecord) (well : String) (mode : GeometryMode) :
    Reported SegmentError (List Segment) :=
  match r.check well mode with
  | .error e => .ofExcept (.error e)
  | .ok () => ⟨r.findings well, .ok (r.segments mode)⟩

end RangeRecord
end MultiSegmentWell
