/-
# Rows of a report

SPEC_FULL.md, 6: what the command line shows of a well.

What is shown of a built well: a summary, a row for each segment, for each branch
and for each connection. Lengths are in the units of the deck, volumes in cubic
metres. Rows are also given as values for reading by machine.
-/

import MultiSegmentWell.Deck.Building
import MultiSegmentWell.Json.Basic
import MultiSegmentWell.SegmentSet.Branch

namespace MultiSegmentWell
namespace Report

/-- A well in a line. -/
structure Summary where
  well : String
  segments : Nat
  branches : List Int
  maxSegment : Int
  pressureDrop : PressureDrop
  flowModel : FlowModel
deriving Repr, DecidableEq

/-- A segment. -/
structure SegmentRow where
  number : Int
  branch : Int
  outlet : Int
  kind : DeviceKind
  /-- The length of the segment itself. -/
  length : Float
  totalLength : Float
  depth : Float
  diameter : Float
  volume : Float
  inlets : List Int
deriving Repr, DecidableEq

/-- The segments of a branch. -/
structure BranchRow where
  branch : Int
  segments : List Int
deriving Repr, DecidableEq

/-- A connection. -/
structure ConnectionRow where
  segment : Int
  start : Float
  finish : Float
  centerDepth : Option Float
deriving Repr, DecidableEq

/-- The summary of a well. -/
def summary (s : SegmentSet) : Summary where
  well := s.well
  segments := s.size
  branches := s.branches
  maxSegment := s.maxNumber
  pressureDrop := s.pressureDrop
  flowModel := s.flowModel

/-- The row of a segment of a set. -/
def segmentRow [UnitConversions] (s : SegmentSet) (units : UnitSystem) (t : Segment) :
    Except SegmentError SegmentRow :=
  (s.segmentLength t.number).map fun length => {
    number := t.number
    branch := t.branch
    outlet := t.outlet
    kind := t.device.kind
    length := units.lengthFromSI length
    totalLength := units.lengthFromSI t.node.length
    depth := units.lengthFromSI t.node.depth
    diameter := units.lengthFromSI t.pipe.diameter
    volume := t.volume
    inlets := t.inlets }

/-- A row for each segment, in storage order. -/
def segmentRows [UnitConversions] (s : SegmentSet) (units : UnitSystem) :
    Except SegmentError (List SegmentRow) :=
  s.segments.mapM (segmentRow s units)

/-- The row of a branch. -/
def branchRow (s : SegmentSet) (branch : Int) : Except SegmentError BranchRow :=
  (s.branchSegments branch).map fun segments => ⟨branch, segments.map Segment.number⟩

/-- A row for each branch, or for the only one that is asked for. -/
def branchRows (s : SegmentSet) (only : Option Int) : Except SegmentError (List BranchRow) :=
  match only with
  | some branch => (branchRow s branch).map ([·])
  | none => s.branches.mapM (branchRow s)

/-- The row of a connection. -/
def connectionRow [UnitConversions] (units : UnitSystem) (c : Connection) : ConnectionRow where
  segment := c.segment
  start := units.lengthFromSI c.start
  finish := units.lengthFromSI c.finish
  centerDepth := c.centerDepth.map units.lengthFromSI

/-- A row for each connection. -/
def connectionRows [UnitConversions] (units : UnitSystem) (connections : List Connection) :
    List ConnectionRow :=
  connections.map (connectionRow units)

/-- A summary as a value. -/
def Summary.toJson (s : Summary) : Json :=
  .ofFields
    [("well", .text s.well), ("segments", .integer s.segments),
      ("branches", .list (s.branches.map .integer)), ("max_segment", .integer s.maxSegment),
      ("pressure_components", .text s.pressureDrop.name), ("flow_model", .text s.flowModel.name)]

/-- A row of a segment as a value. -/
def SegmentRow.toJson (r : SegmentRow) : Json :=
  .ofFields
    [("segment", .integer r.number), ("branch", .integer r.branch), ("outlet", .integer r.outlet),
      ("kind", .text r.kind.name), ("type_id", .integer r.kind.typeId), ("length", .real r.length),
      ("total_length", .real r.totalLength), ("depth", .real r.depth),
      ("diameter", .real r.diameter), ("volume", .real r.volume),
      ("inlets", .list (r.inlets.map .integer))]

/-- A row of a branch as a value. -/
def BranchRow.toJson (r : BranchRow) : Json :=
  .ofFields [("branch", .integer r.branch), ("segments", .list (r.segments.map .integer))]

/-- A row of a connection as a value. -/
def ConnectionRow.toJson (r : ConnectionRow) : Json :=
  .ofFields
    [("segment", .integer r.segment), ("perf_start", .real r.start), ("perf_end", .real r.finish),
      ("center_depth", Json.nullable .real r.centerDepth)]

end Report
end MultiSegmentWell
