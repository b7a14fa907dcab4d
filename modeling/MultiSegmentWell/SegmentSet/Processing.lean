/-
# Processing a segment tree

SPEC_FULL.md, 4.2: `load_welsegs`; 4.5: `check_depth_consistency`; 4.6: `process`.

Processing orders a set, settles its nodes, links inlets to outlets and checks the
result: every segment but the top one has a positive length, and one whose depth
changes by more than its length is worth a finding. A set that fails on the way is
left as it was.

Loading builds the set of a well from its definition. A record is expanded before
the next one is looked at, so findings about earlier records stand even if a later
one is refused.
-/

import MultiSegmentWell.SegmentSet.Resolution

namespace MultiSegmentWell
namespace SegmentSet

/-- The length and the change of depth of a segment other than the top one. -/
def extent (s : SegmentSet) (number : Int) : Except SegmentError (Float × Float) := do
  let length ← s.segmentLength number
  let depthChange ← s.depthChange number
  .ok (length, depthChange)

/-- The finding about a segment of this length, if it is steep. -/
def steepFindings (s : SegmentSet) (options : Options) (number : Int) (length depthChange : Float) :
    List Finding :=
  if depthChange.abs > options.tolerance * length then
    [.steepSegment s.well number options.units depthChange length]
  else []

/-- Checks segments of a set in turn, up to the first that has no positive length. -/
def checkSegments (s : SegmentSet) (options : Options) : List Segment → Reported SegmentError Unit
  | [] => pure ()
  | t :: rest =>
    if t.number = topNumber then checkSegments s options rest
    else
      match s.extent t.number with
      | .error e => .ofExcept (.error e)
      | .ok (length, depthChange) =>
        Reported.bind ⟨s.steepFindings options t.number length depthChange, .ok ()⟩ fun _ =>
          checkSegments s options rest

/-- Checks all segments in storage order. -/
def check (s : SegmentSet) (options : Options) : Reported SegmentError Unit :=
  s.checkSegments options s.segments

/-- The resolved and linked set, not checked yet. -/
def build (s : SegmentSet) (mode : GeometryMode) (topDepth topLength : Float) :
    Except SegmentError SegmentSet := do
  let resolved ← s.resolve mode topDepth topLength
  resolved.linkInlets

/-- The note about a resolved set. -/
def resolvedNote (s : SegmentSet) (mode : GeometryMode) : Finding :=
  .resolved s.well s.size s.branches.length mode

/-- The processed set. -/
def process (s : SegmentSet) (mode : GeometryMode) (topDepth topLength : Float)
    (options : Options) : Reported SegmentError SegmentSet := do
  let built ← .ofExcept (s.build mode topDepth topLength)
  built.check options
  .tell (built.resolvedNote mode)
  pure { built with resolved := true }

/-- The set with the segments of records added in turn. -/
def addRecords (s : SegmentSet) (mode : GeometryMode) :
    List RangeRecord → Reported SegmentError SegmentSet
  | [] => pure s
  | r :: rest => do
    let segments ← r.expand s.well mode
    addRecords (s.addAll segments) mode rest

/-- The set that a header describes, with its top segment only. -/
def ofHeader (h : Header) : SegmentSet :=
  add { well := h.well, pressureDrop := h.pressureDrop, flowModel := h.flowModel } h.topSegment

/-- The processed set of a definition. -/
def ofDefinition (d : TreeDefinition) (options : Options) : Reported SegmentError SegmentSet := do
  let h := d.header
  let full ← (ofHeader h).addRecords h.mode d.records
  let linked ← .ofExcept full.linkInlets
  linked.process h.mode h.top.depth h.top.length options

/-- The set of a definition, in place of an empty one. -/
def load (s : SegmentSet) (d : TreeDefinition) (options : Options) :
    Reported SegmentError SegmentSet :=
  if s.resolved || !s.isEmpty then .ofExcept (.error (.alreadyLoaded s.well))
  else ofDefinition d options

end SegmentSet
end MultiSegmentWell
