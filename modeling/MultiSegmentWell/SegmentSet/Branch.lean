/-
# The segments of a branch

SPEC_FULL.md, 4.6: `branches` and `branch_segments`.

The segments of one branch, each after its outlet if that lies on the branch too.
The segments are taken in storage order; one whose outlet is still pending changes
places with the first that is free of this. If there is none, the outlets of the
branch lead in a circle.
-/

import MultiSegmentWell.SegmentSet.Order

namespace MultiSegmentWell
namespace SegmentSet

/-- Whether the outlet of a segment is not among the pending ones. -/
def isFree (pending : List Segment) (s : Segment) : Bool :=
  !pending.any fun t => t.number == s.outlet

/-- Up to `count` segments in order; `none` where outlets lead in a circle. -/
def chainFrom : (count : Nat) → (pending : List Segment) → Option (List Segment)
  | 0, pending => some pending
  | count + 1, pending =>
    if pending.isEmpty then some []
    else do
      let position ← pending.findIdx? (isFree pending)
      let (s, rest) ← takeOut position pending
      (chainFrom count rest).map (s :: ·)

/-- The segments of a branch from its start on. -/
def branchSegments (s : SegmentSet) (branch : Int) : Except SegmentError (List Segment) :=
  let onBranch := s.segments.filter fun t => t.branch == branch
  match chainFrom onBranch.length onBranch with
  | some chain => .ok chain
  | none => .error (.branchLoop s.well branch)

end SegmentSet
end MultiSegmentWell
