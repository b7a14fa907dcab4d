/-
# Ordering the segments

SPEC_FULL.md, 4.3: `order_segments`.

Segments are ordered so that every outlet comes before its inlets and a branch is
continued where it can be. The top segment is taken out first; then, one at a
time, a segment is chosen among the pending ones whose outlet is placed: the first
of them, unless one lies on the branch of the segment placed last, which is then
chosen. Two that lie there are ambiguous, and if no pending segment has its outlet
placed, the pending ones cannot be ordered.

Where a segment is taken out, the first of the pending ones moves into the gap. An
order that is given up keeps the segments placed so far in front of the pending
ones.
-/

import MultiSegmentWell.SegmentSet.Basic

namespace MultiSegmentWell

/-- The item at a position and the others, the first of them moved into the gap. -/
def takeOut (i : Nat) : List α → Option (α × List α)
  | [] => none
  | x :: rest =>
    match i with
    | 0 => some (x, rest)
    | i + 1 => rest[i]?.map fun y => (y, rest.set i x)

/-- Taking an item out leaves the others. -/
theorem perm_of_takeOut {i : Nat} {xs rest : List α} {y : α} (h : takeOut i xs = some (y, rest)) :
    xs.Perm (y :: rest) := by
  match xs, i with
  | x :: xs, 0 =>
    simp only [takeOut, Option.some.injEq, Prod.mk.injEq] at h
    obtain ⟨rfl, rfl⟩ := h
    exact .refl _
  | x :: xs, i + 1 =>
    simp only [takeOut, Option.map_eq_some_iff, Prod.mk.injEq] at h
    obtain ⟨z, hz, rfl, rfl⟩ := h
    obtain ⟨hi, rfl⟩ := List.getElem?_eq_some_iff.1 hz
    clear hz
    induction xs generalizing i with
    | nil => simp at hi
    | cons w ws ih =>
      match i with
      | 0 => exact .swap ..
      | i + 1 =>
        simp only [List.length_cons, Nat.add_lt_add_iff_right] at hi
        exact (List.Perm.swap ..).trans (((ih i hi).cons w).trans (.swap ..))

namespace SegmentSet

/-- Which pending segment is placed next. -/
inductive Choice where
  /-- The one at this position. -/
  | next (position : Nat)
  /-- Both segments continue the branch placed last. -/
  | ambiguous (first second : Segment)
  /-- No outlet of a pending segment is placed. -/
  | stuck

/-- The choice among pending segments, given the placed ones and the branch placed last. -/
def choose (placed : List Segment) (branch : Int) (pending : List Segment) : Choice :=
  let ready := pending.zipIdx.filter fun (s, _) => placed.any fun p => p.number == s.outlet
  match ready.filter fun (s, _) => s.branch == branch with
  | (first, _) :: (second, _) :: _ => .ambiguous first second
  | [(_, position)] => .next position
  | [] =>
    match ready with
    | (_, position) :: _ => .next position
    | [] => .stuck

/-- How far ordering came. -/
structure Arrangement where
  placed : List Segment
  pending : List Segment
  /-- Why ordering was given up. -/
  fault : Option SegmentError := none

/-- The segments in the order that an arrangement gives. -/
def Arrangement.segments (a : Arrangement) : List Segment := a.placed ++ a.pending

/-- Places up to `count` pending segments behind the placed ones. -/
def arrangeFrom (well : String) :
    (count : Nat) → (placed : List Segment) → (branch : Int) → (pending : List Segment) → Arrangement
  | 0, placed, _, pending => { placed, pending }
  | count + 1, placed, branch, pending =>
    match choose placed branch pending with
    | .ambiguous first second =>
      ⟨placed, pending, some (.ambiguousOutlet well branch first.number second.number)⟩
    | .stuck => ⟨placed, pending, some (.unresolvableTopology well (pending.map Segment.number))⟩
    | .next position =>
      match takeOut position pending with
      | some (s, rest) => arrangeFrom well count (placed ++ [s]) s.branch rest
      | none => { placed, pending }

/-- The arrangement of a set, from its top segment on. -/
def arrange (s : SegmentSet) : Arrangement :=
  match (s.index.get? topNumber).bind fun i => takeOut i s.segments with
  | some (top, pending) => arrangeFrom s.well pending.length [top] top.branch pending
  | none => ⟨[], s.segments, some (.unknownSegment s.well topNumber)⟩

/-- The set as ordering leaves it, whether it succeeds or is given up. -/
def rearranged (s : SegmentSet) : SegmentSet := s.withSegments s.arrange.segments

/-- The ordered set. -/
def order (s : SegmentSet) : Except SegmentError SegmentSet :=
  match s.arrange.fault with
  | some e => .error e
  | none => .ok s.rearranged

end SegmentSet
end MultiSegmentWell
