/-
# The segment closest to a length

SPEC_FULL.md, 4.6: `segment_from_measured_depth`, ties to the segment stored first.

Distances have no sign, so of two of them one is closer exactly if it comes first in the total
order of doubles (`closer_iff_place_lt`); a distance that is no number comes last. Among
segments the first one with the least distance is chosen (`closest_eq_some_iff`), and on a
branch that is the first stored segment of the branch with the least distance
(`segmentAt_firstClosest`).
-/

import MultiSegmentWell.Proofs.Number.TotalOrder
import MultiSegmentWell.Proofs.Order.BranchChains
import MultiSegmentWell.SegmentSet.Allocation

namespace MultiSegmentWell
namespace SegmentSet

open Binary64 (place)

variable {s : SegmentSet} {segments : List Segment} {branch n : Int} {center : Float}
variable {t u : Segment}

/-- Of two distances the one with the lower place is closer; both lose their sign first, so
that places follow the order of the numbers. -/
theorem closer_iff_place_lt :
    closer (distance center t) (distance center u) = true ↔
      place (distance center t) < place (distance center u) := by
  rw [distance, distance, Binary64.place_lt_iff (Binary64.isNegative_abs _)
    (Binary64.isNegative_abs _), closer]
  simp

/-- The segment is among the given ones, none of them is less distant, and none before it is
as distant, where the distance of a segment is that of its length along the well. -/
def FirstClosest (segments : List Segment) (center : Float) (t : Segment) : Prop :=
  ∃ before after, segments = before ++ t :: after ∧
    (∀ u ∈ segments, place (center - t.node.length).abs ≤ place (center - u.node.length).abs) ∧
    ∀ u ∈ before, (center - u.node.length).abs ≠ (center - t.node.length).abs

/-- The closest segment is one of them. -/
theorem FirstClosest.mem (h : FirstClosest segments center t) : t ∈ segments := by
  obtain ⟨before, after, rfl, -⟩ := h
  simp

/-- Only among no segments there is no closest one. -/
theorem closest_eq_none_iff : closest center segments = none ↔ segments = [] := by
  cases segments with
  | nil => exact iff_of_true rfl rfl
  | cons a rest =>
    rw [closest]
    cases closest center rest <;> simp

/-- **What is chosen is the first of the segments with the least distance.** -/
theorem firstClosest_of_closest (h : closest center segments = some t) :
    FirstClosest segments center t := by
  induction segments generalizing t with
  | nil => cases h
  | cons a rest ih =>
    rw [closest] at h
    cases hrest : closest center rest with
    | none =>
      rw [hrest] at h
      obtain rfl := Option.some.inj h
      obtain rfl := closest_eq_none_iff.1 hrest
      exact ⟨[], [], rfl, by simp, by simp⟩
    | some u =>
      obtain ⟨before, after, hsplit, hleast, hfirst⟩ := ih hrest
      rw [hrest] at h
      obtain rfl := Option.some.inj h
      by_cases hcloser : closer (distance center u) (distance center a) = true
      · -- all that is closer than the first one stands behind it
        have hlt : place (center - u.node.length).abs < place (center - a.node.length).abs :=
          closer_iff_place_lt.1 hcloser
        rw [if_pos hcloser]
        refine ⟨a :: before, after, by rw [hsplit, List.cons_append],
          List.forall_mem_cons.2 ⟨hlt.le, hleast⟩, List.forall_mem_cons.2 ⟨?_, hfirst⟩⟩
        intro hsame
        rw [hsame] at hlt
        exact lt_irrefl _ hlt
      · have hle := not_lt.1 (mt closer_iff_place_lt.2 hcloser)
        rw [if_neg hcloser]
        exact ⟨[], rest, rfl, List.forall_mem_cons.2 ⟨le_rfl, fun v hv => hle.trans (hleast v hv)⟩,
          by simp⟩

/-- Two closest segments are equally far away. -/
theorem FirstClosest.distance_eq (ht : FirstClosest segments center t)
    (hu : FirstClosest segments center u) : distance center t = distance center u := by
  have htmem := ht.mem
  have humem := hu.mem
  obtain ⟨-, -, -, htleast, -⟩ := ht
  obtain ⟨-, -, -, huleast, -⟩ := hu
  exact Binary64.place_injective (le_antisymm (htleast u humem) (huleast t htmem))

/-- There is one such segment at most. -/
theorem FirstClosest.unique (ht : FirstClosest segments center t)
    (hu : FirstClosest segments center u) : t = u := by
  have hsame := ht.distance_eq hu
  obtain ⟨before, after, hsplit, -, htfirst⟩ := ht
  obtain ⟨before', after', hsplit', -, hufirst⟩ := hu
  rcases List.append_eq_append_iff.1 (hsplit.symm.trans hsplit') with
    ⟨between, hbefore, hrest⟩ | ⟨between, hbefore, hrest⟩
  · cases between with
    | nil => exact (List.cons.inj hrest).1
    | cons v between =>
      obtain rfl := (List.cons.inj hrest).1
      exact absurd hsame (hufirst t (by simp [hbefore]))
  · cases between with
    | nil => exact (List.cons.inj hrest).1.symm
    | cons v between =>
      obtain rfl := (List.cons.inj hrest).1
      exact absurd hsame.symm (htfirst u (by simp [hbefore]))

/-- **The first segment with the least distance is chosen.** -/
theorem closest_eq_some_iff :
    closest center segments = some t ↔ FirstClosest segments center t := by
  refine ⟨firstClosest_of_closest, fun ht => ?_⟩
  cases hclosest : closest center segments with
  | none =>
    obtain rfl := closest_eq_none_iff.1 hclosest
    exact absurd ht.mem List.not_mem_nil
  | some u => rw [(firstClosest_of_closest hclosest).unique ht]

/-- A segment that is less distant than all others is chosen in every order. -/
theorem closest_of_perm {others : List Segment} (hperm : others.Perm segments)
    (ht : t ∈ segments)
    (hleast : ∀ u ∈ segments, u ≠ t → place (distance center t) < place (distance center u)) :
    closest center others = some t := by
  cases hclosest : closest center others with
  | none =>
    obtain rfl := closest_eq_none_iff.1 hclosest
    exact absurd (hperm.mem_iff.2 ht) List.not_mem_nil
  | some u =>
    have hu := firstClosest_of_closest hclosest
    have humem := hperm.mem_iff.1 hu.mem
    obtain ⟨-, -, -, huleast, -⟩ := hu
    by_contra hne
    have hlt := hleast u humem fun h => hne (congrArg some h)
    exact absurd (huleast t (hperm.mem_iff.2 ht)) (not_le.2 hlt)

/-- **What segment a length is assigned to.**  None is found exactly if no stored segment lies
on the branch. Otherwise the segment found is the first stored one on the branch with the least
distance, in the total order of doubles: none on the branch is less distant, and none stored
before it on the branch is as distant. So where a single segment has the least distance, it is
found whatever the storage order. -/
theorem segmentAt_firstClosest (s : SegmentSet) (branch : Int) (center : Float) :
    (s.segmentAt branch center = none ↔ ∀ t ∈ s.segments, t.branch ≠ branch) ∧
      (∀ n, s.segmentAt branch center = some n ↔
        ∃ t, FirstClosest (onBranch s.segments branch) center t ∧ t.number = n) ∧
      ∀ t ∈ onBranch s.segments branch,
        (∀ u ∈ onBranch s.segments branch, u ≠ t →
          place (center - t.node.length).abs < place (center - u.node.length).abs) →
        ∀ q : SegmentSet, q.segments.Perm s.segments →
          q.segmentAt branch center = some t.number := by
  have hsegmentAt : ∀ q : SegmentSet, q.segmentAt branch center
      = (closest center (onBranch q.segments branch)).map Segment.number := fun _ => rfl
  refine ⟨?_, fun n => ?_, fun t ht hleast q hperm => ?_⟩
  · rw [hsegmentAt, Option.map_eq_none_iff, closest_eq_none_iff, onBranch, List.filter_eq_nil_iff]
    simp only [beq_iff_eq, ne_eq]
  · simp only [hsegmentAt, Option.map_eq_some_iff, closest_eq_some_iff]
  · have honBranch : (onBranch q.segments branch).Perm (onBranch s.segments branch) :=
      hperm.filter _
    rw [hsegmentAt, closest_of_perm honBranch ht hleast]
    rfl

/-- The closer segment is found wherever it is stored. Halfway between two nodes the storage
order decides, and so it does for what is no number. -/
example :
    let near := { Segment.ofLink 2 1 1 with node := ⟨110.0, 0.0, 0.0, 0.0⟩ }
    let far := { Segment.ofLink 3 1 2 with node := ⟨120.0, 0.0, 0.0, 0.0⟩ }
    let there := ofSegments "W" .friction [near, far]
    let back := ofSegments "W" .friction [far, near]
    (there.segmentAt 1 118.0, back.segmentAt 1 118.0) = (some 3, some 3) ∧
      (there.segmentAt 1 108.0, back.segmentAt 1 108.0) = (some 2, some 2) ∧
      (there.segmentAt 1 115.0, back.segmentAt 1 115.0) = (some 2, some 3) ∧
      (there.segmentAt 1 (0.0 / 0.0), back.segmentAt 1 (0.0 / 0.0)) = (some 2, some 3) := by
  decide +kernel

end SegmentSet
end MultiSegmentWell
