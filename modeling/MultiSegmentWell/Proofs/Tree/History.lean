/-
# Every history keeps the position map exact

Whatever operations change a set, in whatever order, and whether they succeed or
fail, its position map stays exact (`Reachable.indexed`). One operation leads to its
result or to what its failure leaves (`after_cases`); both are indexed.
-/

import MultiSegmentWell.SegmentSet.History
import MultiSegmentWell.Proofs.Tree.Equipment

namespace MultiSegmentWell
namespace SegmentSet

variable {s : SegmentSet}

/-- An operation leads to its result, or to what its failure leaves. -/
theorem after_cases (s : SegmentSet) (op : Operation) :
    (∃ r, (s.perform op).outcome = .ok r ∧ s.after op = r) ∨
      ((∃ e, (s.perform op).outcome = .error e) ∧ s.after op = s.afterFailure op) := by
  unfold after
  cases h : (s.perform op).outcome with
  | ok r => exact .inl ⟨r, rfl, rfl⟩
  | error e => exact .inr ⟨⟨e, rfl⟩, rfl⟩

namespace Indexed

/-- Ordering that is given up leaves the same segments in another order. -/
theorem perm_rearranged (hs : s.Indexed) : s.rearranged.segments.Perm s.segments := by
  show s.arrange.segments.Perm s.segments
  by_cases htop : topNumber ∈ s.numbers
  · obtain ⟨_, -, hperm, -⟩ := exists_placement_arrange hs htop
    exact hperm.symm
  · rw [arrange_eq_of_not_mem hs htop]
    exact .refl _

/-- Ordering that is given up still enters the positions anew. -/
theorem rearranged (hs : s.Indexed) : s.rearranged.Indexed :=
  indexed_withSegments s ((hs.perm_rearranged.map Segment.number).nodup_iff.2 hs.nodup)

/-- A successful operation keeps the position map exact. -/
theorem perform (hs : s.Indexed) {op : Operation} {r : SegmentSet}
    (h : (s.perform op).outcome = .ok r) : r.Indexed := by
  cases op with
  | add segments =>
    obtain rfl := Except.ok.inj h
    exact hs.addAll segments
  | load d options =>
    obtain ⟨_, hlinked, h⟩ := exists_process_of_load h
    exact hlinked.process h
  | process mode topDepth topLength options => exact hs.process h
  | order => exact hs.order h
  | attachDevices devices => exact (hs.attachDevices h).1
  | attachScaledDevices devices connections => exact (hs.attachScaledDevices h).1
  | assignPerfLengths connections =>
    obtain rfl := Except.ok.inj h
    exact hs.assignPerfLengths connections

/-- **Every operation keeps the position map exact**, whether it succeeds or fails. -/
theorem after (hs : s.Indexed) (op : Operation) : (s.after op).Indexed := by
  obtain ⟨r, hr, h⟩ | ⟨-, h⟩ := s.after_cases op
  · rw [h]
    exact hs.perform hr
  · rw [h]
    cases op with
    | order => exact hs.rearranged
    | _ => exact hs

end Indexed

/-- **The position map of every set is exact**, whatever led to it. -/
theorem Reachable.indexed (h : Reachable s) : s.Indexed := by
  induction h with
  | empty well pressureDrop flowModel => exact indexed_empty well pressureDrop flowModel
  | after op _ ih => exact ih.after op

/-- A run of operations leads on from a set that operations have led to. -/
theorem Reachable.foldl_after (h : Reachable s) (ops : List Operation) :
    Reachable (ops.foldl SegmentSet.after s) := by
  induction ops generalizing s with
  | nil => exact h
  | cons op ops ih => exact ih (h.after op)

/-- Adding segments to an empty set leads to every set that holds them. -/
theorem reachable_ofSegments (well : String) (pressureDrop : PressureDrop)
    (segments : List Segment) : Reachable (ofSegments well pressureDrop segments) :=
  .after (.add segments) (.empty well pressureDrop .homogeneous)

end SegmentSet
end MultiSegmentWell
