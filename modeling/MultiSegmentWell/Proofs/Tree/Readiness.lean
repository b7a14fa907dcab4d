/-
# Which processed segments are ready

SPEC_FULL.md, 4.2 and 4.4: the ready mark of both modes.

Behind the top segment everything that is processed is ready (`ready_of_build`): changes
that are added and runs that are spread settle the nodes, and a run that nothing closes is
refused. The top segment is another matter. With incremental records it is settled with the
node that is given for it. With absolute records its node is only looked at as an outlet, so
it keeps the mark that it came with (`top_ready_of_buildAbsolute`), ready or not.
-/

import MultiSegmentWell.Proofs.Tree.Repetition

namespace MultiSegmentWell
namespace SegmentSet

variable {s r : SegmentSet} {u : Segment}
variable {mode : GeometryMode} {topDepth topLength : Float} {options : Options}

/-- In order, every segment with another number than the top one's is behind it. -/
theorem InOrder.mem_tail {v : List Segment} (hv : InOrder v) (hu : u ∈ v)
    (hn : u.number ≠ topNumber) : u ∈ v.tail := by
  cases v with
  | nil => cases hu
  | cons top rest =>
    have htop : top.number = topNumber := Option.some.inj hv.top
    obtain rfl | hrest := List.mem_cons.1 hu
    · exact absurd htop hn
    · exact hrest

/-- **Behind the top segment, what is built is ready.** -/
theorem ready_of_build (hs : s.Indexed) (h : s.build mode topDepth topLength = .ok r)
    (hu : u ∈ r.segments) (hn : u.number ≠ topNumber) : u.ready = true := by
  cases mode with
  | incremental => exact (changesAdded_of_build hs h).ready u hu
  | absolute =>
    have htail := (inOrder_of_build hs h).mem_tail hu hn
    exact (ready_and_volumeFilled_of_build hs h u htail).1

/-- With absolute nodes the top segment keeps its mark. -/
theorem top_ready_of_buildAbsolute (hs : s.Indexed)
    (h : s.build .absolute topDepth topLength = .ok r) :
    ∃ t ∈ s.segments, ∃ u ∈ r.segments, t.number = topNumber ∧ u.number = topNumber ∧
      u.ready = t.ready := by
  obtain ⟨q, hq, hlink⟩ := build_eq_ok.1 h
  obtain ⟨ordered, hordered, -⟩ := resolveAbsolute_eq_ok.1 hq
  obtain ⟨-, hspread⟩ := runsSpread_of_eq_ok hs hordered hq
  obtain ⟨_, -, hperm, -⟩ := exists_placement_of_order hs hordered
  -- Position 0 holds the top segment all the way.
  have htop := (inOrder_of_build hs h).top
  rw [List.getElem?_map] at htop
  obtain ⟨u, hu, hun⟩ := Option.map_eq_some_iff.1 htop
  obtain ⟨w, hw, heq⟩ := exists_getElem?_of_forall₂ (forall₂_of_linkInlets hlink).flip hu
  obtain ⟨t, ht⟩ := hspread.exists_before hw
  have hother := hspread.other 0 t w ht hw
  refine ⟨t, hperm.mem_iff.2 (List.mem_of_getElem? ht), u, List.mem_of_getElem? hu, ?_, hun, ?_⟩
  · rw [← hun, heq, hother]
  · rw [heq]
    exact (hspread.kept 0 t w ht hw (.inl rfl)).2

/-- All that is built is ready if the top segment is settled, or was ready before. -/
theorem forall_ready_iff_of_build (hs : s.Indexed) (h : s.build mode topDepth topLength = .ok r) :
    (∀ u ∈ r.segments, u.ready = true) ↔
      mode = .incremental ∨ ∃ t ∈ s.segments, t.number = topNumber ∧ t.ready = true := by
  cases mode with
  | incremental => exact iff_of_true (changesAdded_of_build hs h).ready (.inl rfl)
  | absolute =>
    obtain ⟨t₀, ht₀, u₀, hu₀, htn, hun, hmark⟩ := top_ready_of_buildAbsolute hs h
    constructor
    · exact fun hall => .inr ⟨t₀, ht₀, htn, hmark.symm.trans (hall u₀ hu₀)⟩
    · rintro (hmode | ⟨t, ht, hn, hready⟩) u hu
      · cases hmode
      · obtain rfl := List.inj_on_of_nodup_map hs.nodup ht ht₀ (hn.trans htn.symm)
        by_cases hne : u.number = topNumber
        · obtain rfl := List.inj_on_of_nodup_map (hs.build h).nodup hu hu₀ (hne.trans hun.symm)
          exact hmark.trans hready
        · exact ready_of_build hs h hu hne

/-- **Which processed segments are ready.**  After a successful processing of a reachable
set, every segment but the top one is ready. All of them are exactly if the changes of
incremental records were added, which settles the top segment, or if the top segment was
ready before: with absolute nodes nothing settles it and nothing refuses it. -/
theorem ready_of_process (hs : Reachable s)
    (h : (s.process mode topDepth topLength options).outcome = .ok r) :
    (∀ u ∈ r.segments, u.number ≠ topNumber → u.ready = true) ∧
      ((∀ u ∈ r.segments, u.ready = true) ↔
        mode = .incremental ∨ ∃ t ∈ s.segments, t.number = topNumber ∧ t.ready = true) := by
  obtain ⟨built, hbuilt, -, rfl⟩ := process_eq_ok.1 h
  have hall := forall_ready_iff_of_build hs.indexed hbuilt
  exact ⟨fun u hu hn => ready_of_build hs.indexed hbuilt hu hn, hall⟩

/-- Behind the top segment all nodes are ready once the gaps are filled. -/
theorem ready_of_process_gapped :
    Reachable gapped ∧ ∃ r, (gapped.process .absolute 0.0 0.0 {}).outcome = .ok r ∧
      (∀ u ∈ r.segments, u.number ≠ topNumber → u.ready = true) ∧
        ((∀ u ∈ r.segments, u.ready = true) ↔ GeometryMode.absolute = .incremental ∨
          ∃ t ∈ gapped.segments, t.number = topNumber ∧ t.ready = true) := by
  have hreach : Reachable gapped := reachable_ofSegments ..
  obtain ⟨r, hr⟩ := exists_of_isOk
    (show (gapped.process .absolute 0.0 0.0 {}).outcome.isOk = true by decide +kernel)
  exact ⟨hreach, r, hr, ready_of_process hreach hr⟩

/-- A gap below a top segment that is not ready itself. -/
def unsettledTop : SegmentSet :=
  ofSegments "W" .friction
    [{ Segment.measured 1 1 0 100.0 1000.0 with ready := false }, .ofLink 2 1 1,
      .measured 3 1 2 140.0 1020.0]

/-- **Absolute nodes are resolved over a top segment that is not ready.**  The gap is spread
from the node of the top segment all the same, and the set is marked as resolved. -/
theorem process_of_unsettledTop :
    Reachable unsettledTop ∧
      ∃ r, (unsettledTop.process .absolute 0.0 0.0 {}).outcome = .ok r ∧ r.resolved = true ∧
        r.segments.map (fun t => (t.number, t.node.length, t.ready))
          = [(1, 100.0, false), (2, 120.0, true), (3, 140.0, true)] := by
  have h : (unsettledTop.process .absolute 0.0 0.0 {}).outcome.map (fun r =>
      (r.resolved, r.segments.map fun t => (t.number, t.node.length, t.ready)))
        = .ok (true, [(1, 100.0, false), (2, 120.0, true), (3, 140.0, true)]) := by
    decide +kernel
  obtain ⟨r, hr, heq⟩ := map_eq_ok.1 h
  exact ⟨reachable_ofSegments .., r, hr, congrArg Prod.fst heq, congrArg Prod.snd heq⟩

end SegmentSet
end MultiSegmentWell
