/-
# When a run is an outlet chain

SPEC_FULL.md, 4.4: a gap ends at the next ready segment, and not at the end of the storage.

A run is read off the storage order and the marks, without a look at the outlets.
Ordering continues a branch where it can, so within a run, and from its last segment to
the one that closes it, each segment flows into the one stored before it as long as the
branch of that one goes on (`InOrder.continues_iff`). Where it does not, the run goes over
to another branch: a gap at the end of a branch is filled from whichever ready segment is
stored behind it.
-/

import MultiSegmentWell.Proofs.Tree.AbsoluteNodes
import MultiSegmentWell.Proofs.Tree.Resolved

namespace MultiSegmentWell
namespace SegmentSet

/-- The branch of a segment goes on behind it: a segment of the branch flows into it. -/
def BranchGoesOn (segments : List Segment) (p : Segment) : Prop :=
  ∃ q ∈ segments, q.number ≠ topNumber ∧ q.branch = p.branch ∧ q.outlet = p.number

variable {v segments : List Segment} {k : Nat} {p t : Segment} {s r : SegmentSet}

/-- Only the first of segments in order has the number of the top one. -/
theorem InOrder.number_ne_top (hv : InOrder v) (hnd : (v.map Segment.number).Nodup)
    (ht : v[k + 1]? = some t) : t.number ≠ topNumber := by
  intro hn
  have hk : (v.map Segment.number)[k + 1]? = some topNumber := by
    rw [List.getElem?_map, ht, Option.map_some, hn]
  obtain ⟨hlt, -⟩ := List.getElem?_eq_some_iff.1 hk
  have heq := (List.getElem?_inj hlt hnd).1 (hk.trans hv.top.symm)
  cases heq

/-- In order, what continues the branch of a segment stands right behind it. -/
theorem InOrder.getElem?_succ (hv : InOrder v) (hnd : (v.map Segment.number).Nodup)
    (hp : v[k]? = some p) {q : Segment} (hq : q ∈ v) (hn : q.number ≠ topNumber)
    (hb : q.branch = p.branch) (ho : q.outlet = p.number) : v[k + 1]? = some q := by
  obtain ⟨j, hj⟩ := List.getElem?_of_mem hq
  -- The outlet of `q` is `p`, so `q` comes after it, and order leaves one place for it.
  obtain ⟨i, hij, u, hu, hun⟩ := hv.exists_outlet hj hn
  have hi : (v.map Segment.number)[i]? = some p.number := by
    rw [List.getElem?_map, hu, Option.map_some, hun, ho]
  have hk : (v.map Segment.number)[k]? = some p.number := by
    rw [List.getElem?_map, hp, Option.map_some]
  obtain rfl : i = k :=
    (List.getElem?_inj (List.getElem?_eq_some_iff.1 hi).1 hnd).1 (hi.trans hk.symm)
  have hplaced : OutletPlaced (v.take (i + 1)) q := by
    refine List.mem_map.2 ⟨p, List.mem_of_getElem? (i := i) ?_, ho.symm⟩
    rw [List.getElem?_take_of_lt (Nat.lt_succ_self i), hp]
  obtain rfl := hv.continued i j ⟨hij, p, q, hp, hj, hb, hplaced⟩
  exact hj

/-- **In order, the branch of a segment is continued by the next one** if it goes on at
all. -/
theorem InOrder.continues_iff (hv : InOrder v) (hnd : (v.map Segment.number).Nodup)
    (hp : v[k]? = some p) (ht : v[k + 1]? = some t) :
    t.branch = p.branch ∧ t.outlet = p.number ↔ BranchGoesOn v p := by
  constructor
  · rintro ⟨hb, ho⟩
    exact ⟨t, List.mem_of_getElem? ht, hv.number_ne_top hnd ht, hb, ho⟩
  · rintro ⟨q, hq, hn, hb, ho⟩
    obtain rfl := Option.some.inj (ht.symm.trans (hv.getElem?_succ hnd hp hq hn hb ho))
    exact ⟨hb, ho⟩

/-- **Where resolving fails, processing fails** for the same reason. -/
theorem process_of_resolveAbsolute_eq_error {e : SegmentError} (h : s.resolveAbsolute = .error e)
    (topDepth topLength : Float) (options : Options) :
    (s.process .absolute topDepth topLength options).outcome = .error e := by
  have hbuild : s.build .absolute topDepth topLength = .error e := bind_eq_error.2 (.inl h)
  exact Reported.outcome_bind_of_error
    (r := .ofExcept (s.build .absolute topDepth topLength)) hbuild

/-- **How far interpolation keeps to one outlet chain.**  Where absolute nodes are
processed with success, every segment that is not ready lies in a closed run of the
ordered segments. There each segment but the first, the closing one included, continues
the branch of the one before it and flows into it exactly if that branch goes on. A run
that no ready segment closes is refused, with the number of its first segment. -/
theorem continues_iff_of_process (hs : Reachable s) (topDepth topLength : Float)
    (options : Options) :
    (∀ r, (s.process .absolute topDepth topLength options).outcome = .ok r →
      ∃ ordered, s.order = .ok ordered ∧
        (∀ (k : Nat) (t : Segment), 1 ≤ k → ordered.segments[k]? = some t → t.ready = false →
          ∃ b e, ClosedRun ordered.segments b e ∧ b ≤ k ∧ k < e) ∧
        ∀ b e, ClosedRun ordered.segments b e → ∀ (k : Nat) (p t : Segment), b ≤ k → k < e →
          ordered.segments[k]? = some p → ordered.segments[k + 1]? = some t →
            (t.branch = p.branch ∧ t.outlet = p.number ↔ BranchGoesOn s.segments p)) ∧
      ∀ ordered b first, s.order = .ok ordered →
        UnreadyRun ordered.segments b ordered.segments.length →
          ordered.segments[b]? = some first →
            (s.process .absolute topDepth topLength options).outcome
              = .error (.incompleteRange s.well first.number) := by
  refine ⟨fun r h => ?_, fun ordered b first hordered hrun hfirst => ?_⟩
  · obtain ⟨built, hbuilt, -, -⟩ := process_eq_ok.1 h
    obtain ⟨q, hq, -⟩ := build_eq_ok.1 hbuilt
    obtain ⟨ordered, hordered, -⟩ := resolveAbsolute_eq_ok.1 hq
    obtain ⟨_, -, hperm, -⟩ := exists_placement_of_order hs.indexed hordered
    obtain ⟨-, hspread⟩ := runsSpread_of_eq_ok hs.indexed hordered hq
    refine ⟨ordered, hordered, hspread.covered, fun b e _ k p t _ _ hp ht => ?_⟩
    rw [(inOrder_of_order hs.indexed hordered).continues_iff (hs.indexed.order hordered).nodup hp ht]
    exact exists_congr fun q => and_congr_left fun _ => hperm.mem_iff.symm
  · exact process_of_resolveAbsolute_eq_error
      (resolveAbsolute_of_unreadyRun hs.indexed hordered hrun hfirst) topDepth topLength options

/-- A gap on branch 2, which ends there, and a ready segment on branch 3. Both flow
into the top segment. -/
def bypassed : SegmentSet :=
  ofSegments "W" .friction
    [.measured 1 1 0 100.0 100.0, .ofLink 2 2 1, .measured 3 3 1 120.0 110.0]

/-- The same segments, stored the other way round. -/
def bypassedTurned : SegmentSet :=
  ofSegments "W" .friction
    [.measured 1 1 0 100.0 100.0, .measured 3 3 1 120.0 110.0, .ofLink 2 2 1]

/-- The gap of two segments on the main bore is closed by segment 4, the last of an outlet
chain from 2 on; a gap at the very end is refused. -/
theorem continues_iff_of_process_gapped :
    (Reachable gapped ∧ ∃ r ordered,
      (gapped.process .absolute 0.0 0.0 {}).outcome = .ok r ∧ gapped.order = .ok ordered ∧
        ordered.numbers = [1, 2, 3, 4, 5, 6] ∧ ClosedRun ordered.segments 1 3 ∧
        ∀ (k : Nat) (p t : Segment), 1 ≤ k → k < 3 → ordered.segments[k]? = some p →
          ordered.segments[k + 1]? = some t → t.branch = p.branch ∧ t.outlet = p.number) ∧
      Reachable bypassedTurned ∧ bypassedTurned.order = .ok bypassedTurned ∧
        UnreadyRun bypassedTurned.segments 2 bypassedTurned.segments.length ∧
        (bypassedTurned.process .absolute 0.0 0.0 {}).outcome = .error (.incompleteRange "W" 2) := by
  have hreach : Reachable gapped := reachable_ofSegments ..
  have hturned : Reachable bypassedTurned := reachable_ofSegments ..
  obtain ⟨r, hr⟩ := exists_of_isOk
    (show (gapped.process .absolute 0.0 0.0 {}).outcome.isOk = true by decide +kernel)
  obtain ⟨ordered, hordered, -, hcontinues⟩ :=
    (continues_iff_of_process hreach 0.0 0.0 {}).1 r hr
  obtain rfl : gapped.rearranged = ordered := Except.ok.inj hordered
  have hrun : ClosedRun gapped.rearranged.segments 1 3 := by
    refine ⟨⟨by omega, ⟨by omega, .inl rfl⟩, fun k hb he => ?_⟩, rfl⟩
    obtain rfl | rfl : k = 1 ∨ k = 2 := by omega
    · rfl
    · rfl
  have hgoesOn : ∀ (k : Nat) (p : Segment), 1 ≤ k → k < 3 →
      gapped.rearranged.segments[k]? = some p → BranchGoesOn gapped.segments p := by
    intro k p hb he hp
    obtain rfl | rfl : k = 1 ∨ k = 2 := by omega
    · obtain rfl := Option.some.inj hp
      exact ⟨.ofLink 3 1 2, List.mem_of_getElem? (i := 3) rfl, by decide, rfl, rfl⟩
    · obtain rfl := Option.some.inj hp
      exact ⟨.measured 4 1 3 130.0 1015.0, List.mem_of_getElem? (i := 2) rfl, by decide, rfl, rfl⟩
  have hlast : UnreadyRun bypassedTurned.segments 2 bypassedTurned.segments.length := by
    refine ⟨by decide, ⟨by omega, .inr rfl⟩, fun k hb he => ?_⟩
    have hlength : bypassedTurned.segments.length = 3 := rfl
    obtain rfl : k = 2 := by omega
    rfl
  have hsame : bypassedTurned.order = .ok bypassedTurned := by decide +kernel
  exact ⟨⟨hreach, r, _, hr, hordered, rfl, hrun, fun k p t hb he hp ht =>
      (hcontinues 1 3 hrun k p t hb he hp ht).2 (hgoesOn k p hb he hp)⟩,
    hturned, hsame, hlast,
    (continues_iff_of_process hturned 0.0 0.0 {}).2 bypassedTurned 2 _ hsame hlast rfl⟩

/-- **A gap at the end of a branch is filled from another branch.**  Segment 2 is put
halfway to segment 3, which does not flow into it. With the two stored the other way
round the same gap is refused. -/
theorem filled_from_other_branch :
    (∃ ordered, bypassed.order = .ok ordered ∧ ClosedRun ordered.segments 1 2 ∧
        ordered.segments[1]?.map Segment.number = some 2 ∧
        ordered.segments[2]?.map Segment.outlet = some topNumber) ∧
      ((bypassed.process .absolute 0.0 0.0 {}).outcome.map fun r =>
        (r.get? 2).map Segment.node) = .ok (some ⟨110.0, 105.0, 0.0, 0.0⟩) ∧
      ((bypassedTurned.process .absolute 0.0 0.0 {}).outcome.map fun _ => ())
        = .error (.incompleteRange "W" 2) := by
  have hrun : ClosedRun bypassed.segments 1 2 := by
    refine ⟨⟨by omega, ⟨by omega, .inl rfl⟩, fun k hb he => ?_⟩, rfl⟩
    obtain rfl : k = 1 := by omega
    rfl
  have hordered : bypassed.order = .ok bypassed := by decide +kernel
  exact ⟨⟨bypassed, hordered, hrun, rfl, rfl⟩, by decide +kernel, by decide +kernel⟩

end SegmentSet
end MultiSegmentWell
