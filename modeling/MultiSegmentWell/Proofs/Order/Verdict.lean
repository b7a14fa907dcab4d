/-
# The verdict of ordering

SPEC_FULL.md, 4.3: placed, ambiguous or without a candidate.

A set that is ordered holds the same segments as before, outlet first and with
branches continued where they can be (`perm_and_continued_of_order`).

Ordering is given up as unresolvable exactly over the segments whose outlet chain
does not come to the top segment (`unresolvable_iff_not_reachesTop`): they can never
be placed, and as long as another one is pending, the place where its chain crosses
over to the placed segments can be filled.
-/

import MultiSegmentWell.Proofs.Tree.History

namespace MultiSegmentWell

/-- A segment of which only the link is known. -/
def Segment.ofLink (number branch outlet : Int) : Segment where
  number := number
  branch := branch
  outlet := outlet
  node := Node.unknown
  pipe := Pipe.unknown
  volume := Quantity.unknown
  ready := false

namespace SegmentSet

variable {s r : SegmentSet}

/-- **What ordering gives.**  The segments of an ordered set are those it had before,
each unchanged. The top segment is at position 0, every other one is stored after its
outlet, and where a segment stored after position `k` continues the branch of the one
at `k`, it is the only one that does, at position `k + 1`. -/
theorem perm_and_continued_of_order (hs : Reachable s) (h : s.order = .ok r) :
    r.segments.Perm s.segments ∧ r.numbers[0]? = some topNumber ∧
      (∀ i t, r.segments[i]? = some t → i ≠ 0 → OutletPlaced (r.segments.take i) t) ∧
      ∀ k, (∃ j, ContinuesBranch r.segments k j) →
        ∀ j, ContinuesBranch r.segments k j ↔ j = k + 1 := by
  obtain ⟨_, -, hperm, -⟩ := exists_placement_of_order hs.indexed h
  have hr := inOrder_of_order hs.indexed h
  refine ⟨hperm.symm, hr.top, hr.outlet, fun k ⟨i, hi⟩ j => ⟨hr.continued k j, ?_⟩⟩
  rintro rfl
  obtain rfl := hr.continued k i hi
  exact hi

/-- A branch left at its first segment and taken up again: segment 4 continues branch
1 and comes before the side branch of 5, although 5 is stored first. -/
def forked : SegmentSet :=
  ofSegments "W" .friction [.ofLink 5 2 2, .ofLink 4 1 2, .ofLink 1 1 0, .ofLink 2 1 1]

/-- Segment 4 is placed right behind 2, the only place that continues the branch. -/
theorem perm_and_continued_of_order_forked :
    Reachable forked ∧ forked.order = .ok forked.rearranged ∧
      forked.rearranged.numbers = [1, 2, 4, 5] ∧
      forked.rearranged.segments.Perm forked.segments ∧
      ∀ j, ContinuesBranch forked.rearranged.segments 1 j ↔ j = 2 := by
  have hreach : Reachable forked :=
    .after (.add _) (.empty "W" .friction .homogeneous)
  have hcontinued : ContinuesBranch forked.rearranged.segments 1 2 :=
    ⟨by omega, .ofLink 2 1 1, .ofLink 4 1 2, rfl, rfl, rfl, by decide⟩
  obtain ⟨hperm, -, -, hnext⟩ := perm_and_continued_of_order hreach rfl
  exact ⟨hreach, rfl, rfl, hperm, hnext 1 ⟨2, hcontinued⟩⟩

/-- Pending segments of which none has its outlet placed are the ones whose outlet
chain does not come to the top. -/
theorem mem_pending_iff_of_stuck {segments placed pending : List Segment} {last : Segment}
    (hnd : (segments.map Segment.number).Nodup) (hl : Placement segments placed last)
    (hperm : segments.Perm (placed ++ pending))
    (hstuck : ∀ t ∈ pending, ¬ OutletPlaced placed t) {t : Segment} (ht : t ∈ segments) :
    t ∈ pending ↔ ¬ ReachesTop segments t := by
  have hpending : ∀ {u : Segment}, u ∈ pending ↔ u ∈ segments ∧ u ∉ placed :=
    mem_pending_iff (hnd.of_map _) hperm
  constructor
  · intro hmem hreach
    obtain ⟨q, hq, hnot, ho, -⟩ := hreach.exists_crossing (P := fun _ => True)
      (fun u hu hn => hl.mem_of_number hnd hu hn) (fun _ _ _ _ _ _ h => h)
      (hpending.1 hmem).2 trivial
    exact hstuck q (hpending.2 ⟨hq, hnot⟩) ho
  · intro hnot
    exact hpending.2 ⟨ht, fun hplaced => hnot (hl.reachesTop t hplaced)⟩

/-- Ordering given up as unresolvable names pending segments, which are those whose
outlet chain does not come to the top. -/
theorem exists_pending_of_unresolvable (hs : s.Indexed) (htop : topNumber ∈ s.numbers)
    {well : String} {numbers : List Int}
    (h : s.order = .error (.unresolvableTopology well numbers)) :
    ∃ pending : List Segment, pending ≠ [] ∧ numbers = pending.map Segment.number ∧
      numbers.Nodup ∧ ∀ t, t ∈ pending ↔ t ∈ s.segments ∧ ¬ ReachesTop s.segments t := by
  obtain ⟨l, hl, hperm, hends⟩ := exists_placement_arrange hs htop
  have hfault : s.arrange.fault = some (.unresolvableTopology well numbers) := by
    rw [order] at h
    split at h
    · rename_i e he
      rw [he, Except.error.inj h]
    · cases h
  generalize s.arrange = a at hl hperm hends hfault
  cases hends with
  | complete => cases hfault
  | ambiguous => cases hfault
  | @stuck placed pending hne hstuck =>
    obtain ⟨-, rfl⟩ := SegmentError.unresolvableTopology.inj (Option.some.inj hfault)
    have hsub : pending ⊆ s.segments := fun t ht =>
      hperm.mem_iff.2 (List.mem_append_right placed ht)
    refine ⟨pending, hne, rfl, ?_, fun t => ?_⟩
    · have hnd := (hperm.map Segment.number).nodup_iff.1 hs.nodup
      rw [Arrangement.segments, List.map_append] at hnd
      exact hnd.of_append_right
    · rw [and_congr_right fun ht => (mem_pending_iff_of_stuck hs.nodup hl hperm hstuck ht).symm]
      exact ⟨fun ht => ⟨hsub ht, ht⟩, fun ht => ht.2⟩

/-- **The diagnosis of ordering.**  A set in which the outlet chain of some segment
does not come to the top is never ordered. One in which all chains do is never given
up as unresolvable. And where ordering is given up as unresolvable, it names the
segments whose chain does not come to the top, each once, and no others. -/
theorem unresolvable_iff_not_reachesTop (hs : Reachable s) (htop : topNumber ∈ s.numbers) :
    ((∃ t ∈ s.segments, ¬ ReachesTop s.segments t) → ∀ r, s.order ≠ .ok r) ∧
      ((∀ t ∈ s.segments, ReachesTop s.segments t) →
        ∀ well numbers, s.order ≠ .error (.unresolvableTopology well numbers)) ∧
      ∀ well numbers, s.order = .error (.unresolvableTopology well numbers) →
        numbers.Nodup ∧
          ∀ n, n ∈ numbers ↔ ∃ t ∈ s.segments, t.number = n ∧ ¬ ReachesTop s.segments t := by
  refine ⟨?_, ?_, ?_⟩
  · rintro ⟨t, ht, hnot⟩ r hr
    obtain ⟨_, hl, hperm, -⟩ := exists_placement_of_order hs.indexed hr
    exact hnot (hl.reachesTop t (hperm.mem_iff.1 ht))
  · intro hall well numbers h
    obtain ⟨pending, hne, -, -, hmem⟩ := exists_pending_of_unresolvable hs.indexed htop h
    obtain ⟨t, ht⟩ := List.exists_mem_of_ne_nil pending hne
    obtain ⟨hts, hnot⟩ := (hmem t).1 ht
    exact hnot (hall t hts)
  · intro well numbers h
    obtain ⟨pending, -, rfl, hnd, hmem⟩ := exists_pending_of_unresolvable hs.indexed htop h
    refine ⟨hnd, fun n => ?_⟩
    rw [List.mem_map]
    refine exists_congr fun t => ?_
    rw [hmem, and_assoc, and_comm (b := t.number = n)]

/-- Segments 3 and 4 flow into each other, 5 hangs off them, and the outlet of 6 is
not stored. -/
def circular : SegmentSet :=
  ofSegments "W" .friction
    [.ofLink 5 3 4, .ofLink 3 2 4, .ofLink 1 1 0, .ofLink 4 2 3, .ofLink 2 1 1, .ofLink 6 1 9]

/-- The four segments without a way to the top segment are named, in the order in which they are
left. -/
theorem unresolvable_iff_not_reachesTop_circular :
    Reachable circular ∧ topNumber ∈ circular.numbers ∧
      circular.order = .error (.unresolvableTopology "W" [5, 4, 3, 6]) ∧
      ∀ n, n ∈ [5, 4, 3, 6] ↔
        ∃ t ∈ circular.segments, t.number = n ∧ ¬ ReachesTop circular.segments t := by
  have hreach : Reachable circular :=
    .after (.add _) (.empty "W" .friction .homogeneous)
  have htop : topNumber ∈ circular.numbers := by decide
  have h : circular.order = .error (.unresolvableTopology "W" [5, 4, 3, 6]) := rfl
  exact ⟨hreach, htop, h,
    ((unresolvable_iff_not_reachesTop hreach htop).2.2 "W" [5, 4, 3, 6] h).2⟩

end SegmentSet
end MultiSegmentWell
