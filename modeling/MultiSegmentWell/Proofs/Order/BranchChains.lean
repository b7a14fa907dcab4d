/-
# Branches that are chains

SPEC_FULL.md, 1: a branch is continued where it can be.

On a branch that is a simple chain no two segments have the same outlet, and only its
first segment flows into another branch. If all branches of a set are such chains
(`SimpleBranches`) and every outlet chain comes to the top, ordering succeeds and
stores each branch in one piece, in the order of its chain
(`exists_order_of_simpleBranches`).

The reason is that a branch is completed before another one starts (`Undivided`): a
pending segment on a branch that has a placed one lies on the branch placed last, and
if its outlet is placed, that is the segment placed last. So two segments never
continue a branch at once, and no two segments compete for a place in its chain.
-/

import MultiSegmentWell.Proofs.Order.Verdict
import Mathlib.Data.List.Chain

namespace MultiSegmentWell
namespace SegmentSet

/-- The outlet of a segment is stored and lies on a branch. -/
def HasOutletOn (segments : List Segment) (branch : Int) (t : Segment) : Prop :=
  ∃ u ∈ segments, u.number = t.outlet ∧ u.branch = branch

/-- The outlet of a segment is stored and lies on another branch. -/
def LeavesBranch (segments : List Segment) (t : Segment) : Prop :=
  ∃ u ∈ segments, u.number = t.outlet ∧ u.branch ≠ t.branch

instance (segments : List Segment) (branch : Int) (t : Segment) :
    Decidable (HasOutletOn segments branch t) :=
  inferInstanceAs (Decidable (∃ u ∈ segments, u.number = t.outlet ∧ u.branch = branch))

instance (segments : List Segment) (t : Segment) : Decidable (LeavesBranch segments t) :=
  inferInstanceAs (Decidable (∃ u ∈ segments, u.number = t.outlet ∧ u.branch ≠ t.branch))

/-- Every branch is a simple chain. -/
structure SimpleBranches (segments : List Segment) : Prop where
  /-- On the branch of the top segment every other segment has its outlet on that branch. -/
  trunk : ∀ top ∈ segments, top.number = topNumber → ∀ t ∈ segments, t.number ≠ topNumber →
    t.branch = top.branch → HasOutletOn segments top.branch t
  /-- On every other branch exactly one segment has its outlet on another branch. -/
  entry : ∀ top ∈ segments, top.number = topNumber → ∀ t ∈ segments, t.branch ≠ top.branch →
    ∃! e, e ∈ segments ∧ e.branch = t.branch ∧ LeavesBranch segments e
  /-- No two segments of one branch have the same outlet. -/
  fork : ∀ t ∈ segments, ∀ u ∈ segments, t.branch = u.branch → t.outlet = u.outlet → t = u

/-- Placed segments of which only the branch of the last one can be incomplete, and
that only behind the last one. -/
structure Undivided (segments placed : List Segment) (last : Segment) : Prop where
  /-- Of a branch with a placed segment, the rest flows into the branch itself. -/
  entered : ∀ q ∈ segments, q ∉ placed → ∀ p ∈ placed, p.branch = q.branch →
    HasOutletOn segments q.branch q
  /-- Only the branch placed last is incomplete. -/
  current : ∀ q ∈ segments, q ∉ placed → ∀ p ∈ placed, p.branch = q.branch →
    q.branch = last.branch
  /-- It can be continued only from the segment placed last. -/
  tail : ∀ q ∈ segments, q ∉ placed → OutletPlaced placed q → q.branch = last.branch →
    q.outlet = last.number

variable {segments placed : List Segment} {last s : Segment}

/-- The outlet of a segment other than the top one is stored if its chain comes to
the top. -/
theorem ReachesTop.exists_outlet {t : Segment} (h : ReachesTop segments t)
    (hn : t.number ≠ topNumber) : ∃ u ∈ segments, u.number = t.outlet := by
  obtain ⟨_, hchain⟩ := h
  cases hchain with
  | top _ htop => exact absurd htop hn
  | step _ _ ho hrest => exact ⟨_, hrest.mem, ho⟩

/-- The placed top segment alone is undivided. -/
theorem undivided_top (hb : SimpleBranches segments) (hnd : (segments.map Segment.number).Nodup)
    {t : Segment} (ht : t ∈ segments) (hn : t.number = topNumber) :
    Undivided segments [t] t where
  entered q hq hnot p hp hpq := by
    obtain rfl := List.mem_singleton.1 hp
    rw [← hpq]
    refine hb.trunk p ht hn q hq (fun hqn => hnot (List.mem_singleton.2 ?_)) hpq.symm
    exact List.inj_on_of_nodup_map hnd hq ht (hqn.trans hn.symm)
  current q _ _ p hp hpq := by
    obtain rfl := List.mem_singleton.1 hp
    exact hpq.symm
  tail q _ _ ho _ := by simpa [OutletPlaced] using ho

/-- What is not placed after one more segment was not placed before and is not that one. -/
theorem not_mem_concat {q : Segment} : q ∉ placed ++ [s] ↔ q ∉ placed ∧ q ≠ s := by
  rw [List.mem_append, List.mem_singleton, not_or]

/-- Placing a segment leaves the placed ones undivided if the rest of every branch with
a placed segment lies on the branch of the new one, flows into it, and has no outlet
among the segments placed before. -/
theorem Undivided.concat
    (hcurrent : ∀ q ∈ segments, q ∉ placed → q ≠ s → ∀ p ∈ placed, p.branch = q.branch →
      q.branch = s.branch)
    (hrest : ∀ q ∈ segments, q ∉ placed → q ≠ s → q.branch = s.branch →
      HasOutletOn segments q.branch q ∧ ¬ OutletPlaced placed q) :
    Undivided segments (placed ++ [s]) s := by
  have hbranch : ∀ q ∈ segments, q ∉ placed ++ [s] → ∀ p ∈ placed ++ [s],
      p.branch = q.branch → q.branch = s.branch := by
    intro q hq hnew p hp hpq
    obtain ⟨hnot, hne⟩ := not_mem_concat.1 hnew
    rcases List.mem_append.1 hp with hp | hp
    · exact hcurrent q hq hnot hne p hp hpq
    · obtain rfl := List.mem_singleton.1 hp
      exact hpq.symm
  refine ⟨fun q hq hnew p hp hpq => ?_, hbranch, fun q hq hnew ho hqs => ?_⟩
  · obtain ⟨hnot, hne⟩ := not_mem_concat.1 hnew
    exact (hrest q hq hnot hne (hbranch q hq hnew p hp hpq)).1
  · obtain ⟨hnot, hne⟩ := not_mem_concat.1 hnew
    exact (outletPlaced_concat.1 ho).resolve_left (hrest q hq hnot hne hqs).2

/-- Two segments never continue the branch placed last at once: both would flow into
the segment placed last. -/
theorem Undivided.eq_of_continuing (hb : SimpleBranches segments)
    (h : Undivided segments placed last) {t u : Segment}
    (ht : t ∈ segments) (htnot : t ∉ placed) (hto : OutletPlaced placed t)
    (htl : t.branch = last.branch)
    (hu : u ∈ segments) (hunot : u ∉ placed) (huo : OutletPlaced placed u)
    (hul : u.branch = last.branch) : t = u := by
  have hout := (h.tail t ht htnot hto htl).trans (h.tail u hu hunot huo hul).symm
  exact hb.fork t ht u hu (htl.trans hul.symm) hout

/-- The branch placed last is continued from its last segment. -/
theorem Undivided.continued (hb : SimpleBranches segments) (h : Undivided segments placed last)
    (hlast : last ∈ placed) (hf : Follows segments placed last s) (hsl : s.branch = last.branch) :
    s.outlet = last.number ∧ Undivided segments (placed ++ [s]) s := by
  have hso : s.outlet = last.number := h.tail s hf.mem hf.fresh hf.outlet hsl
  refine ⟨hso, .concat (fun q hq hnot _ p hp hpq => ?_) (fun q hq hnot hne hqs => ⟨?_, ?_⟩)⟩
  · exact (h.current q hq hnot p hp hpq).trans hsl.symm
  · exact h.entered q hq hnot last hlast (hsl.symm.trans hqs.symm)
  · -- `q` would have the outlet of `s`
    intro ho
    have hqo := h.tail q hq hnot ho (hqs.trans hsl)
    exact hne (hb.fork q hq s hf.mem hqs (hqo.trans hso.symm))

/-- **Where the branch placed last is not continued, it is complete**, and the next
segment starts a branch of its own. -/
theorem Undivided.fresh_branch (hnd : (segments.map Segment.number).Nodup)
    (hall : ∀ t ∈ segments, ReachesTop segments t) (h : Undivided segments placed last)
    (hl : Placement segments placed last) (hf : Follows segments placed last s)
    (hsl : s.branch ≠ last.branch) :
    ∀ q ∈ segments, q ∉ placed → ∀ p ∈ placed, p.branch ≠ q.branch := by
  intro q hq hnot p hp hpq
  have hql : q.branch = last.branch := h.current q hq hnot p hp hpq
  -- the chain of `q` stays on the branch until it crosses over to a placed segment
  obtain ⟨x, hx, hxnot, hxo, hxl⟩ := (hall q hq).exists_crossing
    (P := fun x => x.branch = last.branch) (fun u hu hn => hl.mem_of_number hnd hu hn)
    (fun x hx u hu hxnot huo hxl => by
      obtain ⟨v, hv, hvo, hvb⟩ := h.entered x hx hxnot last hl.last_mem hxl.symm
      rw [List.inj_on_of_nodup_map hnd hu hv (huo.trans hvo.symm), hvb, hxl])
    hnot hql
  exact hsl ((hf.alone x hx hxnot hxo hxl) ▸ hxl)

/-- A branch is started at its first segment. -/
theorem Undivided.started (hb : SimpleBranches segments)
    (hnd : (segments.map Segment.number).Nodup) (hall : ∀ t ∈ segments, ReachesTop segments t)
    (h : Undivided segments placed last) (hl : Placement segments placed last)
    (hf : Follows segments placed last s) (hsl : s.branch ≠ last.branch) :
    Undivided segments (placed ++ [s]) s := by
  have hfresh := h.fresh_branch hnd hall hl hf hsl
  obtain ⟨top, htop, htopmem, hn⟩ := hl.head?_eq
  have htopplaced : top ∈ placed := List.mem_of_head? htop
  have hbranch : s.branch ≠ top.branch := (hfresh s hf.mem hf.fresh top htopplaced).symm
  obtain ⟨e, -, he⟩ := hb.entry top htopmem hn s hf.mem hbranch
  obtain ⟨p, hp, hpo⟩ := List.mem_map.1 hf.outlet
  have hse : s = e := he s ⟨hf.mem, rfl, p, hl.subset hp, hpo, hfresh s hf.mem hf.fresh p hp⟩
  refine .concat (fun q hq hnot _ p hp hpq => absurd hpq (hfresh q hq hnot p hp))
    fun q hq hnot hne hqs => ?_
  -- the others of the branch flow into it, since only `s` flows into another one
  have hinner : HasOutletOn segments q.branch q := by
    have hqn : q.number ≠ topNumber := fun hqn => hnot (hl.mem_of_number hnd hq hqn)
    obtain ⟨u, hu, huo⟩ := (hall q hq).exists_outlet hqn
    refine ⟨u, hu, huo, ?_⟩
    by_contra huq
    exact hne ((he q ⟨hq, hqs, u, hu, huo, huq⟩).trans hse.symm)
  refine ⟨hinner, fun ho => ?_⟩
  obtain ⟨u, hu, huo, hub⟩ := hinner
  obtain ⟨v, hv, hvo⟩ := List.mem_map.1 ho
  rw [List.inj_on_of_nodup_map hnd hu (hl.subset hv) (huo.trans hvo.symm)] at hub
  exact hfresh q hq hnot v hv hub

/-- **Placed segments are undivided** when all branches are simple chains. -/
theorem Placement.undivided (hb : SimpleBranches segments)
    (hnd : (segments.map Segment.number).Nodup) (hall : ∀ t ∈ segments, ReachesTop segments t)
    (h : Placement segments placed last) : Undivided segments placed last := by
  induction h with
  | top hmem hn => exact undivided_top hb hnd hmem hn
  | @next placed last s hl hf ih =>
    by_cases hsl : s.branch = last.branch
    · exact (ih.continued hb hl.last_mem hf hsl).2
    · exact ih.started hb hnd hall hl hf hsl

/-- The segments of a branch, in storage order. -/
def onBranch (segments : List Segment) (branch : Int) : List Segment :=
  segments.filter fun t => t.branch == branch

/-- One more placed segment stands at the end of its branch. -/
theorem onBranch_concat (placed : List Segment) (s : Segment) (branch : Int) :
    onBranch (placed ++ [s]) branch
      = onBranch placed branch ++ if s.branch = branch then [s] else [] := by
  rw [onBranch, List.filter_append, onBranch]
  split_ifs with h <;> simp [h]

/-- No segment lies on a branch that no segment has. -/
theorem onBranch_eq_nil {branch : Int} (h : ∀ p ∈ placed, p.branch ≠ branch) :
    onBranch placed branch = [] := by
  rw [onBranch, List.filter_eq_nil_iff]
  intro p hp hpb
  exact h p hp (beq_iff_eq.1 hpb)

/-- Segments each of which is the outlet of the next. -/
def IsOutletRun (run : List Segment) : Prop := run.IsChain fun p q => q.outlet = p.number

/-- A run is extended by a segment whose outlet ends it. -/
theorem IsOutletRun.concat {run : List Segment} (h : IsOutletRun run)
    (hlast : ∀ x, run.getLast? = some x → s.outlet = x.number) : IsOutletRun (run ++ [s]) := by
  refine List.IsChain.append h (List.isChain_singleton s) fun x hx y hy => ?_
  obtain rfl := Option.some.inj hy
  exact hlast x hx

/-- **Each branch is placed in one piece**, in the order of its chain; the branch of
the segment placed last reaches to the end. -/
theorem Placement.exists_run (hb : SimpleBranches segments)
    (hnd : (segments.map Segment.number).Nodup) (hall : ∀ t ∈ segments, ReachesTop segments t)
    (h : Placement segments placed last) (b : Int) :
    IsOutletRun (onBranch placed b) ∧
      ∃ before after, placed = before ++ onBranch placed b ++ after ∧
        (b = last.branch → after = []) := by
  induction h with
  | @top t hmem hn =>
    by_cases ht : t.branch = b
    · have hone : onBranch [t] b = [t] := by simp [onBranch, ht]
      rw [hone]
      exact ⟨List.isChain_singleton t, [], [], rfl, fun _ => rfl⟩
    · have hnone : onBranch [t] b = [] := by simp [onBranch, ht]
      rw [hnone]
      exact ⟨List.isChain_nil, [], [t], rfl, fun h => absurd h.symm ht⟩
  | @next placed last s hl hf ih =>
    have hu := hl.undivided hb hnd hall
    obtain ⟨hrun, before, after, hplaced, hafter⟩ := ih
    rw [onBranch_concat]
    split_ifs with hsb
    · by_cases hsl : s.branch = last.branch
      · obtain rfl := hafter (hsb.symm.trans hsl)
        rw [List.append_nil] at hplaced
        have hso := (hu.continued hb hl.last_mem hf hsl).1
        refine ⟨hrun.concat fun x hx => ?_, before, [], ?_, fun _ => rfl⟩
        · have hgl := hl.getLast?_eq
          rw [hplaced, List.getLast?_append, hx, Option.some_or] at hgl
          rw [hso, Option.some.inj hgl]
        · rw [List.append_nil, ← List.append_assoc, ← hplaced]
      · have hfresh := hu.fresh_branch hnd hall hl hf hsl s hf.mem hf.fresh
        rw [onBranch_eq_nil fun p hp hpb => hfresh p hp (hpb.trans hsb.symm), List.nil_append]
        exact ⟨List.isChain_singleton s, placed, [], by rw [List.append_nil], fun _ => rfl⟩
    · rw [List.append_nil]
      refine ⟨hrun, before, after ++ [s], ?_, fun h => absurd h.symm hsb⟩
      rw [← List.append_assoc, ← hplaced]

variable {w : SegmentSet}

/-- **A tree of simple chains is arranged to the end.** -/
theorem arrange_complete (hs : w.Indexed) (htop : topNumber ∈ w.numbers)
    (hall : ∀ t ∈ w.segments, ReachesTop w.segments t) (hb : SimpleBranches w.segments) :
    w.arrange.fault = none ∧ w.arrange.pending = [] := by
  obtain ⟨l, hl, hperm, hends⟩ := exists_placement_arrange hs htop
  have hu := hl.undivided hb hs.nodup hall
  generalize w.arrange = a at hl hperm hends hu
  cases hends with
  | complete => exact ⟨rfl, rfl⟩
  | @ambiguous placed pending first second hcontinued =>
    obtain ⟨i, j, hij, hi, hj, ⟨hfo, hfb⟩, hso, hsb⟩ := hcontinued
    obtain ⟨⟨hf, hfnot⟩, ⟨hs', hsnot⟩, hne⟩ := pending_ne hs.segments_nodup hperm hij hi hj
    exact absurd (hu.eq_of_continuing hb hf hfnot hfo hfb hs' hsnot hso hsb) hne
  | @stuck placed pending hne hstuck =>
    obtain ⟨t, ht⟩ := List.exists_mem_of_ne_nil pending hne
    have hmem : t ∈ w.segments := hperm.mem_iff.2 (List.mem_append_right _ ht)
    exact absurd (hall t hmem) ((mem_pending_iff_of_stuck hs.nodup hl hperm hstuck hmem).1 ht)

/-- **Trees of simple chains are ordered.**  If the outlet chain of every segment
comes to the top and every branch is a simple chain, ordering succeeds, whatever the
storage order, and stores the segments of each branch one right behind the other, each
the outlet of the next. -/
theorem exists_order_of_simpleBranches (hw : Reachable w) (htop : topNumber ∈ w.numbers)
    (hall : ∀ t ∈ w.segments, ReachesTop w.segments t) (hb : SimpleBranches w.segments) :
    ∃ r, w.order = .ok r ∧ r.segments.Perm w.segments ∧
      ∀ b, onBranch r.segments b <:+: r.segments ∧ IsOutletRun (onBranch r.segments b) := by
  have hs := hw.indexed
  obtain ⟨l, hl, hperm, -⟩ := exists_placement_arrange hs htop
  obtain ⟨hfault, hpending⟩ := arrange_complete hs htop hall hb
  have hsegs : w.rearranged.segments = w.arrange.placed := by
    show w.arrange.placed ++ w.arrange.pending = _
    rw [hpending, List.append_nil]
  refine ⟨w.rearranged, by rw [order, hfault], hperm.symm, fun b => ?_⟩
  rw [hsegs]
  obtain ⟨hrun, before, after, hplaced, -⟩ := hl.exists_run hb hs.nodup hall b
  exact ⟨⟨before, after, hplaced.symm⟩, hrun⟩

/-- A main bore 1, 2, 5 with two side branches, 3 and 4 on the first, 6 on the second. -/
def branched : SegmentSet :=
  ofSegments "W" .friction
    [.ofLink 6 3 1, .ofLink 4 2 3, .ofLink 5 1 2, .ofLink 3 2 2, .ofLink 1 1 0, .ofLink 2 1 1]

/-- All three branches are simple chains. -/
theorem simpleBranches_branched : SimpleBranches branched.segments where
  trunk := by decide +kernel
  entry := by
    intro top htop hn t ht hb
    have hone : ∀ top ∈ branched.segments, top.number = topNumber →
        ∀ t ∈ branched.segments, t.branch ≠ top.branch → ∃ e ∈ branched.segments,
          (e.branch = t.branch ∧ LeavesBranch branched.segments e) ∧
            ∀ q ∈ branched.segments, q.branch = t.branch → LeavesBranch branched.segments q →
              q = e := by
      decide +kernel
    obtain ⟨e, he, hleaves, hunique⟩ := hone top htop hn t ht hb
    exact ⟨e, ⟨he, hleaves⟩, fun q ⟨hq, hqb, hql⟩ => hunique q hq hqb hql⟩
  fork := by decide +kernel

/-- The tree is ordered from a storage order in which nothing stands where it should, each branch in
one piece. -/
theorem exists_order_of_simpleBranches_branched :
    Reachable branched ∧ topNumber ∈ branched.numbers ∧
      (∀ t ∈ branched.segments, ReachesTop branched.segments t) ∧
      SimpleBranches branched.segments ∧
      ∃ r, branched.order = .ok r ∧ r.segments.Perm branched.segments ∧
        ∀ b, onBranch r.segments b <:+: r.segments ∧ IsOutletRun (onBranch r.segments b) := by
  have hreach : Reachable branched :=
    .after (.add _) (.empty "W" .friction .homogeneous)
  have htop : topNumber ∈ branched.numbers := by decide
  have hall : ∀ t ∈ branched.segments, ReachesTop branched.segments t := by
    obtain ⟨_, hl, hperm, -⟩ := exists_placement_of_order hreach.indexed
      (show branched.order = .ok branched.rearranged from rfl)
    exact fun t ht => hl.reachesTop t (hperm.mem_iff.1 ht)
  exact ⟨hreach, htop, hall, simpleBranches_branched,
    exists_order_of_simpleBranches hreach htop hall simpleBranches_branched⟩

end SegmentSet
end MultiSegmentWell
