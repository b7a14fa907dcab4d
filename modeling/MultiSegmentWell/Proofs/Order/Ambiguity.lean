/-
# Segments that are ambiguous

SPEC_FULL.md, 4.3 and 8, scenario E: a tie on a branch.

Ordering is given up as ambiguous when two pending segments continue the branch placed last.
The failure is reported as two segments that share their outlet, but what is compared is only
their branch.

A pending segment that flows into a placed one of its own branch flows into the one placed last
(`Placement.eq_last`): behind any other, it would have been the only one to continue the branch
and would have come next. So each of the two segments flows into the one placed last or comes
from another branch (`rivals_of_order`). Where neither comes from another branch they share
their outlet, as reported (`different_and_rivals_of_ambiguous`); where one does, they need not
(`different_outlets_of_ambiguous`).
-/

import MultiSegmentWell.Proofs.Order.Entries

namespace MultiSegmentWell
namespace SegmentSet

/-- A segment that can come next on the branch of the one placed last: it flows into that
segment, or from another branch. -/
structure Rival (segments : List Segment) (last t : Segment) : Prop where
  mem : t ∈ segments
  branch : t.branch = last.branch
  source : t.outlet = last.number ∨ LeavesBranch segments t

variable {segments placed : List Segment} {last p t u : Segment}

/-- **Only the segment placed last has pending segments of its own branch behind it.** -/
theorem Placement.eq_last (h : Placement segments placed last) (hp : p ∈ placed)
    (hpt : p.number = t.outlet) (hb : p.branch = t.branch) (ht : t ∈ segments)
    (hnot : t ∉ placed) : p = last := by
  induction h with
  | top => exact List.mem_singleton.1 hp
  | @next placed last s hbefore hfollows ih =>
    obtain ⟨hold, hne⟩ := not_mem_concat.1 hnot
    rcases List.mem_append.1 hp with hp | hp
    · -- `t` continued the branch when `s` was placed, so `s` should have been `t`
      obtain rfl := ih hp hold
      exact absurd (hfollows.alone t ht hold (List.mem_map.2 ⟨p, hp, hpt⟩) hb.symm) hne
    · exact List.mem_singleton.1 hp

/-- What can continue the branch placed last flows into the segment placed last, or from
another branch. -/
theorem Placement.rival (h : Placement segments placed last) (ht : t ∈ segments)
    (hnot : t ∉ placed) (ho : OutletPlaced placed t) (hb : t.branch = last.branch) :
    Rival segments last t := by
  refine ⟨ht, hb, ?_⟩
  obtain ⟨p, hp, hpt⟩ := List.mem_map.1 ho
  by_cases hpb : p.branch = t.branch
  · obtain rfl := h.eq_last hp hpt hpb ht hnot
    exact .inl hpt.symm
  · exact .inr ⟨p, h.subset hp, hpt, hpb⟩

namespace Rival

/-- The outlet of a rival is stored. -/
theorem outlet_mem (h : Rival segments last t) (hlast : last ∈ segments) :
    t.outlet ∈ segments.map Segment.number := by
  rcases h.source with ho | ⟨u, hu, hn, -⟩
  · exact List.mem_map.2 ⟨last, hlast, ho.symm⟩
  · exact List.mem_map.2 ⟨u, hu, hn⟩

/-- **Rivals share their outlet** unless one of them comes from another branch. -/
theorem outlet_eq (ht : Rival segments last t) (hu : Rival segments last u)
    (htb : ¬ LeavesBranch segments t) (hub : ¬ LeavesBranch segments u) :
    t.outlet = u.outlet :=
  (ht.source.resolve_right htb).trans (hu.source.resolve_right hub).symm

end Rival

variable {s : SegmentSet} {well : String} {branch first second : Int}

/-- **Ordering that is given up as ambiguous** names two rivals, which are different. -/
theorem rivals_of_order (hs : s.Indexed)
    (h : s.order = .error (.ambiguousOutlet well branch first second)) :
    well = s.well ∧ ∃ last ∈ s.segments, last.branch = branch ∧
      ∃ f t, (f.number = first ∧ Rival s.segments last f) ∧
        (t.number = second ∧ Rival s.segments last t) ∧ f ≠ t := by
  have hfault : s.arrange.fault = some (.ambiguousOutlet well branch first second) := by
    rw [order] at h
    split at h
    · rename_i e he
      rw [he, Except.error.inj h]
    · cases h
  by_cases htop : topNumber ∈ s.numbers
  · obtain ⟨l, hl, hperm, hends⟩ := exists_placement_arrange hs htop
    generalize s.arrange = a at hl hperm hends hfault
    cases hends with
    | complete => cases hfault
    | stuck => cases hfault
    | @ambiguous placed pending f t hcontinued =>
      obtain ⟨rfl, rfl, rfl, rfl⟩ := SegmentError.ambiguousOutlet.inj (Option.some.inj hfault)
      obtain ⟨i, j, hij, hi, hj, ⟨hfo, hfb⟩, hto, htb⟩ := hcontinued
      obtain ⟨⟨hf, hfnot⟩, ⟨ht, htnot⟩, hne⟩ := pending_ne hs.segments_nodup hperm hij hi hj
      exact ⟨rfl, l, hl.subset hl.last_mem, rfl, f, t, ⟨rfl, hl.rival hf hfnot hfo hfb⟩,
        ⟨rfl, hl.rival ht htnot hto htb⟩, hne⟩
  · rw [arrange_eq_of_not_mem hs htop] at hfault
    cases hfault

/-- **What an ambiguous branch is.**  Ordering that is given up as ambiguous names two different
stored segments that lie on the branch it names and have stored outlets. Each of them flows
into one and the same segment of the branch, or comes from another branch; so if neither comes
from another branch, they share their outlet. -/
theorem different_and_rivals_of_ambiguous (hs : Reachable s)
    (h : s.order = .error (.ambiguousOutlet well branch first second)) :
    well = s.well ∧ first ≠ second ∧
      ∃ f ∈ s.segments, ∃ t ∈ s.segments, (f.number = first ∧ t.number = second) ∧
        (f.branch = branch ∧ t.branch = branch) ∧
        (f.outlet ∈ s.numbers ∧ t.outlet ∈ s.numbers) ∧
        (∃ last ∈ s.segments, last.branch = branch ∧
          (f.outlet = last.number ∨ LeavesBranch s.segments f) ∧
          (t.outlet = last.number ∨ LeavesBranch s.segments t)) ∧
        (¬ LeavesBranch s.segments f → ¬ LeavesBranch s.segments t → f.outlet = t.outlet) := by
  obtain ⟨hwell, last, hlast, hbranch, f, t, ⟨hfn, hf⟩, ⟨htn, ht⟩, hne⟩ :=
    rivals_of_order hs.indexed h
  have hdifferent : first ≠ second := by
    intro hsame
    refine hne (List.inj_on_of_nodup_map hs.indexed.nodup hf.mem ht.mem ?_)
    rw [hfn, htn, hsame]
  exact ⟨hwell, hdifferent, f, hf.mem, t, ht.mem, ⟨hfn, htn⟩,
    ⟨hf.branch.trans hbranch, ht.branch.trans hbranch⟩,
    ⟨hf.outlet_mem hlast, ht.outlet_mem hlast⟩,
    ⟨last, hlast, hbranch, hf.source, ht.source⟩, hf.outlet_eq ht⟩

/-- Two segments of branch 2 flow into its segment 2. -/
def tied : SegmentSet :=
  ofSegments "W" .friction [.ofLink 4 2 2, .ofLink 1 1 0, .ofLink 3 2 2, .ofLink 2 2 1]

/-- Neither of the two comes from another branch, so they share their outlet. -/
theorem different_and_rivals_of_ambiguous_tied :
    Reachable tied ∧ tied.order = .error (.ambiguousOutlet "W" 2 3 4) ∧
      ∃ f ∈ tied.segments, ∃ t ∈ tied.segments, (f.number = 3 ∧ t.number = 4) ∧
        f.outlet = t.outlet := by
  have hreach : Reachable tied := .after (.add _) (.empty "W" .friction .homogeneous)
  have h : tied.order = .error (.ambiguousOutlet "W" 2 3 4) := by decide +kernel
  obtain ⟨-, -, f, hf, t, ht, ⟨hfn, htn⟩, -, -, -, hshared⟩ :=
    different_and_rivals_of_ambiguous hreach h
  have hstay : ∀ q ∈ tied.segments, q.number = 3 ∨ q.number = 4 →
      ¬ LeavesBranch tied.segments q := by
    decide +kernel
  exact ⟨hreach, h, f, hf, t, ht, ⟨hfn, htn⟩,
    hshared (hstay f hf (.inl hfn)) (hstay t ht (.inr htn))⟩

/-- Branch 2 comes from the top segment, goes on behind its segment 2, and is joined once more
from segment 3 on branch 1. -/
def joinedAgain : SegmentSet :=
  ofSegments "W" .friction
    [.ofLink 1 1 0, .ofLink 2 2 1, .ofLink 3 1 1, .ofLink 4 2 3, .ofLink 5 2 2]

/-- **Two segments can be reported to share their outlet although they do not:** one continues
branch 2, the other joins it from branch 1. -/
theorem different_outlets_of_ambiguous :
    Reachable joinedAgain ∧ joinedAgain.order = .error (.ambiguousOutlet "W" 2 4 5) ∧
      (SegmentError.ambiguousOutlet "W" 2 4 5).message
        = "Well W: segments 4 and 5 in branch 2 share the same outlet segment" ∧
      ∀ f ∈ joinedAgain.segments, ∀ t ∈ joinedAgain.segments,
        f.number = 4 → t.number = 5 → f.outlet ≠ t.outlet :=
  ⟨.after (.add _) (.empty "W" .friction .homogeneous), by decide +kernel, by decide +kernel,
    by decide +kernel⟩

end SegmentSet
end MultiSegmentWell
