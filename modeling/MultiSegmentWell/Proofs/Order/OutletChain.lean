/-
# Outlet chains

The outlet chain of a segment leads from it to its outlet, on to the outlet of that,
and so forth, until it comes to the top segment. It has an end only if every outlet
on the way is stored and the way does not lead in a circle; `ReachesTop` says that it
does.

A chain that starts outside of some placed segments and ends among them has to cross
over: one of its segments is not placed, but its outlet is
(`ReachesTop.exists_crossing`).
-/

import MultiSegmentWell.Proofs.Order.Choice

namespace MultiSegmentWell
namespace SegmentSet

/-- The segments on the way from a stored segment along the outlets to the top one. -/
inductive OutletChain (segments : List Segment) : Segment → List Segment → Prop where
  | top {t : Segment} (mem : t ∈ segments) (number : t.number = topNumber) :
    OutletChain segments t [t]
  | step {t u : Segment} {chain : List Segment} (mem : t ∈ segments)
    (number : t.number ≠ topNumber) (outlet : u.number = t.outlet)
    (rest : OutletChain segments u chain) : OutletChain segments t (t :: chain)

/-- The outlet chain of a segment comes to the top segment. -/
def ReachesTop (segments : List Segment) (t : Segment) : Prop :=
  ∃ chain, OutletChain segments t chain

variable {segments placed : List Segment} {t u : Segment}

/-- A segment with an outlet chain is stored. -/
theorem OutletChain.mem {chain : List Segment} (h : OutletChain segments t chain) :
    t ∈ segments := by
  cases h <;> assumption

/-- The top segment reaches itself. -/
theorem reachesTop_of_number (ht : t ∈ segments) (hn : t.number = topNumber) :
    ReachesTop segments t :=
  ⟨[t], .top ht hn⟩

/-- A segment reaches the top from its outlet. -/
theorem ReachesTop.of_outlet (hu : ReachesTop segments u) (ht : t ∈ segments)
    (ho : u.number = t.outlet) : ReachesTop segments t := by
  by_cases hn : t.number = topNumber
  · exact reachesTop_of_number ht hn
  · obtain ⟨chain, hchain⟩ := hu
    exact ⟨t :: chain, .step ht hn ho hchain⟩

/-- **A chain that is not placed from its start on crosses over to the placed
segments.** What is handed on along the chain, from a segment that is not placed to
its outlet, also holds where it crosses. -/
theorem ReachesTop.exists_crossing {P : Segment → Prop} (ht : ReachesTop segments t)
    (htop : ∀ u ∈ segments, u.number = topNumber → u ∈ placed)
    (hP : ∀ q ∈ segments, ∀ u ∈ segments, q ∉ placed → u.number = q.outlet → P q → P u)
    (hnot : t ∉ placed) (hPt : P t) :
    ∃ q ∈ segments, q ∉ placed ∧ OutletPlaced placed q ∧ P q := by
  obtain ⟨chain, hchain⟩ := ht
  induction hchain with
  | top hmem hn => exact absurd (htop _ hmem hn) hnot
  | @step q u chain hmem hn ho hrest ih =>
    by_cases hu : u ∈ placed
    · exact ⟨q, hmem, hnot, List.mem_map.2 ⟨u, hu, ho⟩, hPt⟩
    · exact ih hu (hP q hmem u hrest.mem hnot ho hPt)

end SegmentSet
end MultiSegmentWell
