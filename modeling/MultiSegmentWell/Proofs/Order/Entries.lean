/-
# Where branches are entered

SPEC_FULL.md, 9: the asymmetry between candidates on the same and on different branches.

A segment enters its branch if it is the top one or flows into another branch. Segments
that can be ordered in one storage order can be ordered in every other one, or ordering is
given up as ambiguous on a branch that is entered at two segments (`order_of_perm`).

For where ordering succeeds, no two segments of a branch flow into one segment of it
(`InOrder.forkFree`). Such a branch, entered at one segment, is a chain. It is placed from
the entry on, so at most one of its pending segments has its outlet placed (`OneWayIn`),
whatever else is placed in between. All outlet chains come to the top in every storage
order if they do in one, so ordering is not stuck either.
-/

import MultiSegmentWell.Proofs.Order.BranchChains
import MultiSegmentWell.Proofs.Tree.RunChains

namespace MultiSegmentWell
namespace SegmentSet

/-- The segment is the top one or flows into another branch. -/
def Enters (segments : List Segment) (t : Segment) : Prop :=
  t.number = topNumber ∨ LeavesBranch segments t

instance (segments : List Segment) (t : Segment) : Decidable (Enters segments t) :=
  inferInstanceAs (Decidable (t.number = topNumber ∨ LeavesBranch segments t))

/-- Two segments enter the branch. -/
def EnteredTwice (segments : List Segment) (branch : Int) : Prop :=
  ∃ t ∈ segments, ∃ u ∈ segments, t ≠ u ∧ (t.branch = branch ∧ Enters segments t) ∧
    u.branch = branch ∧ Enters segments u

/-- No two segments of a branch flow into the same segment of that branch. -/
def ForkFree (segments : List Segment) : Prop :=
  ∀ p ∈ segments, ∀ t ∈ segments, ∀ u ∈ segments, t.number ≠ topNumber → u.number ≠ topNumber →
    t.branch = p.branch ∧ t.outlet = p.number → u.branch = p.branch ∧ u.outlet = p.number → t = u

/-- A branch that is placed from its entry on: one way is open into it at most. -/
structure OneWayIn (segments placed : List Segment) (branch : Int) : Prop where
  /-- At most one pending segment of the branch has its outlet placed. -/
  unique : ∀ t ∈ segments, t ∉ placed → OutletPlaced placed t → t.branch = branch →
    ∀ u ∈ segments, u ∉ placed → OutletPlaced placed u → u.branch = branch → t = u
  /-- What is placed of the branch includes a segment that enters it. -/
  entered : ∀ p ∈ placed, p.branch = branch → ∃ e ∈ placed, e.branch = branch ∧ Enters segments e

variable {segments placed v xs ys : List Segment} {branch : Int} {last s t : Segment}

/-- **Ordered segments are free of forks.** -/
theorem InOrder.forkFree (hv : InOrder v) (hnd : (v.map Segment.number).Nodup) : ForkFree v := by
  rintro p hp t ht u hu htn hun ⟨htb, hto⟩ ⟨hub, huo⟩
  obtain ⟨k, hk⟩ := List.getElem?_of_mem hp
  have htk := hv.getElem?_succ hnd hk ht htn htb hto
  have huk := hv.getElem?_succ hnd hk hu hun hub huo
  exact Option.some.inj (htk.symm.trans huk)

/-- A segment whose outlet is placed enters its branch, or its outlet is placed there. -/
theorem enters_or_exists_outlet (hsub : placed ⊆ segments) (ht : OutletPlaced placed t) :
    Enters segments t ∨ ∃ p ∈ placed, p.number = t.outlet ∧ p.branch = t.branch := by
  obtain ⟨p, hp, hn⟩ := List.mem_map.1 ht
  by_cases hb : p.branch = t.branch
  · exact .inr ⟨p, hp, hn, hb⟩
  · exact .inl (.inr ⟨p, hsub hp, hn, hb⟩)

/-- What is placed next keeps to the way in: it is the top segment, placed first, or its
outlet is placed. -/
structure PlacedNext (segments placed : List Segment) (s : Segment) : Prop where
  subset : placed ++ [s] ⊆ segments
  fresh : s ∉ placed
  outlet : OutletPlaced placed s ∨ placed = [] ∧ s.number = topNumber
  top : ∀ t ∈ segments, t.number = topNumber → t ∈ placed ++ [s]

namespace OneWayIn

/-- One more placed segment leaves every placed branch entered. -/
theorem entered_concat (h : OneWayIn segments placed branch) (hs : PlacedNext segments placed s) :
    ∀ p ∈ placed ++ [s], p.branch = branch →
      ∃ e ∈ placed ++ [s], e.branch = branch ∧ Enters segments e := by
  have hsub : placed ⊆ segments := fun p hp => hs.subset (List.mem_append_left _ hp)
  have hbefore : ∀ p ∈ placed, p.branch = branch →
      ∃ e ∈ placed ++ [s], e.branch = branch ∧ Enters segments e := by
    intro p hp hb
    obtain ⟨e, he, heb, hent⟩ := h.entered p hp hb
    exact ⟨e, List.mem_append_left _ he, heb, hent⟩
  intro p hp hb
  rcases List.mem_append.1 hp with hp | hp
  · exact hbefore p hp hb
  · obtain rfl := List.mem_singleton.1 hp
    have hmem : p ∈ placed ++ [p] := List.mem_append_right _ (List.mem_singleton_self p)
    rcases hs.outlet with ho | ⟨-, hn⟩
    · rcases enters_or_exists_outlet hsub ho with hent | ⟨q, hq, -, hqb⟩
      · exact ⟨p, hmem, hb, hent⟩
      · exact hbefore q hq (hqb.trans hb)
    · exact ⟨p, hmem, hb, .inl hn⟩

/-- **Placing a segment leaves one way in at most**, unless the branch is entered twice. -/
theorem concat (h : OneWayIn segments placed branch) (hs : PlacedNext segments placed s)
    (hnd : (segments.map Segment.number).Nodup) (hfork : ForkFree segments)
    (hone : ¬ EnteredTwice segments branch) : OneWayIn segments (placed ++ [s]) branch := by
  have hentered := h.entered_concat hs
  refine ⟨fun t ht htnot hto htb u hu hunot huo hub => ?_, hentered⟩
  obtain ⟨htold, hts⟩ := not_mem_concat.1 htnot
  obtain ⟨huold, hus⟩ := not_mem_concat.1 hunot
  have hsmem : s ∈ segments := hs.subset (by simp)
  -- A pending segment that enters the branch is not the one that was placed.
  have hpending : ∀ q ∈ segments, q ∉ placed ++ [s] → q.branch = branch → Enters segments q →
      ∀ p ∈ placed ++ [s], p.branch ≠ branch := by
    intro q hq hnot hqb hent p hp hpb
    obtain ⟨e, he, heb, hee⟩ := hentered p hp hpb
    exact hone ⟨q, hq, e, hs.subset he, fun heq => hnot (heq ▸ he), ⟨hqb, hent⟩, heb, hee⟩
  -- A segment of the branch that could be placed before is the one that was placed.
  have hbefore : s.branch = branch → ∀ q ∈ segments, q ∉ placed → q ≠ s →
      OutletPlaced placed q → q.branch ≠ branch := by
    intro hsb q hq hqold hqs hqo hqb
    rcases hs.outlet with hso | ⟨rfl, -⟩
    · exact hqs (h.unique q hq hqold hqo hqb s hsmem hs.fresh hso hsb)
    · cases hqo
  rcases enters_or_exists_outlet hs.subset hto with htent | ⟨p, hp, hpn, hpb⟩ <;>
    rcases enters_or_exists_outlet hs.subset huo with huent | ⟨q, hq, hqn, hqb⟩
  · by_contra hne
    exact hone ⟨t, ht, u, hu, hne, ⟨htb, htent⟩, hub, huent⟩
  · exact absurd (hqb.trans hub) (hpending t ht htnot htb htent q hq)
  · exact absurd (hpb.trans htb) (hpending u hu hunot hub huent p hp)
  · -- Neither enters the branch, so a new way in can only lead from `s` on.
    have hnew : ∀ w ∈ placed ++ [s], w.branch = branch → w.number = s.number → s.branch = branch := by
      intro w hw hwb hwn
      rw [← List.inj_on_of_nodup_map hnd (hs.subset hw) hsmem hwn]
      exact hwb
    rcases outletPlaced_concat.1 hto with hto | hto <;>
      rcases outletPlaced_concat.1 huo with huo | huo
    · exact h.unique t ht htold hto htb u hu huold huo hub
    · have hsb := hnew q hq (hqb.trans hub) (hqn.trans huo)
      exact absurd htb (hbefore hsb t ht htold hts hto)
    · have hsb := hnew p hp (hpb.trans htb) (hpn.trans hto)
      exact absurd hub (hbefore hsb u hu huold hus huo)
    · have hsb := hnew p hp (hpb.trans htb) (hpn.trans hto)
      exact hfork s hsmem t ht u hu (fun hn => htnot (hs.top t ht hn))
        (fun hn => hunot (hs.top u hu hn)) ⟨htb.trans hsb.symm, hto⟩ ⟨hub.trans hsb.symm, huo⟩

end OneWayIn

/-- **Along a placement one way into each branch is open at most**, if the branch is entered
at one segment. -/
theorem Placement.oneWayIn (h : Placement segments placed last)
    (hnd : (segments.map Segment.number).Nodup) (hfork : ForkFree segments)
    (hone : ¬ EnteredTwice segments branch) : OneWayIn segments placed branch := by
  induction h with
  | @top t hmem hn =>
    have hstart : OneWayIn segments [] branch :=
      ⟨fun _ _ _ ho => absurd ho List.not_mem_nil, fun _ hp => absurd hp List.not_mem_nil⟩
    refine hstart.concat ⟨by simpa using hmem, List.not_mem_nil, .inr ⟨rfl, hn⟩, ?_⟩ hnd hfork hone
    intro u hu hun
    exact (Placement.top hmem hn).mem_of_number hnd hu hun
  | next hl hf ih =>
    refine ih.concat ⟨(hl.next hf).subset, hf.fresh, .inl hf.outlet, ?_⟩ hnd hfork hone
    intro u hu hun
    exact (hl.next hf).mem_of_number hnd hu hun

/-- Forks do not depend on the storage order. -/
theorem ForkFree.of_perm (h : ForkFree xs) (hperm : ys.Perm xs) : ForkFree ys := by
  intro p hp t ht u hu
  exact h p (hperm.mem_iff.1 hp) t (hperm.mem_iff.1 ht) u (hperm.mem_iff.1 hu)

/-- Which segments leave their branch does not depend on the storage order. -/
theorem LeavesBranch.of_perm (h : LeavesBranch xs t) (hperm : xs.Perm ys) : LeavesBranch ys t := by
  obtain ⟨u, hu, hn, hb⟩ := h
  exact ⟨u, hperm.mem_iff.1 hu, hn, hb⟩

/-- Where branches are entered does not depend on the storage order. -/
theorem EnteredTwice.of_perm (h : EnteredTwice xs branch) (hperm : xs.Perm ys) :
    EnteredTwice ys branch := by
  obtain ⟨t, ht, u, hu, hne, ⟨htb, hte⟩, hub, hue⟩ := h
  have hent : ∀ {q}, Enters xs q → Enters ys q := fun hq => hq.imp_right (·.of_perm hperm)
  exact ⟨t, hperm.mem_iff.1 ht, u, hperm.mem_iff.1 hu, hne, ⟨htb, hent hte⟩, hub, hent hue⟩

/-- Outlet chains do not depend on the storage order. -/
theorem ReachesTop.of_perm (h : ReachesTop xs t) (hperm : xs.Perm ys) : ReachesTop ys t := by
  obtain ⟨chain, hchain⟩ := h
  induction hchain with
  | top hmem hn => exact reachesTop_of_number (hperm.mem_iff.1 hmem) hn
  | step hmem _ ho _ ih => exact ih.of_outlet (hperm.mem_iff.1 hmem) ho

variable {w w' r : SegmentSet}

/-- **What can be ordered can be ordered in every storage order**, unless ordering comes
upon two segments at once that continue a branch entered twice. -/
theorem order_of_perm (hs : w.Indexed) (hs' : w'.Indexed)
    (hperm : w'.segments.Perm w.segments) (h : w.order = .ok r) :
    (∃ r', w'.order = .ok r') ∨ ∃ branch first second,
      w'.order = .error (.ambiguousOutlet w'.well branch first second) ∧
        EnteredTwice w'.segments branch := by
  obtain ⟨_, hl, hordered, -⟩ := exists_placement_of_order hs h
  have hv := inOrder_of_order hs h
  have hall : ∀ t ∈ w'.segments, ReachesTop w'.segments t := by
    intro t ht
    have hreach := hl.reachesTop t (hordered.mem_iff.1 (hperm.mem_iff.1 ht))
    exact hreach.of_perm hperm.symm
  have hfork : ForkFree w'.segments :=
    (hv.forkFree (hs.order h).nodup).of_perm (hperm.trans hordered)
  have htop : topNumber ∈ w'.numbers := by
    have hstored := (hperm.trans hordered).map Segment.number
    exact hstored.mem_iff.2 (List.mem_of_getElem? hv.top)
  obtain ⟨l, hl', hperm', hends⟩ := exists_placement_arrange hs' htop
  cases hfault : w'.arrange.fault with
  | none => exact .inl ⟨w'.rearranged, by rw [order, hfault]⟩
  | some e =>
    have herror : w'.order = .error e := by rw [order, hfault]
    generalize w'.arrange = a at hl' hperm' hends hfault
    cases hends with
    | complete => cases hfault
    | @ambiguous placed pending first second hcontinued =>
      obtain rfl := Option.some.inj hfault
      refine .inr ⟨l.branch, first.number, second.number, herror, ?_⟩
      by_contra hone
      obtain ⟨i, j, hij, hi, hj, ⟨hfo, hfb⟩, hso, hsb⟩ := hcontinued
      obtain ⟨⟨hf, hfnot⟩, ⟨hsm, hsnot⟩, hne⟩ := pending_ne hs'.segments_nodup hperm' hij hi hj
      have hway := hl'.oneWayIn hs'.nodup hfork hone
      exact hne (hway.unique first hf hfnot hfo hfb second hsm hsnot hso hsb)
    | @stuck placed pending hne hstuck =>
      obtain ⟨t, ht⟩ := List.exists_mem_of_ne_nil pending hne
      have hmem : t ∈ w'.segments := hperm'.mem_iff.2 (List.mem_append_right _ ht)
      exact absurd (hall t hmem)
        ((mem_pending_iff_of_stuck hs'.nodup hl' hperm' hstuck hmem).1 ht)

end SegmentSet
end MultiSegmentWell
