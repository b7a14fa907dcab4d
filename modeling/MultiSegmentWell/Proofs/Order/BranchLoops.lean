/-
# Loops of a branch

SPEC_FULL.md, 4.6: `branch_segments`, along the chain or a loop.

The segments of a branch are taken one at a time. A step takes a segment whose outlet is not
pending, and if there is none, it gives up (`chainFrom_cases`).

Where it gives up, every pending segment has its outlet among the pending ones, so the outlets
lead in a circle (`hasLoop_of_stuck`). Where all segments are taken, none has its outlet at its
own place or behind it (`onward_of_chainFrom`), and along outlets one only comes to earlier
places, so there is no circle (`Onward.not_hasLoop`). So the segments of a branch are given
exactly if it has no loop, each of them once and behind its outlet. On a chain only the first
pending segment can be taken, so the chain is what is given, in whatever order its segments are
stored (`chainFrom_of_simpleChain`).

After ordering, the segments of a branch are given as they are stored, but for one case: the top
segment is stored first without regard to its outlet, which may lie on its own branch
(`InOrder.onward_onBranch_iff`, `given_otherwise_than_stored`).
-/

import MultiSegmentWell.Proofs.Order.BranchChains
import MultiSegmentWell.Proofs.Order.BranchSegments
import Mathlib.Data.Set.Finite.Basic
import Mathlib.Logic.Relation
import Mathlib.Order.WellFounded

namespace MultiSegmentWell
namespace SegmentSet

/-- The outlet of a segment is another one, or itself, and both are among the segments. -/
def FlowsAmong (segments : List Segment) (t u : Segment) : Prop :=
  t ∈ segments ∧ u ∈ segments ∧ u.number = t.outlet

/-- Outlets among the segments lead in a circle. -/
def HasLoop (segments : List Segment) : Prop :=
  ∃ t, Relation.TransGen (FlowsAmong segments) t t

/-- A branch in one piece: each segment is the outlet of the next, and the first one flows into
none of them. -/
structure SimpleChain (chain : List Segment) : Prop where
  run : IsOutletRun chain
  head : ∀ t, chain.head? = some t → t.outlet ∉ chain.map Segment.number

variable {segments pending chain rest : List Segment} {s t u : Segment} {count : Nat}

/-- A segment is not free exactly if its outlet is pending. -/
theorem not_isFree_iff : isFree pending t = false ↔ ∃ u ∈ pending, u.number = t.outlet := by
  simp [isFree]

/-- A loop among some segments is one among more of them. -/
theorem HasLoop.mono (h : HasLoop segments) (hsub : segments ⊆ pending) : HasLoop pending := by
  obtain ⟨t, ht⟩ := h
  exact ⟨t, Relation.TransGen.mono (fun _ _ ⟨hp, hq, ho⟩ => ⟨hsub hp, hsub hq, ho⟩) _ _ ht⟩

/-- **What one step does:** it gives up because no pending segment is free, or takes a free one
and goes on with the others. -/
theorem chainFrom_cases (hcount : pending.length = count + 1) :
    ((∀ t ∈ pending, isFree pending t = false) ∧ chainFrom (count + 1) pending = none) ∨
      ∃ t rest, isFree pending t = true ∧ pending.Perm (t :: rest) ∧ rest.length = count ∧
        chainFrom (count + 1) pending = (chainFrom count rest).map (t :: ·) := by
  have hne : pending.isEmpty = false := by
    cases pending with
    | nil => cases hcount
    | cons => rfl
  cases hfind : pending.findIdx? (isFree pending) with
  | none =>
    refine .inl ⟨List.findIdx?_eq_none_iff.1 hfind, ?_⟩
    rw [chainFrom, hne, hfind]
    rfl
  | some i =>
    obtain ⟨hi, hfree, -⟩ := List.findIdx?_eq_some_iff_getElem.1 hfind
    obtain ⟨rest, htaken⟩ := exists_takeOut (List.getElem?_eq_getElem hi)
    have hperm := perm_of_takeOut htaken
    refine .inr ⟨pending[i], rest, hfree, hperm, ?_, ?_⟩
    · have hlength := hperm.length_eq
      rw [hcount, List.length_cons] at hlength
      omega
    · rw [chainFrom, hne, hfind]
      show (takeOut i pending >>= fun taken => _) = _
      rw [htaken]
      rfl

section Loops

/-- **Where no segment is free, outlets lead in a circle:** otherwise some segment would have
none behind it along outlets, but its outlet is pending. -/
theorem hasLoop_of_stuck (hne : pending ≠ [])
    (hstuck : ∀ t ∈ pending, isFree pending t = false) : HasLoop pending := by
  by_contra hnone
  let behind (u t : { t // t ∈ pending }) : Prop := Relation.TransGen (FlowsAmong pending) t.1 u.1
  have htrans : IsTrans _ behind := ⟨fun _ _ _ hab hbc => hbc.trans hab⟩
  have hirrefl : Std.Irrefl behind := ⟨fun t ht => hnone ⟨t.1, ht⟩⟩
  have hfinite : Finite { t // t ∈ pending } := (List.finite_toSet pending).to_subtype
  have hwf : WellFounded behind := Finite.wellFounded_of_trans_of_irrefl behind
  obtain ⟨t, ht⟩ := List.exists_mem_of_ne_nil pending hne
  obtain ⟨m, -, hlast⟩ := hwf.has_min Set.univ ⟨⟨t, ht⟩, trivial⟩
  obtain ⟨u, hu, ho⟩ := not_isFree_iff.1 (hstuck m.1 m.2)
  exact hlast ⟨u, hu⟩ trivial (.single ⟨m.2, hu, ho⟩)

/-- The steps give up only at a loop. -/
theorem hasLoop_of_chainFrom (hcount : pending.length = count)
    (h : chainFrom count pending = none) : HasLoop pending := by
  induction count generalizing pending with
  | zero => cases h
  | succ count ih =>
    rcases chainFrom_cases hcount with ⟨hstuck, -⟩ | ⟨t, rest, -, hperm, hrest, hstep⟩
    · refine hasLoop_of_stuck ?_ hstuck
      rintro rfl
      cases hcount
    · rw [hstep, Option.map_eq_none_iff] at h
      refine (ih hrest h).mono fun u hu => ?_
      exact hperm.mem_iff.2 (List.mem_cons_of_mem t hu)

/-- **What is given are the segments themselves**, none with its outlet at its own place or
behind it. -/
theorem onward_of_chainFrom (hcount : pending.length = count)
    (h : chainFrom count pending = some chain) : chain.Perm pending ∧ Onward chain := by
  induction count generalizing pending chain with
  | zero =>
    obtain rfl := List.eq_nil_of_length_eq_zero hcount
    obtain rfl := Option.some.inj h
    exact ⟨.refl _, fun _ ht => absurd ht List.not_mem_nil, .nil⟩
  | succ count ih =>
    rcases chainFrom_cases hcount with ⟨-, hstep⟩ | ⟨t, rest, hfree, hperm, hrest, hstep⟩
    · rw [hstep] at h
      cases h
    · rw [hstep, Option.map_eq_some_iff] at h
      obtain ⟨others, hothers, rfl⟩ := h
      obtain ⟨hsame, honward⟩ := ih hrest hothers
      have hall : (t :: others).Perm pending := (hsame.cons t).trans hperm.symm
      have hnot : ∀ u ∈ t :: others, u.number ≠ t.outlet := fun u hu =>
        isFree_iff.1 hfree u (hall.mem_iff.1 hu)
      obtain ⟨hself, hbehind⟩ := List.forall_mem_cons.1 hnot
      exact ⟨hall, List.forall_mem_cons.2 ⟨hself, honward.self⟩,
        List.pairwise_cons.2 ⟨hbehind, honward.behind⟩⟩

/-- Along outlets one comes to earlier places. -/
theorem Onward.exists_before_of_transGen (h : Onward segments)
    (htu : Relation.TransGen (FlowsAmong segments) t u) {i : Nat} (ht : segments[i]? = some t) :
    ∃ j < i, segments[j]? = some u := by
  induction htu with
  | single hflow => exact h.exists_before ht hflow.2.1 hflow.2.2
  | tail _ hflow ih =>
    obtain ⟨j, hj, hu⟩ := ih
    obtain ⟨k, hk, hv⟩ := h.exists_before hu hflow.2.1 hflow.2.2
    exact ⟨k, hk.trans hj, hv⟩

/-- **Onward segments have no loop:** it would lead to ever earlier places. -/
theorem Onward.not_hasLoop (h : Onward segments) : ¬ HasLoop segments := by
  rintro ⟨t, hloop⟩
  have hnowhere : ∀ i : Nat, segments[i]? ≠ some t := by
    intro i
    induction i using Nat.strong_induction_on with
    | _ i ih =>
      intro ht
      obtain ⟨j, hj, htj⟩ := h.exists_before_of_transGen hloop ht
      exact ih j hj htj
  obtain ⟨u, hflow, -⟩ := Relation.TransGen.head'_iff.1 hloop
  obtain ⟨i, hi⟩ := List.getElem?_of_mem hflow.1
  exact hnowhere i hi

/-- The steps give up exactly at a loop. -/
theorem chainFrom_eq_none_iff :
    chainFrom segments.length segments = none ↔ HasLoop segments := by
  refine ⟨hasLoop_of_chainFrom rfl, fun hloop => ?_⟩
  rw [Option.eq_none_iff_forall_ne_some]
  intro chain hchain
  obtain ⟨hperm, honward⟩ := onward_of_chainFrom rfl hchain
  exact honward.not_hasLoop (hloop.mono hperm.symm.subset)

end Loops

section Chains

/-- Every segment of a run but the first has its outlet in the run. -/
theorem IsOutletRun.exists_outlet (h : IsOutletRun (s :: rest)) (ht : t ∈ rest) :
    ∃ u ∈ s :: rest, u.number = t.outlet := by
  induction rest generalizing s with
  | nil => cases ht
  | cons v rest ih =>
    obtain ⟨hv, hrest⟩ := List.isChain_cons_cons.1 h
    rcases List.mem_cons.1 ht with rfl | ht
    · exact ⟨s, List.mem_cons_self, hv.symm⟩
    · obtain ⟨u, hu, ho⟩ := ih hrest ht
      exact ⟨u, List.mem_cons_of_mem s hu, ho⟩

/-- What is left of a chain without its first segment is a chain. -/
theorem SimpleChain.tail (h : SimpleChain (s :: rest))
    (hnd : ((s :: rest).map Segment.number).Nodup) : SimpleChain rest := by
  refine ⟨h.run.tail, fun t ht ho => ?_⟩
  obtain ⟨more, rfl⟩ : ∃ more, rest = t :: more := List.head?_eq_some_iff.1 ht
  obtain ⟨hts, -⟩ := List.isChain_cons_cons.1 h.run
  rw [hts] at ho
  exact (List.nodup_cons.1 hnd).1 ho

/-- **A chain is given as it is**, whatever the storage order. -/
theorem chainFrom_of_simpleChain (h : SimpleChain chain)
    (hnd : (chain.map Segment.number).Nodup) (hperm : pending.Perm chain) :
    chainFrom chain.length pending = some chain := by
  induction chain generalizing pending with
  | nil =>
    obtain rfl := hperm.eq_nil
    rfl
  | cons s rest ih =>
    have hlength : pending.length = rest.length + 1 := hperm.length_eq
    rcases chainFrom_cases hlength with ⟨hstuck, -⟩ | ⟨t, others, hfree, hothers, -, hstep⟩
    · -- the outlet of the first segment is not on the branch
      obtain ⟨u, hu, ho⟩ := not_isFree_iff.1 (hstuck s (hperm.mem_iff.2 List.mem_cons_self))
      exact absurd (List.mem_map.2 ⟨u, hperm.mem_iff.1 hu, ho⟩) (h.head s rfl)
    · have hts : t = s := by
        have hmem : t ∈ s :: rest := (hothers.symm.trans hperm).mem_iff.1 List.mem_cons_self
        refine (List.mem_cons.1 hmem).resolve_right fun hrest => ?_
        obtain ⟨u, hu, ho⟩ := h.run.exists_outlet hrest
        exact isFree_iff.1 hfree u (hperm.mem_iff.2 hu) ho
      subst hts
      have hrest : others.Perm rest := (hothers.symm.trans hperm).cons_inv
      rw [List.length_cons, hstep, ih (h.tail hnd) (List.nodup_cons.1 hnd).2 hrest]
      rfl

end Chains

section Ordered

variable {v : List Segment} {branch : Int}

/-- **Segments in order are onward on each branch**, unless it is that of the top segment and
the top segment has its outlet on it. -/
theorem InOrder.onward_onBranch_iff (hv : InOrder v) (hnd : (v.map Segment.number).Nodup) :
    Onward (onBranch v branch) ↔ ∀ top ∈ v, top.number = topNumber → top.branch = branch →
      top.outlet ∉ (onBranch v branch).map Segment.number := by
  constructor
  · intro h top htop hn hb ho
    obtain ⟨w, hw, hwo⟩ := List.mem_map.1 ho
    -- the top segment is stored first, so nothing comes before it
    have hfirst : v[0]? = some top := by
      obtain ⟨i, hi⟩ := List.getElem?_of_mem htop
      have hin : (v.map Segment.number)[i]? = some topNumber := by
        rw [List.getElem?_map, hi, Option.map_some, hn]
      have hzero : i = 0 :=
        (List.getElem?_inj (List.getElem?_eq_some_iff.1 hin).1 hnd).1 (hin.trans hv.top.symm)
      rw [← hzero, hi]
    obtain ⟨others, rfl⟩ : ∃ others, v = top :: others := by
      rw [← List.head?_eq_getElem?] at hfirst
      exact List.head?_eq_some_iff.1 hfirst
    have honBranch : onBranch (top :: others) branch = top :: onBranch others branch :=
      List.filter_cons_of_pos (by simpa using hb)
    rw [honBranch] at h hw
    exact isFree_iff.1 h.isFree_head w hw hwo
  · intro htop
    have hbehind : v.Pairwise fun t u => t.number ≠ topNumber → u.number ≠ t.outlet := by
      rw [List.pairwise_iff_getElem]
      intro i j hi hj hij
      exact hv.number_ne_outlet hnd (List.getElem?_eq_getElem hi) (List.getElem?_eq_getElem hj)
        (Nat.le_of_lt hij)
    have hnone : ∀ t ∈ onBranch v branch, t.number = topNumber → ∀ u ∈ onBranch v branch,
        u.number ≠ t.outlet := by
      intro t ht hn u hu ho
      obtain ⟨hmem, hb⟩ := List.mem_filter.1 ht
      exact htop t hmem hn (by simpa using hb) (List.mem_map.2 ⟨u, hu, ho⟩)
    constructor
    · intro t ht
      by_cases hn : t.number = topNumber
      · exact hnone t ht hn t ht
      · obtain ⟨i, hi⟩ := List.getElem?_of_mem (List.mem_of_mem_filter ht)
        exact hv.number_ne_outlet hnd hi hi (Nat.le_refl i) hn
    · refine (hbehind.filter _).imp_of_mem fun {t u} ht hu hne => ?_
      by_cases hn : t.number = topNumber
      · exact hnone t ht hn u hu
      · exact hne hn

end Ordered

section Branches

variable {s : SegmentSet} {branch : Int}

/-- The segments of a branch are taken one at a time, and a loop ends it. -/
theorem branchSegments_eq (s : SegmentSet) (branch : Int) :
    s.branchSegments branch =
      match chainFrom (onBranch s.segments branch).length (onBranch s.segments branch) with
      | some chain => .ok chain
      | none => .error (.branchLoop s.well branch) := rfl

/-- The segments of a branch are given exactly if all of them can be taken. -/
theorem branchSegments_eq_ok {chain : List Segment} :
    s.branchSegments branch = .ok chain ↔
      chainFrom (onBranch s.segments branch).length (onBranch s.segments branch) = some chain := by
  rw [branchSegments_eq]
  cases chainFrom _ (onBranch s.segments branch) <;> simp

/-- A loop is reported exactly if they cannot. -/
theorem branchSegments_eq_error :
    s.branchSegments branch = .error (.branchLoop s.well branch) ↔
      chainFrom (onBranch s.segments branch).length (onBranch s.segments branch) = none := by
  rw [branchSegments_eq]
  cases chainFrom _ (onBranch s.segments branch) <;> simp

/-- The segments of a branch are given as they are stored exactly if they are onward. -/
theorem branchSegments_eq_onBranch_iff :
    s.branchSegments branch = .ok (onBranch s.segments branch) ↔
      Onward (onBranch s.segments branch) := by
  rw [branchSegments_eq_ok]
  exact ⟨fun h => (onward_of_chainFrom rfl h).2, chainFrom_of_onward⟩

/-- **What is given for a branch.**  Where all numbers are different, the segments of a branch
are refused exactly if outlets lead in a circle on the branch. Otherwise they are given, each
of them once and none else, and each behind its outlet if that is on the branch. A branch that
is a chain is given as the chain, whatever the storage order. Of an ordered set a branch is
given as it is stored, unless it is the branch of the top segment and the top segment has its
outlet on it; then it never is. -/
theorem branchSegments_iff_hasLoop (hnd : s.numbers.Nodup) (branch : Int) :
    (s.branchSegments branch = .error (.branchLoop s.well branch)
        ↔ HasLoop (onBranch s.segments branch)) ∧
      (¬ HasLoop (onBranch s.segments branch) → ∃ chain, s.branchSegments branch = .ok chain) ∧
      (∀ chain, s.branchSegments branch = .ok chain →
        chain.Perm (onBranch s.segments branch) ∧
          ∀ (i : Nat) (t : Segment), chain[i]? = some t → ∀ u ∈ chain, u.number = t.outlet →
            ∃ j < i, chain[j]? = some u) ∧
      (∀ chain, SimpleChain chain → chain.Perm (onBranch s.segments branch) →
        s.branchSegments branch = .ok chain) ∧
      ∀ q, Reachable q → q.order = .ok s →
        (s.branchSegments branch = .ok (onBranch s.segments branch) ↔
          ∀ top ∈ s.segments, top.number = topNumber → top.branch = branch →
            top.outlet ∉ (onBranch s.segments branch).map Segment.number) := by
  refine ⟨branchSegments_eq_error.trans chainFrom_eq_none_iff, fun hnone => ?_,
    fun chain hchain => ?_, fun chain hsimple hperm => ?_, fun q hq horder => ?_⟩
  · obtain ⟨chain, hchain⟩ := Option.ne_none_iff_exists'.1 (mt chainFrom_eq_none_iff.1 hnone)
    exact ⟨chain, branchSegments_eq_ok.2 hchain⟩
  · obtain ⟨hperm, honward⟩ := onward_of_chainFrom rfl (branchSegments_eq_ok.1 hchain)
    exact ⟨hperm, fun i t ht u hu ho => honward.exists_before ht hu ho⟩
  · have hsub : (onBranch s.segments branch).Sublist s.segments := List.filter_sublist
    have hnumbers : (chain.map Segment.number).Nodup :=
      (hperm.map Segment.number).nodup_iff.2 (hnd.sublist (hsub.map Segment.number))
    rw [branchSegments_eq_ok, ← hperm.length_eq]
    exact chainFrom_of_simpleChain hsimple hnumbers hperm.symm
  · rw [branchSegments_eq_onBranch_iff]
    exact (inOrder_of_order hq.indexed horder).onward_onBranch_iff hnd

/-- A chain 5, 6, 7 on branch 2, stored from its end on, and a circle on branch 3. -/
def wound : SegmentSet :=
  ofSegments "W" .friction
    [.ofLink 7 2 6, .ofLink 9 3 8, .ofLink 6 2 5, .ofLink 8 3 9, .ofLink 5 2 1, .ofLink 1 1 0]

/-- Segments that can be ordered although the top one has an outlet, which is on its branch. -/
def returning : SegmentSet :=
  ofSegments "W" .friction [.ofLink 1 1 3, .ofLink 2 2 1, .ofLink 3 1 2]

/-- The circle is refused, the chain is given from its first segment on although it is stored from
its end on, and behind the top segment the branch of a set in order is given as stored. -/
theorem branchSegments_iff_hasLoop_wound :
    (wound.numbers.Nodup ∧ HasLoop (onBranch wound.segments 3) ∧
      wound.branchSegments 2 = .ok [.ofLink 5 2 1, .ofLink 6 2 5, .ofLink 7 2 6]) ∧
      Reachable returning ∧ returning.order = .ok returning.rearranged ∧
        returning.rearranged.branchSegments 2
          = .ok (onBranch returning.rearranged.segments 2) := by
  have hnd : wound.numbers.Nodup := by decide
  have hloop : wound.branchSegments 3 = .error (.branchLoop wound.well 3) := by decide +kernel
  have hchain : SimpleChain [.ofLink 5 2 1, .ofLink 6 2 5, .ofLink 7 2 6] := by
    refine ⟨by simp [IsOutletRun, Segment.ofLink], fun t ht => ?_⟩
    obtain rfl := Option.some.inj ht
    decide
  obtain ⟨-, -, -, hgiven, -⟩ := branchSegments_iff_hasLoop hnd 2
  have hreach : Reachable returning := .after (.add _) (.empty "W" .friction .homogeneous)
  have horder : returning.order = .ok returning.rearranged := rfl
  obtain ⟨-, -, -, -, hordered⟩ :=
    branchSegments_iff_hasLoop (s := returning.rearranged) (by decide +kernel) 2
  exact ⟨⟨hnd, (branchSegments_iff_hasLoop hnd 3).1.1 hloop, hgiven _ hchain (by decide +kernel)⟩,
    hreach, horder, (hordered returning hreach horder).2 (by decide +kernel)⟩

/-- **A branch of an ordered set can be given otherwise than it is stored:** the top segment is
stored first, but its outlet is on its branch and is given before it. -/
theorem given_otherwise_than_stored :
    Reachable returning ∧ returning.order = .ok returning.rearranged ∧
      returning.rearranged.numbers.Nodup ∧
      onBranch returning.rearranged.segments 1 = [.ofLink 1 1 3, .ofLink 3 1 2] ∧
      returning.rearranged.branchSegments 1 = .ok [.ofLink 3 1 2, .ofLink 1 1 3] ∧
      returning.rearranged.branchSegments 1 ≠ .ok (onBranch returning.rearranged.segments 1) :=
  ⟨.after (.add _) (.empty "W" .friction .homogeneous), rfl, by decide +kernel, by decide +kernel,
    by decide +kernel, by decide +kernel⟩

end Branches

end SegmentSet
end MultiSegmentWell
