/-
# Branches of segments in order

Where no segment has its outlet at its own place or behind it (`Onward`), the segments of
a branch need not be rearranged: each of them is free when its turn comes
(`chainFrom_of_onward`), and what is given for the branch are the stored segments on it
(`branchSegments_of_onward`). Segments in order are such, if the top segment has no outlet
among them (`InOrder.onward`).
-/

import MultiSegmentWell.SegmentSet.Branch
import MultiSegmentWell.Proofs.Tree.Resolved

namespace MultiSegmentWell
namespace SegmentSet

/-- No segment has its outlet at its own place or behind it. -/
structure Onward (segments : List Segment) : Prop where
  self : ∀ t ∈ segments, t.number ≠ t.outlet
  behind : segments.Pairwise fun t u => u.number ≠ t.outlet

variable {segments : List Segment} {s : SegmentSet}

/-- A segment is free exactly if no pending one is its outlet. -/
theorem isFree_iff {pending : List Segment} {t : Segment} :
    isFree pending t = true ↔ ∀ u ∈ pending, u.number ≠ t.outlet := by
  simp [isFree]

namespace Onward

/-- Leaving segments out adds no outlet behind another one. -/
theorem filter (h : Onward segments) (p : Segment → Bool) : Onward (segments.filter p) :=
  ⟨fun t ht => h.self t (List.mem_of_mem_filter ht), h.behind.filter p⟩

/-- What stands behind the first segment is onward as well. -/
theorem tail {t : Segment} (h : Onward (t :: segments)) : Onward segments :=
  ⟨fun u hu => h.self u (List.mem_cons_of_mem t hu), h.behind.tail⟩

/-- The first segment is free. -/
theorem isFree_head {t : Segment} (h : Onward (t :: segments)) :
    isFree (t :: segments) t = true :=
  isFree_iff.2 (List.forall_mem_cons.2
    ⟨h.self t List.mem_cons_self, (List.pairwise_cons.1 h.behind).1⟩)

/-- The outlet of a segment stands before it, if it is there at all. -/
theorem exists_before (h : Onward segments) {i : Nat} {t u : Segment}
    (ht : segments[i]? = some t) (hu : u ∈ segments) (ho : u.number = t.outlet) :
    ∃ j < i, segments[j]? = some u := by
  obtain ⟨j, hj⟩ := List.getElem?_of_mem hu
  obtain ⟨hi, hti⟩ := List.getElem?_eq_some_iff.1 ht
  obtain ⟨hjlt, huj⟩ := List.getElem?_eq_some_iff.1 hj
  refine ⟨j, ?_, hj⟩
  rcases Nat.lt_trichotomy j i with hlt | rfl | hgt
  · exact hlt
  · obtain rfl := hti.symm.trans huj
    exact absurd ho (h.self t hu)
  · have hne := List.pairwise_iff_getElem.1 h.behind i j hi hjlt hgt
    rw [hti, huj] at hne
    exact absurd ho hne

end Onward

/-- **Onward segments are taken as they stand**: the first pending one is free. -/
theorem chainFrom_of_onward (h : Onward segments) :
    chainFrom segments.length segments = some segments := by
  induction segments with
  | nil => rfl
  | cons t rest ih =>
    have hfirst : (t :: rest).findIdx? (isFree (t :: rest)) = some 0 := by
      rw [List.findIdx?_cons, if_pos h.isFree_head]
    rw [List.length_cons, chainFrom, if_neg (by simp), hfirst]
    show (chainFrom rest.length rest).map (t :: ·) = some (t :: rest)
    rw [ih h.tail]
    rfl

/-- **The segments of a branch** of an onward set are the stored ones on it, as they are stored. -/
theorem branchSegments_of_onward (h : Onward s.segments) (branch : Int) :
    s.branchSegments branch = .ok (s.segments.filter fun t => t.branch == branch) := by
  rw [branchSegments, chainFrom_of_onward (h.filter _)]

/-- Of segments in order none but the top one has its outlet at its own place or behind it: the
outlet stands before, and no number stands twice. -/
theorem InOrder.number_ne_outlet (h : InOrder segments) (hnd : (segments.map Segment.number).Nodup)
    {i j : Nat} {t u : Segment} (ht : segments[i]? = some t) (hu : segments[j]? = some u)
    (hij : i ≤ j) (hn : t.number ≠ topNumber) : u.number ≠ t.outlet := by
  intro ho
  obtain ⟨k, hk, v, hv, hvo⟩ := h.exists_outlet ht hn
  have hkn : (segments.map Segment.number)[k]? = some t.outlet := by
    rw [List.getElem?_map, hv, Option.map_some, hvo]
  have hjn : (segments.map Segment.number)[j]? = some t.outlet := by
    rw [List.getElem?_map, hu, Option.map_some, ho]
  have hlt := (List.getElem?_eq_some_iff.1 hkn).1
  have hsame := (List.getElem?_inj hlt hnd).1 (hkn.trans hjn.symm)
  omega

/-- Segments in order are onward unless the top segment has an outlet among them. -/
theorem InOrder.onward (h : InOrder segments) (hnd : (segments.map Segment.number).Nodup)
    (htop : ∀ t ∈ segments, t.number = topNumber → t.outlet ∉ segments.map Segment.number) :
    Onward segments := by
  have hnot : ∀ (i j : Nat) (t u : Segment), segments[i]? = some t → segments[j]? = some u → i ≤ j →
      u.number ≠ t.outlet := by
    intro i j t u ht hu hij
    by_cases hn : t.number = topNumber
    · intro ho
      exact htop t (List.mem_of_getElem? ht) hn (ho ▸ List.mem_map_of_mem (List.mem_of_getElem? hu))
    · exact h.number_ne_outlet hnd ht hu hij hn
  constructor
  · intro t ht
    obtain ⟨i, hi⟩ := List.getElem?_of_mem ht
    exact hnot i i t t hi hi (Nat.le_refl i)
  · rw [List.pairwise_iff_getElem]
    intro i j hi hj hij
    exact hnot i j _ _ (List.getElem?_eq_getElem hi) (List.getElem?_eq_getElem hj)
      (Nat.le_of_lt hij)

end SegmentSet
end MultiSegmentWell
