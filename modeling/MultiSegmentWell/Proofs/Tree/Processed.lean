/-
# What processing keeps of a segment

Resolving settles nodes: the node of a segment, its volume and its mark may change, and
nothing else of it does (`exists_settledFrom_of_resolve`). Linking then only appends to
inlets: behind the numbers that a segment held come those of the segments that flow into
it, as far as they are not there yet (`InletsAppended`). So every processed segment is a
stored one with its node settled and its inlets appended to
(`exists_processedFrom_of_process`).
-/

import MultiSegmentWell.Proofs.Tree.AbsoluteNodes
import MultiSegmentWell.Proofs.Tree.Increments

namespace MultiSegmentWell

namespace Segment

/-- What becomes of a segment when nodes are resolved: its node, its volume and its mark
may change, but a segment that was ready keeps its node, unless it is the top one. -/
structure SettledFrom (t u : Segment) : Prop where
  other : u = { t with node := u.node, volume := u.volume, ready := u.ready }
  kept : t.ready = true → t.number ≠ topNumber → u.node = t.node

namespace SettledFrom

variable {t u : Segment}

/-- A settled segment keeps its link. -/
theorem link_eq (h : SettledFrom t u) : u.link = t.link := by
  rw [h.other]
  rfl

/-- A settled segment keeps its number. -/
theorem number_eq (h : SettledFrom t u) : u.number = t.number := congrArg Prod.fst h.link_eq

end SettledFrom

/-- Entering numbers appends those that are not there yet. -/
theorem inlets_foldl_addInlet (t : Segment) {ns : List Int} (h : ns.Nodup) :
    (ns.foldl addInlet t).inlets = t.inlets ++ ns.filter (· ∉ t.inlets) := by
  induction ns generalizing t with
  | nil => exact (List.append_nil _).symm
  | cons n ns ih =>
    obtain ⟨hn, hns⟩ := List.nodup_cons.1 h
    rw [List.foldl_cons, ih _ hns, addInlet]
    split
    · rename_i hmem
      rw [List.contains_iff_mem] at hmem
      rw [List.filter_cons_of_neg (by simpa using hmem)]
    · rename_i hmem
      rw [List.contains_iff_mem] at hmem
      rw [List.filter_cons_of_pos (by simpa using hmem), List.append_assoc, List.singleton_append]
      -- The number is not among the others, so entering it hides none of them.
      have hfilter : ns.filter (· ∉ t.inlets ++ [n]) = ns.filter (· ∉ t.inlets) := by
        refine List.filter_congr fun m hm => ?_
        have hne : m ≠ n := fun heq => hn (heq ▸ hm)
        simp [hne]
      rw [hfilter]

end Segment

namespace SegmentSet

open Segment (SettledFrom)

variable {s q r : SegmentSet} {segments : List Segment} {t u : Segment} {n : Int}
variable {mode : GeometryMode} {topDepth topLength : Float} {options : Options}

/-- Where runs are spread, every segment is a settled one. -/
theorem RunsSpread.forall₂_settledFrom {v w : List Segment} (h : RunsSpread v w) :
    List.Forall₂ SettledFrom v w := by
  rw [List.forall₂_iff_get]
  refine ⟨h.length_eq.symm, fun k hv hw => ?_⟩
  have ht : v[k]? = some (v.get ⟨k, hv⟩) := List.getElem?_eq_getElem hv
  have hu : w[k]? = some (w.get ⟨k, hw⟩) := List.getElem?_eq_getElem hw
  exact ⟨h.other k _ _ ht hu, fun hready _ => (h.kept k _ _ ht hu (.inr hready)).1⟩

/-- Settled segments have the numbers that they had. -/
theorem numbers_eq_of_settledFrom {v w : List Segment} (h : List.Forall₂ SettledFrom v w) :
    w.map Segment.number = v.map Segment.number := by
  induction h with
  | nil => rfl
  | cons hu _ ih => rw [List.map_cons, List.map_cons, hu.number_eq, ih]

/-- **What resolving keeps.**  The same numbers are stored, and each segment has only its
node settled. -/
theorem exists_settledFrom_of_resolve (hs : s.Indexed)
    (h : s.resolve mode topDepth topLength = .ok r) :
    r.numbers.Perm s.numbers ∧ ∀ t ∈ s.segments, ∃ u ∈ r.segments, SettledFrom t u := by
  cases mode with
  | incremental =>
    have hsettled := nodesSettled_of_resolveIncremental hs h
    refine ⟨hsettled.numbers, fun t ht => ?_⟩
    by_cases hn : t.number = topNumber
    · obtain ⟨top, htop, htopn, hmem⟩ := hsettled.top
      obtain rfl : t = top := List.inj_on_of_nodup_map hs.nodup ht htop (hn.trans htopn.symm)
      exact ⟨_, hmem, rfl, fun _ hne => absurd hn hne⟩
    · obtain ⟨u, hu, htu⟩ := hsettled.other t ht hn
      refine ⟨u, hu, ?_⟩
      cases htu with
      | kept => exact ⟨rfl, fun _ _ => rfl⟩
      | added hheld =>
        exact ⟨rfl, fun hready => absurd (hheld.symm.trans hready) Bool.false_ne_true⟩
  | absolute =>
    obtain ⟨ordered, hordered, -⟩ := resolveAbsolute_eq_ok.1 h
    obtain ⟨-, hspread⟩ := runsSpread_of_eq_ok hs hordered h
    obtain ⟨_, -, hperm, -⟩ := exists_placement_of_order hs hordered
    have hall := hspread.forall₂_settledFrom
    refine ⟨?_, fun t ht => exists_of_forall₂ hall (hperm.mem_iff.1 ht)⟩
    rw [numbers, numbers_eq_of_settledFrom hall]
    exact (hperm.map Segment.number).symm

/-- The numbers that flow in are told by the links. -/
theorem inletNumbers_congr {xs ys : List Segment}
    (h : xs.map Segment.link = ys.map Segment.link) (hn : t.number = u.number) :
    inletNumbers xs t = inletNumbers ys u := by
  have hlinks : ∀ (zs : List Segment) (w : Segment), inletNumbers zs w =
      ((zs.map Segment.link).filter fun l => decide (0 < l.2.2) && l.2.2 == w.number).map
        Prod.fst := by
    intro zs w
    rw [List.filter_map, List.map_map]
    rfl
  rw [hlinks, hlinks, h, hn]

/-- Segments of different numbers are different inlets. -/
theorem nodup_inletNumbers (h : (segments.map Segment.number).Nodup) (t : Segment) :
    (inletNumbers segments t).Nodup :=
  h.sublist (List.filter_sublist.map Segment.number)

/-- The numbers of the segments that flow in, behind those that are held. -/
def InletsAppended (segments : List Segment) (held : List Int) (u : Segment) : Prop :=
  u.inlets = held ++ (inletNumbers segments u).filter (· ∉ held)

/-- What becomes of a segment when it is linked, given the linked segments. -/
theorem forall₂_inletsAppended_of_linkInlets (hs : s.Indexed) (h : s.linkInlets = .ok r) :
    List.Forall₂ (fun t u => u = { t with inlets := u.inlets } ∧
      InletsAppended r.segments t.inlets u) s.segments r.segments := by
  have hlinks := (links_of_linkInlets h).1
  obtain ⟨-, heq⟩ := linkInlets_eq_ok.1 h
  have hsegs : r.segments = s.segments.map fun t =>
      (inletNumbers s.segments t).foldl Segment.addInlet t := congrArg SegmentSet.segments heq
  nth_rewrite 2 [hsegs]
  rw [List.forall₂_map_right_iff, List.forall₂_same]
  intro t ht
  have hlink := Segment.foldl_addInlet_link t (inletNumbers s.segments t)
  refine ⟨Segment.foldl_addInlet_eq t _, ?_⟩
  rw [InletsAppended, inletNumbers_congr hlinks (congrArg Prod.fst hlink)]
  exact Segment.inlets_foldl_addInlet t (nodup_inletNumbers hs.nodup t)

/-- What becomes of a segment when it is processed, given the processed segments. -/
structure ProcessedFrom (segments : List Segment) (t u : Segment) : Prop where
  /-- Only the node, the volume, the mark and the inlets of a segment change. -/
  other : u = { t with node := u.node, volume := u.volume, ready := u.ready, inlets := u.inlets }
  /-- A segment that was ready keeps its node, unless it is the top one. -/
  kept : t.ready = true → t.number ≠ topNumber → u.node = t.node
  inlets : InletsAppended segments t.inlets u

namespace ProcessedFrom

/-- A processed segment keeps its number. -/
theorem number_eq (h : ProcessedFrom segments t u) : u.number = t.number := by
  rw [h.other]

/-- A processed segment keeps its outlet. -/
theorem outlet_eq (h : ProcessedFrom segments t u) : u.outlet = t.outlet := by
  rw [h.other]

end ProcessedFrom

/-- **What processing keeps.**  The same numbers are stored, and every segment is a
stored one with its node settled and its inlets appended to. -/
theorem exists_processedFrom_of_process (hs : s.Indexed)
    (h : (s.process mode topDepth topLength options).outcome = .ok r) :
    r.numbers.Perm s.numbers ∧
      ∀ t ∈ s.segments, ∃ u ∈ r.segments, ProcessedFrom r.segments t u := by
  obtain ⟨built, hbuilt, -, rfl⟩ := process_eq_ok.1 h
  obtain ⟨q, hq, hlink⟩ := build_eq_ok.1 hbuilt
  obtain ⟨hperm, hsettled⟩ := exists_settledFrom_of_resolve hs hq
  have hlinked := forall₂_inletsAppended_of_linkInlets (hs.resolve hq) hlink
  refine ⟨?_, fun t ht => ?_⟩
  · show built.numbers.Perm s.numbers
    rwa [numbers, numbers_eq_of_links (links_of_linkInlets hlink).1]
  · obtain ⟨v, hv, htv⟩ := hsettled t ht
    obtain ⟨u, hu, huv, hinlets⟩ := exists_of_forall₂ hlinked hv
    have hvt := htv.other
    refine ⟨u, hu, ?_, fun hready hn => ?_, ?_⟩
    · rw [huv, hvt]
    · rw [huv]
      exact htv.kept hready hn
    · -- Resolving has left the inlets alone, so what is held is what was stored.
      rw [hvt] at hinlets
      exact hinlets

/-- Every processed segment comes from a stored one. -/
theorem exists_source_of_process (hs : s.Indexed)
    (h : (s.process mode topDepth topLength options).outcome = .ok r) (hu : u ∈ r.segments) :
    ∃ t ∈ s.segments, ProcessedFrom r.segments t u := by
  obtain ⟨hperm, hall⟩ := exists_processedFrom_of_process hs h
  obtain ⟨t, ht, hn⟩ := List.mem_map.1 (hperm.mem_iff.1 (List.mem_map_of_mem hu))
  obtain ⟨v, hv, htv⟩ := hall t ht
  obtain rfl : v = u :=
    List.inj_on_of_nodup_map (hs.process h).nodup hv hu (htv.number_eq.trans hn)
  exact ⟨t, ht, htv⟩

end SegmentSet
end MultiSegmentWell
