/-
# A run of the ordering

`Placement segments placed last` says how the placed segments come about, with `last`
the one placed last: the top segment comes first, and each further one has its outlet
placed and is the only segment left that could continue the branch of the one before
(`Follows`). Nothing in it depends on the order in which the other segments wait.

An arrangement of a set that holds the top segment is such a placement, with the
other segments pending, and it ends in one of three ways (`Ends`,
`exists_placement_arrange`): nothing is pending, two pending segments continue the
branch placed last, or no outlet of a pending segment is placed.
-/

import MultiSegmentWell.Proofs.Order.OutletChain
import MultiSegmentWell.Proofs.Tree.Indexed

namespace MultiSegmentWell
namespace SegmentSet

/-- A segment that can be placed next, behind `last`. -/
structure Follows (segments placed : List Segment) (last s : Segment) : Prop where
  mem : s ∈ segments
  fresh : s ∉ placed
  outlet : OutletPlaced placed s
  /-- No other segment could continue the branch. -/
  alone : ∀ t ∈ segments, t ∉ placed → OutletPlaced placed t → t.branch = last.branch → t = s

/-- Segments placed one behind the other, from the top segment on. -/
inductive Placement (segments : List Segment) : List Segment → Segment → Prop where
  | top {t : Segment} (mem : t ∈ segments) (number : t.number = topNumber) :
    Placement segments [t] t
  | next {placed : List Segment} {last s : Segment} (before : Placement segments placed last)
    (follows : Follows segments placed last s) : Placement segments (placed ++ [s]) s

namespace Placement

variable {segments placed : List Segment} {last : Segment}

/-- The segment placed last is the last one. -/
theorem getLast?_eq (h : Placement segments placed last) : placed.getLast? = some last := by
  cases h <;> simp

/-- The segment placed last is placed. -/
theorem last_mem (h : Placement segments placed last) : last ∈ placed :=
  List.mem_of_getLast? h.getLast?_eq

/-- The top segment is placed first. -/
theorem head?_eq (h : Placement segments placed last) :
    ∃ t, placed.head? = some t ∧ t ∈ segments ∧ t.number = topNumber := by
  induction h with
  | @top t hmem hn => exact ⟨t, rfl, hmem, hn⟩
  | next _ _ ih =>
    obtain ⟨t, ht, hmem, hn⟩ := ih
    exact ⟨t, by rw [List.head?_append, ht]; rfl, hmem, hn⟩

/-- Only stored segments are placed. -/
theorem subset (h : Placement segments placed last) : placed ⊆ segments := by
  induction h with
  | top hmem _ => simpa using hmem
  | next _ hf ih => exact List.append_subset.2 ⟨ih, by simpa using hf.mem⟩

/-- No segment is placed twice. -/
theorem nodup (h : Placement segments placed last) : placed.Nodup := by
  induction h with
  | top => exact List.nodup_singleton _
  | next _ hf ih =>
    exact ih.append (List.nodup_singleton _) (List.disjoint_singleton.2 hf.fresh)

/-- Every placed segment reaches the top. -/
theorem reachesTop (h : Placement segments placed last) : ∀ t ∈ placed, ReachesTop segments t := by
  induction h with
  | top hmem hn =>
    intro t ht
    obtain rfl := List.mem_singleton.1 ht
    exact reachesTop_of_number hmem hn
  | next _ hf ih =>
    intro t ht
    rcases List.mem_append.1 ht with ht | ht
    · exact ih t ht
    · obtain rfl := List.mem_singleton.1 ht
      obtain ⟨p, hp, ho⟩ := List.mem_map.1 hf.outlet
      exact (ih p hp).of_outlet hf.mem ho

/-- The top segment is placed. -/
theorem mem_of_number (h : Placement segments placed last)
    (hnd : (segments.map Segment.number).Nodup) {t : Segment} (ht : t ∈ segments)
    (hn : t.number = topNumber) : t ∈ placed := by
  obtain ⟨u, hu, hmem, hun⟩ := h.head?_eq
  rw [List.inj_on_of_nodup_map hnd ht hmem (hn.trans hun.symm)]
  exact List.mem_of_head? hu

/-- The placed segments up to one of them are a placement that it follows. -/
theorem split {before after : List Segment} {s : Segment} (hne : before ≠ [])
    (h : Placement segments (before ++ s :: after) last) :
    ∃ p, Placement segments before p ∧ Follows segments before p s := by
  induction after using List.reverseRecOn generalizing last with
  | nil =>
    generalize hv : before ++ [s] = v at h
    cases h with
    | top =>
      rw [List.append_eq_singleton_iff] at hv
      simp [hne] at hv
    | next hb hf =>
      obtain ⟨rfl, hs⟩ := List.append_inj' hv rfl
      obtain rfl := (List.cons.inj hs).1
      exact ⟨_, hb, hf⟩
  | append_singleton after x ih =>
    generalize hv : before ++ s :: (after ++ [x]) = v at h
    rw [← List.cons_append, ← List.append_assoc] at hv
    cases h with
    | top =>
      rw [List.append_eq_singleton_iff] at hv
      simp at hv
    | next hb _ =>
      obtain ⟨rfl, -⟩ := List.append_inj' hv rfl
      exact ih hb

end Placement

/-- How an arrangement with the branch placed last ends. -/
inductive Ends (well : String) (branch : Int) : Arrangement → Prop where
  | complete {placed : List Segment} : Ends well branch ⟨placed, [], none⟩
  | ambiguous {placed pending : List Segment} {first second : Segment}
    (continued : ∃ i j : Nat, i < j ∧ pending[i]? = some first ∧ pending[j]? = some second ∧
      (OutletPlaced placed first ∧ first.branch = branch) ∧
      (OutletPlaced placed second ∧ second.branch = branch)) :
    Ends well branch
      ⟨placed, pending, some (.ambiguousOutlet well branch first.number second.number)⟩
  | stuck {placed pending : List Segment} (nonempty : pending ≠ [])
    (unplaced : ∀ t ∈ pending, ¬ OutletPlaced placed t) :
    Ends well branch
      ⟨placed, pending, some (.unresolvableTopology well (pending.map Segment.number))⟩

/-- The pending segments are those that are not placed. -/
theorem mem_pending_iff {segments placed pending : List Segment} (hnd : segments.Nodup)
    (hperm : segments.Perm (placed ++ pending)) {t : Segment} :
    t ∈ pending ↔ t ∈ segments ∧ t ∉ placed := by
  have hdisj : List.Disjoint placed pending :=
    List.disjoint_of_nodup_append (hperm.nodup_iff.1 hnd)
  constructor
  · intro ht
    exact ⟨hperm.mem_iff.2 (List.mem_append_right placed ht), fun hp => hdisj hp ht⟩
  · rintro ⟨ht, hnot⟩
    exact (List.mem_append.1 (hperm.mem_iff.1 ht)).resolve_left hnot

/-- Pending segments at two positions are different ones, and neither is placed. -/
theorem pending_ne {segments placed pending : List Segment} (hnd : segments.Nodup)
    (hperm : segments.Perm (placed ++ pending)) {i j : Nat} (hij : i < j) {t u : Segment}
    (hi : pending[i]? = some t) (hj : pending[j]? = some u) :
    (t ∈ segments ∧ t ∉ placed) ∧ (u ∈ segments ∧ u ∉ placed) ∧ t ≠ u := by
  have hpending : ∀ {q : Segment}, q ∈ pending → q ∈ segments ∧ q ∉ placed :=
    (mem_pending_iff hnd hperm).1
  refine ⟨hpending (List.mem_of_getElem? hi), hpending (List.mem_of_getElem? hj), ?_⟩
  rintro rfl
  have hpnd : pending.Nodup := (hperm.nodup_iff.1 hnd).of_append_right
  have hlt := (List.getElem?_eq_some_iff.1 hi).1
  have hsame := (List.getElem?_inj hlt hpnd).1 (hi.trans hj.symm)
  omega

/-- **The loop extends a placement** and ends in one of the three ways. -/
theorem exists_placement_arrangeFrom {segments : List Segment} (hnd : segments.Nodup)
    (well : String) {count : Nat} {placed pending : List Segment} {last : Segment}
    (hcount : pending.length = count) (hperm : segments.Perm (placed ++ pending))
    (h : Placement segments placed last) :
    ∃ l, Placement segments (arrangeFrom well count placed last.branch pending).placed l ∧
      segments.Perm (arrangeFrom well count placed last.branch pending).segments ∧
      Ends well l.branch (arrangeFrom well count placed last.branch pending) := by
  induction count generalizing placed pending last with
  | zero =>
    obtain rfl := List.eq_nil_of_length_eq_zero hcount
    exact ⟨last, h, hperm, .complete⟩
  | succ count ih =>
    have hne : pending ≠ [] := by
      rintro rfl
      cases hcount
    rw [arrangeFrom]
    split
    · rename_i first second hchoice
      exact ⟨last, h, hperm, .ambiguous (exists_of_choose_ambiguous hchoice)⟩
    · rename_i hchoice
      exact ⟨last, h, hperm, .stuck hne (not_outletPlaced_of_choose_stuck hchoice)⟩
    · rename_i i hchoice
      obtain ⟨s, hi, hs, halone⟩ := exists_of_choose_next hchoice
      obtain ⟨rest, hrest⟩ := exists_takeOut hi
      have htaken := perm_of_takeOut hrest
      rw [hrest]
      have hperm' : segments.Perm ((placed ++ [s]) ++ rest) := by
        rw [List.append_assoc]
        exact hperm.trans (htaken.append_left placed)
      obtain ⟨hmem, hfresh⟩ := (mem_pending_iff hnd hperm).1 (List.mem_of_getElem? hi)
      refine ih ?_ hperm' (h.next ⟨hmem, hfresh, hs, fun t ht hnot => ?_⟩)
      · have := htaken.length_eq
        simp only [List.length_cons] at this
        omega
      · exact halone t ((mem_pending_iff hnd hperm).2 ⟨ht, hnot⟩)

variable {s : SegmentSet}

/-- A set without the top segment is not arranged. -/
theorem arrange_eq_of_not_mem (hs : s.Indexed) (h : topNumber ∉ s.numbers) :
    s.arrange = ⟨[], s.segments, some (.unknownSegment s.well topNumber)⟩ := by
  have hnone : s.index.get? topNumber = none := by
    rw [Option.eq_none_iff_forall_ne_some]
    intro i hi
    exact h (List.mem_of_getElem? ((hs.get? _ i).1 hi))
  rw [arrange, hnone]
  rfl

/-- **The arrangement of a set that holds the top segment** is a placement of its
segments with the others pending, and ends in one of the three ways. -/
theorem exists_placement_arrange (hs : s.Indexed) (h : topNumber ∈ s.numbers) :
    ∃ l, Placement s.segments s.arrange.placed l ∧ s.segments.Perm s.arrange.segments ∧
      Ends s.well l.branch s.arrange := by
  obtain ⟨i, hi⟩ := List.getElem?_of_mem h
  have hindex := (hs.get? _ i).2 hi
  rw [numbers, List.getElem?_map, Option.map_eq_some_iff] at hi
  obtain ⟨t, ht, hn⟩ := hi
  obtain ⟨pending, htaken⟩ := exists_takeOut ht
  have hstart : s.arrange = arrangeFrom s.well pending.length [t] t.branch pending := by
    rw [arrange, hindex, Option.bind_some, htaken]
  rw [hstart]
  exact exists_placement_arrangeFrom hs.segments_nodup s.well rfl (perm_of_takeOut htaken)
    (.top (List.mem_of_getElem? ht) hn)

end SegmentSet
end MultiSegmentWell
