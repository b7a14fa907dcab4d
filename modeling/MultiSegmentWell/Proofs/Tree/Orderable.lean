/-
# Resolving succeeds where ordering does

Settling the top segment changes a node and no link, so the set is ordered as it would be
without (`Indexed.add_settledTop`). Once a set is ordered, incremental records are
always resolved, since every outlet is settled before it is looked up; absolute ones are
resolved if they leave no run (`exists_resolve_of_order`). Where ordering fails, resolving
fails for the same reason (`resolve_eq_error_of_order`).
-/

import MultiSegmentWell.Proofs.Tree.Determined

namespace MultiSegmentWell
namespace SegmentSet

variable {s q r ordered : SegmentSet} {done rest : List Segment} {t : Segment} {well : String}
variable {mode : GeometryMode} {topDepth topLength : Float} {e : SegmentError}

/-- The top segment settled, and every other one as it is. -/
def settleTop (topDepth topLength : Float) (t : Segment) : Segment :=
  if t.number = topNumber then settledTop t topDepth topLength else t

/-- Settling the top segment keeps its link. -/
theorem settleTop_link (topDepth topLength : Float) (t : Segment) :
    (settleTop topDepth topLength t).link = t.link := by
  unfold settleTop
  split <;> rfl

/-- The settled top segment takes its place among the others. -/
theorem Indexed.add_settledTop (hs : s.Indexed) (topDepth topLength : Float)
    (ht : t ∈ s.segments) (hn : t.number = topNumber) :
    s.add (settledTop t topDepth topLength)
      = s.recast (settleTop topDepth topLength) s.pressureDrop s.flowModel := by
  obtain ⟨i, hi⟩ := List.getElem?_of_mem ht
  have hset : s.segments.set i (settledTop t topDepth topLength)
      = s.segments.map (settleTop topDepth topLength) := by
    refine List.ext_getElem? fun k => ?_
    rw [List.getElem?_map]
    by_cases hk : k = i
    · subst hk
      rw [List.getElem?_set_self (List.getElem?_eq_some_iff.1 hi).1, hi, Option.map_some, settleTop,
        if_pos hn]
    · rw [List.getElem?_set_ne (Ne.symm hk)]
      cases hu : s.segments[k]? with
      | none => rfl
      | some u =>
        have hne : u.number ≠ topNumber := by
          intro hun
          have hut := List.inj_on_of_nodup_map hs.nodup (List.mem_of_getElem? hu) ht
            (hun.trans hn.symm)
          have hlt := (List.getElem?_eq_some_iff.1 hi).1
          exact hk ((List.getElem?_inj hlt hs.segments_nodup).1 (by rw [hi, hu, hut])).symm
        rw [Option.map_some, settleTop, if_neg hne]
  have hnumber : t.number = (settledTop t topDepth topLength).number := rfl
  rw [hs.add_eq_set hi hnumber, hset]
  rfl

/-- A set that can be ordered holds the top segment. -/
theorem exists_top_of_order (hs : s.Indexed) (h : s.order = .ok ordered) :
    ∃ t ∈ s.segments, t.number = topNumber := by
  obtain ⟨_, -, hperm, -⟩ := exists_placement_of_order hs h
  have htop := List.mem_of_getElem? (inOrder_of_order hs h).top
  exact List.mem_map.1 ((hperm.map Segment.number).mem_iff.2 htop)

/-- **What can be resolved can be ordered.** -/
theorem exists_order_of_resolve (hs : s.Indexed)
    (h : s.resolve mode topDepth topLength = .ok r) : ∃ ordered, s.order = .ok ordered := by
  cases mode with
  | incremental =>
    obtain ⟨t, ordered, ht, hordered, -⟩ := resolveIncremental_eq_ok.1 h
    obtain ⟨hmem, hn⟩ := hs.get?_eq_some_iff.1 (get_eq_ok.1 ht)
    have hadd := hs.add_settledTop topDepth topLength hmem hn
    have hiff := exists_order_recast_iff (settleTop_link topDepth topLength) s.pressureDrop
      s.flowModel s
    rw [← hadd] at hiff
    exact hiff.1 ⟨ordered, hordered⟩
  | absolute =>
    obtain ⟨ordered, hordered, -⟩ := resolveAbsolute_eq_ok.1 h
    exact ⟨ordered, hordered⟩

/-- In order, all changes are added up: each outlet is settled by then. -/
theorem exists_settleAllChanges (hv : InOrder (done ++ rest)) (hne : done ≠ []) :
    ∃ settled, settleAllChanges well done rest = .ok settled := by
  induction rest generalizing done with
  | nil => exact ⟨done, rfl⟩
  | cons t rest ih =>
    obtain ⟨u, hu⟩ : ∃ u, settleChanges well done t = .ok u := by
      unfold settleChanges
      split
      · exact ⟨t, rfl⟩
      · obtain ⟨outlet, houtlet⟩ := exists_outletAmong well (hv.outletPlaced hne)
        exact ⟨_, map_eq_ok.2 ⟨outlet, houtlet, rfl⟩⟩
    have hv' : InOrder (done ++ [u] ++ rest) := by
      refine hv.congr ?_
      simp [link_of_settleChanges hu]
    obtain ⟨settled, hsettled⟩ := ih hv' (by simp)
    exact ⟨settled, bind_eq_ok.2 ⟨u, hu, hsettled⟩⟩

/-- Incremental records of an ordered set are always resolved. -/
theorem exists_resolveIncremental_of_order (hs : s.Indexed) (h : s.order = .ok ordered) :
    ∃ q, s.resolveIncremental topDepth topLength = .ok q := by
  obtain ⟨t, ht, hn⟩ := exists_top_of_order hs h
  obtain ⟨o, ho⟩ : ∃ o, (s.add (settledTop t topDepth topLength)).order = .ok o := by
    rw [hs.add_settledTop topDepth topLength ht hn]
    exact (exists_order_recast_iff (settleTop_link topDepth topLength) _ _ s).2 ⟨ordered, h⟩
  have hget := get_eq_ok.2 (hs.get?_eq_some_iff.2 ⟨ht, hn⟩)
  have hv := inOrder_of_order (hs.add _) ho
  cases hsegs : o.segments with
  | nil => exact ⟨o, resolveIncremental_eq_ok.2 ⟨t, o, hget, ho, by rw [hsegs]⟩⟩
  | cons first rest =>
    rw [hsegs] at hv
    obtain ⟨settled, hsettled⟩ : ∃ settled, settleAllChanges s.well [first] rest = .ok settled :=
      exists_settleAllChanges hv (by simp)
    refine ⟨o.withSegments settled, resolveIncremental_eq_ok.2 ⟨t, o, hget, ho, ?_⟩⟩
    rw [hsegs]
    exact ⟨settled, hsettled, rfl⟩

/-- Absolute records of an ordered set are resolved if no run is open. -/
theorem exists_resolveAbsolute_of_order (hs : s.Indexed)
    (hready : ∀ t ∈ s.segments, t.number ≠ topNumber → t.ready = true)
    (h : s.order = .ok ordered) : ∃ q, s.resolveAbsolute = .ok q := by
  have hends := absoluteEnds_resolveAbsolute hs h
  obtain ⟨_, -, hperm, -⟩ := exists_placement_of_order hs h
  generalize s.resolveAbsolute = x at hends
  cases hends with
  | spread => exact ⟨_, rfl⟩
  | unclosed hrun =>
    refine absurd hrun ((inOrder_of_order hs h).not_unreadyRun (hs.order h).nodup ?_)
    exact fun t ht => hready t (hperm.mem_iff.2 ht)

/-- **What can be ordered can be resolved**, if absolute nodes leave no runs. -/
theorem exists_resolve_of_order (hs : s.Indexed)
    (hready : mode = .absolute → ∀ t ∈ s.segments, t.number ≠ topNumber → t.ready = true)
    (h : s.order = .ok ordered) : ∃ q, s.resolve mode topDepth topLength = .ok q := by
  cases mode with
  | incremental => exact exists_resolveIncremental_of_order hs h
  | absolute => exact exists_resolveAbsolute_of_order hs (hready rfl) h

/-- **What cannot be ordered cannot be resolved**, for the same reason. -/
theorem resolve_eq_error_of_order (hs : s.Indexed) (htop : topNumber ∈ s.numbers)
    (h : s.order = .error e) : s.resolve mode topDepth topLength = .error e := by
  cases mode with
  | incremental =>
    obtain ⟨t, ht, hn, hget⟩ := hs.exists_get htop
    have horder : (s.add (settledTop t topDepth topLength)).order = .error e := by
      rw [hs.add_settledTop topDepth topLength ht hn]
      exact order_recast_eq_error (settleTop_link topDepth topLength) _ _ s h
    show s.resolveIncremental topDepth topLength = .error e
    unfold resolveIncremental
    rw [hget]
    show (s.add (settledTop t topDepth topLength)).order >>= _ = _
    rw [horder]
    rfl
  | absolute =>
    show s.resolveAbsolute = .error e
    unfold resolveAbsolute
    rw [h]
    rfl

end SegmentSet
end MultiSegmentWell
