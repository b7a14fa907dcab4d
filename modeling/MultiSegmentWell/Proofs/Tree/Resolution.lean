/-
# What resolving nodes keeps

Resolving settles nodes and volumes. The links of the segments stay what they were
in the ordered set, and with them their numbers and the order in which they are
stored (`links_of_resolve`), whichever mode is used. Linking inlets touches nothing
but the inlets (`forall₂_of_linkInlets`).
-/

import MultiSegmentWell.SegmentSet.Resolution
import MultiSegmentWell.Proofs.Order.Ordered
import MultiSegmentWell.Proofs.Outcome

namespace MultiSegmentWell

namespace Segment

/-- Settling a node keeps the link. -/
@[simp] theorem settle_link (s : Segment) (n : Node) : (s.settle n).link = s.link := rfl

/-- Filling a volume in keeps the link. -/
@[simp] theorem withVolume_link (s : Segment) (v : Float) : (s.withVolume v).link = s.link := rfl

/-- Entering an inlet keeps the link. -/
@[simp] theorem addInlet_link (s : Segment) (n : Int) : (s.addInlet n).link = s.link := by
  unfold addInlet; split <;> rfl

/-- Entering inlets keeps the link. -/
@[simp] theorem foldl_addInlet_link (s : Segment) (ns : List Int) :
    (ns.foldl addInlet s).link = s.link := by
  induction ns generalizing s with
  | nil => rfl
  | cons n ns ih => rw [List.foldl_cons, ih, addInlet_link]

/-- Entering inlets changes nothing else of a segment. -/
theorem foldl_addInlet_eq (s : Segment) (ns : List Int) :
    ns.foldl addInlet s = { s with inlets := (ns.foldl addInlet s).inlets } := by
  induction ns generalizing s with
  | nil => rfl
  | cons n ns ih =>
    rw [List.foldl_cons, ih]
    unfold addInlet
    split <;> rfl

end Segment

namespace SegmentSet

variable {well : String} {s r : SegmentSet}

/-- The outlet that is found is a segment with the number that the outlet has. -/
theorem mem_of_outletAmong {others : List Segment} {t outlet : Segment}
    (h : outletAmong well others t = .ok outlet) : outlet ∈ others ∧ outlet.number = t.outlet := by
  unfold outletAmong at h
  split at h
  · rename_i o ho
    obtain rfl := Except.ok.inj h
    exact ⟨List.mem_of_find?_eq_some ho, by simpa using List.find?_some ho⟩
  · cases h

/-- The outlet is found if it is placed. -/
theorem exists_outletAmong (well : String) {others : List Segment} {t : Segment}
    (h : OutletPlaced others t) : ∃ outlet, outletAmong well others t = .ok outlet := by
  unfold outletAmong
  split
  · exact ⟨_, rfl⟩
  · rename_i hnone
    obtain ⟨o, ho, hn⟩ := List.mem_map.1 h
    exact absurd (beq_iff_eq.2 hn) (List.find?_eq_none.1 hnone o ho)

/-- Adding changes to a node keeps the link. -/
theorem link_of_settleChanges {done : List Segment} {t u : Segment}
    (h : settleChanges well done t = .ok u) : u.link = t.link := by
  unfold settleChanges at h
  split at h
  · rw [Except.ok.inj h]
  · obtain ⟨_, -, rfl⟩ := map_eq_ok.1 h
    rfl

/-- Adding all changes keeps all links in their order. -/
theorem links_of_settleAllChanges {done rest settled : List Segment}
    (h : settleAllChanges well done rest = .ok settled) :
    settled.map Segment.link = (done ++ rest).map Segment.link := by
  induction rest generalizing done with
  | nil =>
    obtain rfl := Except.ok.inj h
    rw [List.append_nil]
  | cons t rest ih =>
    obtain ⟨u, hu, h⟩ := bind_eq_ok.1 h
    rw [ih h]
    simp [link_of_settleChanges hu]

/-- Spreading a run keeps all links in their order. -/
theorem links_spread (outlet : Segment) (run : List Segment) (last : Segment) :
    (spread outlet run last).map Segment.link = (run ++ [last]).map Segment.link := by
  have hrun : run.zipIdx.map (Segment.link ∘ Prod.fst) = run.map Segment.link := by
    rw [← List.map_map, List.zipIdx_map_fst]
  simp only [spread, List.map_append, List.map_map, List.map_cons, List.map_nil,
    Segment.withVolume_link, Segment.settle_link]
  exact congrArg (· ++ [last.link]) hrun

/-- Spreading all runs keeps all links in their order. -/
theorem links_of_spreadRuns {done run rest settled : List Segment}
    (h : spreadRuns well done run rest = .ok settled) :
    settled.map Segment.link = (done ++ run ++ rest).map Segment.link := by
  induction rest generalizing done run with
  | nil =>
    cases run with
    | nil =>
      obtain rfl := Except.ok.inj h
      simp
    | cons first run => cases h
  | cons t rest ih =>
    cases run with
    | nil =>
      rw [spreadRuns] at h
      split at h
      · rw [ih h]
        simp
      · rw [ih h]
        simp
    | cons first run =>
      rw [spreadRuns] at h
      split at h
      · obtain ⟨outlet, -, h⟩ := bind_eq_ok.1 h
        rw [ih h, List.append_nil, List.map_append, List.map_append, links_spread]
        simp
      · rw [ih h]
        simp

/-- Filling volumes in keeps all links in their order. -/
theorem links_of_mapM_fillVolume {others segments filled : List Segment}
    (h : segments.mapM (fillVolume well others) = .ok filled) :
    filled.map Segment.link = segments.map Segment.link := by
  induction mapM_eq_ok.1 h with
  | nil => rfl
  | @cons t u _ _ hu hus ih =>
    have hl : u.link = t.link := by
      unfold fillVolume at hu
      split at hu
      · rw [Except.ok.inj hu]
      · obtain ⟨_, -, rfl⟩ := map_eq_ok.1 hu
        rfl
    rw [List.map_cons, List.map_cons, hl]
    exact congrArg _ (ih (mapM_eq_ok.2 hus))

/-- Spreading runs behind the top segment and filling volumes in keeps all links. -/
theorem links_of_filled {t : Segment} {rest settled filled : List Segment}
    (hsettled : spreadRuns well [t] [] rest = .ok settled)
    (hfilled : settled.tail.mapM (fillVolume well settled) = .ok filled) :
    (settled.take 1 ++ filled).map Segment.link = (t :: rest).map Segment.link := by
  rw [List.map_append, links_of_mapM_fillVolume hfilled, ← List.map_append, ← List.drop_one,
    List.take_append_drop, links_of_spreadRuns hsettled]
  simp

/-- Incremental nodes are resolved in three steps: the top segment is settled, the
set is ordered, and the changes are added up behind the top segment. -/
theorem resolveIncremental_eq_ok {topDepth topLength : Float} :
    s.resolveIncremental topDepth topLength = .ok r ↔
      ∃ top ordered, s.get topNumber = .ok top ∧
        (s.add (top.settle { top.node with length := topLength, depth := topDepth })).order
          = .ok ordered ∧
        match ordered.segments with
        | [] => r = ordered
        | t :: rest =>
          ∃ settled, settleAllChanges s.well [t] rest = .ok settled ∧
            r = ordered.withSegments settled := by
  rw [resolveIncremental, bind_eq_ok]
  refine exists_congr fun top => ?_
  rw [bind_eq_ok, ← exists_and_left]
  refine exists_congr fun ordered => and_congr_right fun _ => and_congr_right fun _ => ?_
  cases ordered.segments with
  | nil => simp [eq_comm]
  | cons t rest =>
    rw [map_eq_ok]
    exact exists_congr fun _ => and_congr_right fun _ => eq_comm

/-- Absolute nodes are resolved in three steps: the set is ordered, its runs are
spread, and volumes are filled in behind the top segment. -/
theorem resolveAbsolute_eq_ok :
    s.resolveAbsolute = .ok r ↔
      ∃ ordered, s.order = .ok ordered ∧
        match ordered.segments with
        | [] => r = ordered
        | t :: rest =>
          ∃ settled filled, spreadRuns s.well [t] [] rest = .ok settled ∧
            settled.tail.mapM (fillVolume s.well settled) = .ok filled ∧
            r = ordered.withSegments (settled.take 1 ++ filled) := by
  rw [resolveAbsolute, bind_eq_ok]
  refine exists_congr fun ordered => and_congr_right fun _ => ?_
  cases ordered.segments with
  | nil => simp [eq_comm]
  | cons t rest =>
    simp only [bind_eq_ok, ← exists_and_left]
    refine exists_congr fun settled => exists_congr fun filled => ?_
    simp only [Except.ok.injEq, eq_comm (a := r)]

/-- **A resolved set has the links of an ordered one**, with its positions entered
anew. -/
theorem links_of_resolve (hs : s.Indexed) {mode : GeometryMode} {topDepth topLength : Float}
    (h : s.resolve mode topDepth topLength = .ok r) :
    ∃ q ordered : SegmentSet, q.Indexed ∧ q.order = .ok ordered ∧
      r.segments.map Segment.link = ordered.segments.map Segment.link ∧
      r = ordered.withSegments r.segments := by
  cases mode with
  | incremental =>
    obtain ⟨top, ordered, -, hordered, h⟩ := resolveIncremental_eq_ok.1 h
    have hq := hs.add (top.settle { top.node with length := topLength, depth := topDepth })
    refine ⟨_, ordered, hq, hordered, ?_⟩
    obtain ⟨_, -, -, heq⟩ := exists_placement_of_order hq hordered
    split at h
    · subst h
      exact ⟨rfl, by rw [heq]; rfl⟩
    · rename_i t rest hsegs
      obtain ⟨settled, hsettled, rfl⟩ := h
      exact ⟨by rw [hsegs]; exact links_of_settleAllChanges hsettled, rfl⟩
  | absolute =>
    obtain ⟨ordered, hordered, h⟩ := resolveAbsolute_eq_ok.1 h
    refine ⟨s, ordered, hs, hordered, ?_⟩
    obtain ⟨_, -, -, heq⟩ := exists_placement_of_order hs hordered
    split at h
    · subst h
      exact ⟨rfl, by rw [heq]; rfl⟩
    · rename_i t rest hsegs
      obtain ⟨settled, filled, hsettled, hfilled, rfl⟩ := h
      exact ⟨by rw [hsegs]; exact links_of_filled hsettled hfilled, rfl⟩

/-- Inlets can be linked when every positive outlet is stored. -/
theorem linkInlets_eq_ok :
    s.linkInlets = .ok r ↔
      (∀ t ∈ s.segments, 0 < t.outlet → s.contains t.outlet = true) ∧
        r = { s with
          segments := s.segments.map fun t =>
            (inletNumbers s.segments t).foldl Segment.addInlet t } := by
  unfold linkInlets
  split
  · rename_i t ht
    have hmem := List.mem_of_find?_eq_some ht
    have hfound := List.find?_some ht
    simp only [Bool.and_eq_true, decide_eq_true_eq, Bool.not_eq_true'] at hfound
    refine iff_of_false (fun h => by cases h) fun h => ?_
    rw [h.1 t hmem hfound.1] at hfound
    cases hfound.2
  · rename_i hnone
    rw [List.find?_eq_none] at hnone
    have hall : ∀ t ∈ s.segments, 0 < t.outlet → s.contains t.outlet = true := by
      intro t ht hpos
      simpa [hpos] using hnone t ht
    rw [Except.ok.injEq, eq_comm (a := r)]
    exact ⟨fun h => ⟨hall, h⟩, fun h => h.2⟩

/-- Linking inlets keeps links and positions. -/
theorem links_of_linkInlets (h : s.linkInlets = .ok r) :
    r.segments.map Segment.link = s.segments.map Segment.link ∧ r.index = s.index := by
  obtain ⟨-, rfl⟩ := linkInlets_eq_ok.1 h
  refine ⟨?_, rfl⟩
  rw [List.map_map]
  exact List.map_congr_left fun t _ => Segment.foldl_addInlet_link t _

/-- Linking changes the inlets of segments only. -/
theorem forall₂_of_linkInlets (h : s.linkInlets = .ok r) :
    List.Forall₂ (fun t u => u = { t with inlets := u.inlets }) s.segments r.segments := by
  obtain ⟨-, rfl⟩ := linkInlets_eq_ok.1 h
  rw [List.forall₂_map_right_iff, List.forall₂_same]
  exact fun t _ => Segment.foldl_addInlet_eq t _

end SegmentSet
end MultiSegmentWell
