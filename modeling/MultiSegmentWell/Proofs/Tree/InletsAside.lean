/-
# Inlets play no part in resolving

Ordering, settling nodes, filling volumes in and the check read links, nodes, pipes,
volumes and marks. What stands in the inlet lists makes no difference to them, and
neither do the settings of the set. So a set whose segments get their inlets from a table
is resolved to the resolved set with the inlets of that table (`resolve_withInlets`), and
passes the check with the same findings (`check_withInlets`).

Linking only changes inlets. A linked set is therefore the unlinked one with the inlets
of some table (`eq_withInlets_of_linkInlets`), and whether inlets can be linked is decided
by the links alone.
-/

import MultiSegmentWell.Proofs.Order.Links
import MultiSegmentWell.Proofs.Tree.Processed

namespace MultiSegmentWell

namespace Segment

/-- The segment with the inlets that a table gives for its number. -/
def withInlets (table : Int → List Int) (t : Segment) : Segment :=
  { t with inlets := table t.number }

/-- Inlets are no part of a link. -/
theorem withInlets_link (table : Int → List Int) (t : Segment) :
    (t.withInlets table).link = t.link := rfl

end Segment

namespace SegmentSet

/-- The set with the inlets that a table gives, under other settings. -/
def withInlets (table : Int → List Int) (pressureDrop : PressureDrop) (flowModel : FlowModel)
    (s : SegmentSet) : SegmentSet :=
  s.recast (Segment.withInlets table) pressureDrop flowModel

variable {well : String} {s r : SegmentSet} {mode : GeometryMode} {topDepth topLength : Float}
variable {options : Options}

section Resolving

variable (table : Int → List Int)

/-- Outlets are found among segments whatever their inlets. -/
theorem outletAmong_withInlets (others : List Segment) (t : Segment) :
    outletAmong well (others.map (Segment.withInlets table)) (t.withInlets table)
      = (outletAmong well others t).map (Segment.withInlets table) := by
  have houtlet : (t.withInlets table).outlet = t.outlet := rfl
  have hfind : (others.map (Segment.withInlets table)).find? (fun u => u.number == t.outlet)
      = (others.find? fun u => u.number == t.outlet).map (Segment.withInlets table) :=
    List.find?_map
  unfold outletAmong
  rw [houtlet, hfind]
  cases others.find? fun u => u.number == t.outlet <;> rfl

/-- Changes are added to an outlet whatever the inlets. -/
theorem settleChanges_withInlets (done : List Segment) (t : Segment) :
    settleChanges well (done.map (Segment.withInlets table)) (t.withInlets table)
      = (settleChanges well done t).map (Segment.withInlets table) := by
  unfold settleChanges
  rw [outletAmong_withInlets]
  show (if t.ready then _ else _) = _
  split
  · rfl
  · cases outletAmong well done t <;> rfl

/-- All changes are added in turn whatever the inlets. -/
theorem settleAllChanges_withInlets (done rest : List Segment) :
    settleAllChanges well (done.map (Segment.withInlets table))
        (rest.map (Segment.withInlets table))
      = (settleAllChanges well done rest).map (List.map (Segment.withInlets table)) := by
  induction rest generalizing done with
  | nil => rfl
  | cons t rest ih =>
    rw [List.map_cons, settleAllChanges, settleAllChanges, settleChanges_withInlets]
    cases settleChanges well done t with
    | error e => rfl
    | ok u =>
      have hdone : done.map (Segment.withInlets table) ++ [u.withInlets table]
          = (done ++ [u]).map (Segment.withInlets table) := by simp
      show settleAllChanges well (done.map (Segment.withInlets table) ++ [u.withInlets table]) _ = _
      rw [hdone]
      exact ih (done ++ [u])

/-- A run is spread whatever the inlets. -/
theorem spread_withInlets (outlet last : Segment) (run : List Segment) :
    spread (outlet.withInlets table) (run.map (Segment.withInlets table)) (last.withInlets table)
      = (spread outlet run last).map (Segment.withInlets table) := by
  simp only [spread, List.map_append, List.zipIdx_map, List.map_map, List.length_map]
  rfl

/-- All runs are spread in turn whatever the inlets. -/
theorem spreadRuns_withInlets (done run rest : List Segment) :
    spreadRuns well (done.map (Segment.withInlets table)) (run.map (Segment.withInlets table))
        (rest.map (Segment.withInlets table))
      = (spreadRuns well done run rest).map (List.map (Segment.withInlets table)) := by
  induction rest generalizing done run with
  | nil => cases run <;> rfl
  | cons t rest ih =>
    have hready : (t.withInlets table).ready = t.ready := rfl
    cases run with
    | nil =>
      rw [List.map_nil, List.map_cons, spreadRuns, spreadRuns, hready]
      split
      · have hdone : done.map (Segment.withInlets table) ++ [t.withInlets table]
            = (done ++ [t]).map (Segment.withInlets table) := by simp
        rw [hdone]
        exact ih (done ++ [t]) []
      · exact ih done [t]
    | cons first run =>
      rw [List.map_cons, List.map_cons, spreadRuns, spreadRuns, hready]
      split
      · rw [outletAmong_withInlets]
        cases outletAmong well done first with
        | error e => rfl
        | ok outlet =>
          have hspread := spread_withInlets table outlet t (first :: run)
          have hdone : done.map (Segment.withInlets table)
                ++ spread (outlet.withInlets table) ((first :: run).map (Segment.withInlets table))
                  (t.withInlets table)
              = (done ++ spread outlet (first :: run) t).map (Segment.withInlets table) := by
            rw [hspread, List.map_append]
          show spreadRuns well (done.map (Segment.withInlets table)
            ++ spread (outlet.withInlets table) ((first :: run).map (Segment.withInlets table))
              (t.withInlets table)) [] _ = _
          rw [hdone]
          exact ih (done ++ spread outlet (first :: run) t) []
      · have hrun : first.withInlets table :: run.map (Segment.withInlets table)
              ++ [t.withInlets table]
            = (first :: run ++ [t]).map (Segment.withInlets table) := by simp
        rw [hrun]
        exact ih done (first :: run ++ [t])

/-- A volume is filled in whatever the inlets. -/
theorem fillVolume_withInlets (segments : List Segment) (t : Segment) :
    fillVolume well (segments.map (Segment.withInlets table)) (t.withInlets table)
      = (fillVolume well segments t).map (Segment.withInlets table) := by
  unfold fillVolume
  rw [outletAmong_withInlets]
  show (if Quantity.isKnown t.volume then _ else _) = _
  split
  · rfl
  · cases outletAmong well segments t <;> rfl

/-- All volumes are filled in whatever the inlets. -/
theorem mapM_fillVolume_withInlets (segments rest : List Segment) :
    (rest.map (Segment.withInlets table)).mapM
        (fillVolume well (segments.map (Segment.withInlets table)))
      = (rest.mapM (fillVolume well segments)).map (List.map (Segment.withInlets table)) := by
  induction rest with
  | nil => rfl
  | cons t rest ih =>
    rw [List.map_cons, List.mapM_cons, List.mapM_cons, fillVolume_withInlets, ih]
    cases fillVolume well segments t with
    | error e => rfl
    | ok u => cases rest.mapM (fillVolume well segments) <;> rfl

variable (pressureDrop : PressureDrop) (flowModel : FlowModel)

/-- What is looked up has the inlets of the table. -/
theorem get_withInlets (s : SegmentSet) (n : Int) :
    (s.withInlets table pressureDrop flowModel).get n
      = (s.get n).map (Segment.withInlets table) := by
  unfold get get? withInlets recast
  cases s.index.get? n with
  | none => rfl
  | some i =>
    simp only [Option.bind_some, List.getElem?_map]
    cases s.segments[i]? <;> rfl

/-- A segment with the inlets of the table can be added before or after. -/
theorem add_withInlets (s : SegmentSet) (a : Segment) :
    (s.withInlets table pressureDrop flowModel).add (a.withInlets table)
      = (s.add a).withInlets table pressureDrop flowModel := by
  have hnumber : (a.withInlets table).number = a.number := rfl
  unfold add withInlets recast
  rw [hnumber]
  cases s.index.get? a.number with
  | none => simp [Segment.withInlets]
  | some i => simp [Segment.withInlets]

/-- So can several segments. -/
theorem addAll_withInlets (s : SegmentSet) (segments : List Segment) :
    (s.withInlets table pressureDrop flowModel).addAll (segments.map (Segment.withInlets table))
      = (s.addAll segments).withInlets table pressureDrop flowModel := by
  induction segments generalizing s with
  | nil => rfl
  | cons a segments ih =>
    have hadd := add_withInlets table pressureDrop flowModel s a
    exact (congrArg (fun q : SegmentSet => q.addAll _) hadd).trans (ih (s.add a))

/-- The stored segments are the same but for their inlets. -/
theorem segments_withInlets (s : SegmentSet) :
    (s.withInlets table pressureDrop flowModel).segments
      = s.segments.map (Segment.withInlets table) := rfl

/-- **Ordering does not look at inlets.** -/
theorem order_withInlets (h : s.order = .ok r) :
    (s.withInlets table pressureDrop flowModel).order
      = .ok (r.withInlets table pressureDrop flowModel) := by
  have horder := order_recast (Segment.withInlets_link table) pressureDrop flowModel s
  rw [h] at horder
  exact horder

/-- Entering segments anew does not look at inlets. -/
theorem withSegments_withInlets (s : SegmentSet) (segments : List Segment) :
    (s.withInlets table pressureDrop flowModel).withSegments
        (segments.map (Segment.withInlets table))
      = (s.withSegments segments).withInlets table pressureDrop flowModel :=
  withSegments_recast (Segment.withInlets_link table) pressureDrop flowModel s segments

/-- Adding the changes of incremental records does not look at inlets. -/
theorem resolveIncremental_withInlets (h : s.resolveIncremental topDepth topLength = .ok r) :
    (s.withInlets table pressureDrop flowModel).resolveIncremental topDepth topLength
      = .ok (r.withInlets table pressureDrop flowModel) := by
  obtain ⟨top, ordered, htop, hordered, h⟩ := resolveIncremental_eq_ok.1 h
  have hadd := add_withInlets table pressureDrop flowModel s
    (top.settle { top.node with length := topLength, depth := topDepth })
  refine resolveIncremental_eq_ok.2
    ⟨top.withInlets table, ordered.withInlets table pressureDrop flowModel, ?_, ?_, ?_⟩
  · rw [get_withInlets, htop]
    rfl
  · exact (congrArg SegmentSet.order hadd).trans (order_withInlets table _ _ hordered)
  · rw [segments_withInlets]
    cases hsegs : ordered.segments with
    | nil =>
      rw [hsegs] at h
      exact congrArg (withInlets table pressureDrop flowModel) h
    | cons t rest =>
      rw [hsegs] at h
      obtain ⟨settled, hsettled, rfl⟩ := h
      have hmap := @settleAllChanges_withInlets s.well table [t] rest
      rw [hsettled] at hmap
      exact ⟨settled.map (Segment.withInlets table), hmap,
        (withSegments_withInlets table pressureDrop flowModel ordered settled).symm⟩

/-- Spreading runs and filling volumes in does not look at inlets. -/
theorem resolveAbsolute_withInlets (h : s.resolveAbsolute = .ok r) :
    (s.withInlets table pressureDrop flowModel).resolveAbsolute
      = .ok (r.withInlets table pressureDrop flowModel) := by
  obtain ⟨ordered, hordered, h⟩ := resolveAbsolute_eq_ok.1 h
  refine resolveAbsolute_eq_ok.2
    ⟨ordered.withInlets table pressureDrop flowModel, order_withInlets table _ _ hordered, ?_⟩
  rw [segments_withInlets]
  cases hsegs : ordered.segments with
  | nil =>
    rw [hsegs] at h
    exact congrArg (withInlets table pressureDrop flowModel) h
  | cons t rest =>
    rw [hsegs] at h
    obtain ⟨settled, filled, hsettled, hfilled, rfl⟩ := h
    have hruns := @spreadRuns_withInlets s.well table [t] [] rest
    have hvolumes := @mapM_fillVolume_withInlets s.well table settled settled.tail
    rw [hsettled] at hruns
    rw [hfilled, List.map_tail] at hvolumes
    refine ⟨settled.map (Segment.withInlets table), filled.map (Segment.withInlets table), hruns,
      hvolumes, ?_⟩
    rw [← List.map_take, ← List.map_append]
    exact (withSegments_withInlets table pressureDrop flowModel ordered _).symm

/-- **Resolving does not look at inlets.** -/
theorem resolve_withInlets (h : s.resolve mode topDepth topLength = .ok r) :
    (s.withInlets table pressureDrop flowModel).resolve mode topDepth topLength
      = .ok (r.withInlets table pressureDrop flowModel) := by
  cases mode with
  | incremental => exact resolveIncremental_withInlets table pressureDrop flowModel h
  | absolute => exact resolveAbsolute_withInlets table pressureDrop flowModel h

end Resolving

section Checking

variable (hwell : r.well = s.well)
variable (hget : ∀ n, Segment.layout <$> r.get n = Segment.layout <$> s.get n)
include hget

/-- A change of depth depends on layouts alone. -/
theorem depthChange_congr (n : Int) : r.depthChange n = s.depthChange n := by
  have hlayouts : ∀ q : SegmentSet, q.depthChange n = (do
      let segment ← Segment.layout <$> q.get n
      if n = topNumber then .ok segment.2.depth
      else
        let outlet ← Segment.layout <$> q.get segment.1.2.2
        .ok (segment.2.depth - outlet.2.depth)) := by
    intro q
    simp only [depthChange, bind_map_left]
    rfl
  simp only [hlayouts, hget]

include hwell

/-- Length and change of depth are read off the layouts that are found. -/
theorem extent_congr (n : Int) : r.extent n = s.extent n := by
  unfold extent
  rw [segmentLength_eq_lengthFrom, segmentLength_eq_lengthFrom, hwell, funext hget,
    depthChange_congr hget]

/-- What the check finds depends on numbers and layouts alone. -/
theorem checkSegments_congr {xs ys : List Segment}
    (hnumbers : xs.map Segment.number = ys.map Segment.number) :
    r.checkSegments options xs = s.checkSegments options ys := by
  induction xs generalizing ys with
  | nil =>
    rw [List.map_nil, eq_comm, List.map_eq_nil_iff] at hnumbers
    rw [hnumbers]
    rfl
  | cons t xs ih =>
    cases ys with
    | nil => cases hnumbers
    | cons u ys =>
      obtain ⟨hn, hrest⟩ := List.cons.inj hnumbers
      rw [checkSegments, checkSegments, hn, extent_congr hwell hget, ih hrest]
      unfold steepFindings
      rw [hwell]

/-- **The check looks at layouts only.** -/
theorem check_congr (hnumbers : r.numbers = s.numbers) : r.check options = s.check options :=
  checkSegments_congr hwell hget hnumbers

end Checking

section Linking

variable (table : Int → List Int) (pressureDrop : PressureDrop) (flowModel : FlowModel)

/-- **The check does not look at inlets.** -/
theorem check_withInlets (s : SegmentSet) :
    (s.withInlets table pressureDrop flowModel).check options = s.check options := by
  refine check_congr rfl (fun n => ?_) (numbers_map (Segment.withInlets_link table) s.segments)
  rw [get_withInlets]
  cases s.get n <;> rfl

/-- The inlets of the stored segments as a table. -/
def inletTable (s : SegmentSet) (n : Int) : List Int := ((s.get? n).map Segment.inlets).getD []

/-- A segment has the inlets that stand in the table of its set. -/
theorem inletTable_number (hs : s.Indexed) {t : Segment} (ht : t ∈ s.segments) :
    s.inletTable t.number = t.inlets := by
  rw [inletTable, hs.get?_eq_some_iff.2 ⟨ht, rfl⟩]
  rfl

/-- Segments that differ in their inlets only are the others with the inlets of their own
set. -/
theorem segments_eq_withInlets (hr : r.Indexed) {segments : List Segment}
    (h : List.Forall₂ (fun t u => u = { t with inlets := u.inlets }) segments r.segments) :
    r.segments = segments.map (Segment.withInlets r.inletTable) := by
  have htable : ∀ u ∈ r.segments, r.inletTable u.number = u.inlets := fun u =>
    inletTable_number hr
  generalize r.inletTable = table at htable ⊢
  generalize r.segments = later at h htable
  induction h with
  | nil => rfl
  | @cons t u segments later hu _ ih =>
    obtain ⟨hfirst, hrest⟩ := List.forall_mem_cons.1 htable
    have hn : u.number = t.number := by rw [hu]
    have hsame : u = t.withInlets table := by
      rw [Segment.withInlets, ← congrArg table hn, hfirst]
      exact hu
    rw [List.map_cons, ← hsame, ih hrest]

/-- **A linked set is the unlinked one with the inlets of a table.** -/
theorem eq_withInlets_of_linkInlets (hs : s.Indexed) (h : s.linkInlets = .ok r) :
    r = s.withInlets r.inletTable s.pressureDrop s.flowModel := by
  have hsegments := segments_eq_withInlets (hs.linkInlets h) (forall₂_of_linkInlets h)
  obtain ⟨-, heq⟩ := linkInlets_eq_ok.1 h
  generalize r.inletTable = table at hsegments ⊢
  rw [heq] at hsegments ⊢
  unfold withInlets recast
  rw [← hsegments]

/-- Of two tables the later one counts. -/
theorem withInlets_withInlets (table' : Int → List Int) (pressureDrop' : PressureDrop)
    (flowModel' : FlowModel) (s : SegmentSet) :
    (s.withInlets table' pressureDrop' flowModel').withInlets table pressureDrop flowModel
      = s.withInlets table pressureDrop flowModel := by
  unfold withInlets recast
  simp only [List.map_map]
  rfl

/-- Inlets can be linked where every positive outlet is stored. -/
theorem exists_linkInlets_iff :
    (∃ q, s.linkInlets = .ok q) ↔
      ∀ t ∈ s.segments, 0 < t.outlet → s.contains t.outlet = true := by
  constructor
  · rintro ⟨q, hq⟩
    exact (linkInlets_eq_ok.1 hq).1
  · intro hall
    exact ⟨_, linkInlets_eq_ok.2 ⟨hall, rfl⟩⟩

/-- Whether inlets can be linked does not depend on those that are there. -/
theorem exists_linkInlets_withInlets_iff :
    (∃ q, (s.withInlets table pressureDrop flowModel).linkInlets = .ok q) ↔
      ∃ q, s.linkInlets = .ok q := by
  rw [exists_linkInlets_iff, exists_linkInlets_iff, segments_withInlets, List.forall_mem_map]
  rfl

/-- **Processing does not look at inlets.**  A set with other inlets and settings is
processed where the set is, and the results differ in their inlets and settings only. -/
theorem exists_process_withInlets (hs : s.Indexed)
    (h : (s.process mode topDepth topLength options).outcome = .ok r) :
    ∃ r', ((s.withInlets table pressureDrop flowModel).process mode topDepth topLength
        options).outcome = .ok r' ∧
      List.Forall₂ (fun u u' => u' = { u with inlets := u'.inlets }) r.segments r'.segments := by
  obtain ⟨built, hbuilt, hcheck, rfl⟩ := process_eq_ok.1 h
  obtain ⟨q, hq, hlink⟩ := build_eq_ok.1 hbuilt
  have hq' := resolve_withInlets table pressureDrop flowModel hq
  obtain ⟨built', hlink'⟩ :=
    (exists_linkInlets_withInlets_iff table pressureDrop flowModel).2 ⟨built, hlink⟩
  have hindexed := hs.resolve hq
  have hindexed' : (q.withInlets table pressureDrop flowModel).Indexed :=
    hindexed.congr rfl (numbers_map (Segment.withInlets_link table) q.segments)
  have heq := eq_withInlets_of_linkInlets hindexed hlink
  have heq' := eq_withInlets_of_linkInlets hindexed' hlink'
  refine ⟨{ built' with resolved := true },
    process_eq_ok.2 ⟨built', build_eq_ok.2 ⟨_, hq', hlink'⟩, ?_, rfl⟩, ?_⟩
  · rw [heq', check_withInlets, check_withInlets]
    rwa [heq, check_withInlets] at hcheck
  · show List.Forall₂ _ built.segments built'.segments
    rw [heq, heq']
    simp only [segments_withInlets, List.map_map, List.forall₂_map_left_iff,
      List.forall₂_map_right_iff, List.forall₂_same]
    exact fun t _ => rfl

end Linking

end SegmentSet
end MultiSegmentWell
