/-
# Absolute nodes are spread along runs

SPEC_FULL.md, 4.4 and 8, P6: absolute interpolation.

Resolving absolute nodes spreads every closed run of the ordered segments, fills unknown
volumes in and leaves the rest alone (`RunsSpread`). It fails only at a run that goes on
to the last segment (`AbsoluteEnds`, `absoluteEnds_resolveAbsolute`): outlets are found
because the segments are in order.
-/

import MultiSegmentWell.Proofs.Order.Verdict
import MultiSegmentWell.Proofs.Tree.Runs

namespace MultiSegmentWell

/-- A segment whose node lies at the given length and depth. -/
def Segment.measured (number branch outlet : Int) (length depth : Float) : Segment :=
  { Segment.ofLink number branch outlet with
    node := ⟨length, depth, 0.0, 0.0⟩
    pipe := { Pipe.unknown with area := 0.5 }
    ready := true }

namespace SegmentSet

variable {v w rest settled : List Segment} {k : Nat}

/-- Settled segments with their volumes filled in: `w` holds what became of those of `v`. -/
structure RunsSettled (v w : List Segment) : Prop where
  length_eq : w.length = v.length
  top : w[0]? = v[0]?
  settled : ∀ (k : Nat) (t u : Segment), 1 ≤ k → v[k]? = some t → w[k]? = some u →
    ∃ u₀, SettledAt v w k t u₀ ∧ u = u₀.withVolume u.volume ∧ VolumeFilled w u u₀.volume

/-- Spreading and filling volumes in settles every position. -/
theorem Spreads.runsSettled {top : Segment} (h : Spreads [top] rest settled)
    (hw : VolumesFilled settled w) (hlength : w.length = (top :: rest).length) :
    RunsSettled (top :: rest) w := by
  refine ⟨hlength, ?_, fun k t u hk ht hu => ?_⟩
  · obtain ⟨later, rfl⟩ := h.exists_append
    rw [hw.top]
    rfl
  · have hstart : StartsRun (top :: rest) 1 := ⟨Nat.le_refl 1, .inl rfl⟩
    obtain ⟨u₀, hu₀, hsettled⟩ := h.exists_settledAt rfl hstart hk ht
    obtain ⟨u', hu', heq⟩ := exists_getElem?_of_forall₂ hw.other hu₀
    obtain rfl : u' = u := Option.some.inj (hu'.symm.trans hu)
    exact ⟨u₀, hsettled.of_volumesFilled hw, heq, hw.filled k u₀ _ hk hu₀ hu⟩

/-- Segments with absolute nodes: `w` holds what became of those of `v`. -/
structure RunsSpread (v w : List Segment) : Prop where
  length_eq : w.length = v.length
  /-- Only the node, the volume and the mark of a segment change. -/
  other : ∀ (k : Nat) (t u : Segment), v[k]? = some t → w[k]? = some u →
    u = { t with node := u.node, volume := u.volume, ready := u.ready }
  /-- The top segment and the ready ones keep their nodes. -/
  kept : ∀ (k : Nat) (t u : Segment), v[k]? = some t → w[k]? = some u →
    k = 0 ∨ t.ready = true → u.node = t.node ∧ u.ready = t.ready
  /-- All others are in closed runs. -/
  covered : ∀ (k : Nat) (t : Segment), 1 ≤ k → v[k]? = some t → t.ready = false →
    ∃ b e, ClosedRun v b e ∧ b ≤ k ∧ k < e
  anchored : ∀ b e, ClosedRun v b e → ∃ anchor last, AnchoredRun v w b e anchor last
  /-- A run is spread evenly from its anchor to the segment that closes it. -/
  node : ∀ b e anchor last, AnchoredRun v w b e anchor last →
    ∀ (k : Nat) (u : Segment), b ≤ k → k < e → w[k]? = some u → u.ready = true ∧
      u.node = {
        length := anchor.node.length + Nat.toFloat (k - b + 1) *
          ((last.node.length - anchor.node.length) / Nat.toFloat (e - b + 1))
        depth := anchor.node.depth + Nat.toFloat (k - b + 1) *
          ((last.node.depth - anchor.node.depth) / Nat.toFloat (e - b + 1))
        x := anchor.node.x + Nat.toFloat (k - b + 1) *
          ((last.node.x - anchor.node.x) / Nat.toFloat (e - b + 1))
        y := anchor.node.y + Nat.toFloat (k - b + 1) *
          ((last.node.y - anchor.node.y) / Nat.toFloat (e - b + 1)) }
  /-- The segments of a run share a volume, as far as they have none. -/
  volume_run : ∀ b e anchor last, AnchoredRun v w b e anchor last →
    ∀ (k : Nat) (t u : Segment), b ≤ k → k ≤ e → v[k]? = some t → w[k]? = some u →
      VolumeFilled w u (if t.volume < 0.5 * Quantity.unknown then
        last.pipe.area *
          ((last.node.length - anchor.node.length) / Nat.toFloat (e - b + 1))
        else t.volume)
  volume_other : ∀ (k : Nat) (t u : Segment), 1 ≤ k →
    (∀ b e, ClosedRun v b e → ¬ (b ≤ k ∧ k ≤ e)) → v[k]? = some t → w[k]? = some u →
      VolumeFilled w u t.volume
  volume_top : ∀ t u : Segment, v[0]? = some t → w[0]? = some u → u.volume = t.volume

namespace RunsSettled

/-- The top segment is kept as it was. -/
theorem eq_top (h : RunsSettled v w) {t u : Segment} (ht : v[0]? = some t) (hu : w[0]? = some u) :
    u = t := by
  rw [h.top, ht] at hu
  exact (Option.some.inj hu).symm

/-- No position is lost. -/
theorem exists_getElem? (h : RunsSettled v w) {t : Segment} (ht : v[k]? = some t) :
    ∃ u, w[k]? = some u := by
  obtain ⟨hk, -⟩ := List.getElem?_eq_some_iff.1 ht
  exact ⟨_, List.getElem?_eq_getElem (h.length_eq ▸ hk)⟩

/-- **Every run is spread.** -/
theorem runsSpread (h : RunsSettled v w) (hnd : (w.map Segment.number).Nodup) : RunsSpread v w where
  length_eq := h.length_eq
  other k t u ht hu := by
    rcases Nat.eq_zero_or_pos k with rfl | hk
    · rw [h.eq_top ht hu]
    · obtain ⟨u₀, hsettled, heq, -⟩ := h.settled k t u hk ht hu
      rw [heq]
      cases hsettled <;> rfl
  kept k t u ht hu hkept := by
    rcases Nat.eq_zero_or_pos k with rfl | hk
    · rw [h.eq_top ht hu]
      exact ⟨rfl, rfl⟩
    · have hready := hkept.resolve_left (by omega)
      obtain ⟨u₀, hsettled, heq, -⟩ := h.settled k t u hk ht hu
      rw [heq]
      cases hsettled with
      | kept => exact ⟨rfl, rfl⟩
      | @spread b e _ _ run covers =>
        -- A ready segment in a run is the one that closes it.
        have hke : ¬ k < e := fun hlt => run.not_ready covers.1 hlt (by rw [ht]; simp [hready])
        have hplace : ¬ k - b < e - b := by omega
        simp [spreadAt, Segment.withVolume, hplace, hready]
  covered k t hk ht hready := by
    obtain ⟨u, hu⟩ := h.exists_getElem? ht
    obtain ⟨u₀, hsettled, -⟩ := h.settled k t u hk ht hu
    cases hsettled with
    | kept hkept => exact absurd (hready.symm.trans hkept) Bool.false_ne_true
    | @spread b e _ _ run covers =>
      refine ⟨b, e, run.toClosedRun, covers.1, Nat.lt_of_le_of_ne covers.2 ?_⟩
      rintro rfl
      have hclosed := run.closed
      rw [ht] at hclosed
      simp [hready] at hclosed
  anchored b e hrun := by
    have hfirst := hrun.unready b (Nat.le_refl b) hrun.lt
    obtain ⟨t, ht, -⟩ := Option.map_eq_some_iff.1 hfirst
    obtain ⟨u, hu⟩ := h.exists_getElem? ht
    obtain ⟨u₀, hsettled, -⟩ := h.settled b t u hrun.start.1 ht hu
    have hb : b ≤ b ∧ b ≤ e := ⟨Nat.le_refl b, Nat.le_of_lt hrun.lt⟩
    cases hsettled with
    | kept _ outside => exact absurd hb (outside b e hrun)
    | spread run covers =>
      obtain ⟨rfl, rfl⟩ := hrun.unique run.toClosedRun hb covers
      exact ⟨_, _, run⟩
  node b e anchor last hrun k u hb he hu := by
    have hpos := hrun.start.1
    obtain ⟨t, ht, -⟩ := Option.map_eq_some_iff.1 (hrun.unready k hb he)
    obtain ⟨u₀, hsettled, heq, -⟩ := h.settled k t u (by omega) ht hu
    have hplace : k - b < e - b := by omega
    rw [hsettled.eq_spreadAt hnd hrun ⟨hb, Nat.le_of_lt he⟩] at heq
    rw [heq]
    exact ⟨rfl, if_pos hplace⟩
  volume_run b e anchor last hrun k t u hb he ht hu := by
    have hpos := hrun.start.1
    obtain ⟨u₀, hsettled, -, hfilled⟩ := h.settled k t u (by omega) ht hu
    rw [hsettled.eq_spreadAt hnd hrun ⟨hb, he⟩] at hfilled
    exact hfilled
  volume_other k t u hk houtside ht hu := by
    obtain ⟨u₀, hsettled, -, hfilled⟩ := h.settled k t u hk ht hu
    cases hsettled with
    | kept => exact hfilled
    | spread run covers => exact absurd covers (houtside _ _ run.toClosedRun)
  volume_top t u ht hu := by rw [h.eq_top ht hu]

end RunsSettled

/-- Where all runs are spread, the last segment is ready. -/
theorem RunsSpread.getLast?_ne (h : RunsSpread v w) (hlength : 2 ≤ v.length) :
    v.getLast?.map Segment.ready ≠ some false := by
  intro hlast
  rw [List.getLast?_eq_getElem?] at hlast
  obtain ⟨t, ht, hready⟩ := Option.map_eq_some_iff.1 hlast
  obtain ⟨b, e, hrun, -, hke⟩ := h.covered (v.length - 1) t (by omega) ht hready
  have hclosed := hrun.closed
  rw [List.getElem?_eq_none (by omega)] at hclosed
  cases hclosed

/-- What spreading stops at is a run that goes on to the last segment. -/
theorem unreadyRun_of_split (top : Segment) {before after : List Segment} {first : Segment}
    (hunready : ∀ t ∈ first :: after, t.ready = false)
    (hready : ∀ t, before.getLast? = some t → t.ready = true) :
    UnreadyRun (top :: (before ++ first :: after)) (before.length + 1)
        (top :: (before ++ first :: after)).length ∧
      (top :: (before ++ first :: after))[before.length + 1]? = some first := by
  refine ⟨⟨by simp, ⟨by omega, ?_⟩, fun k hb he => ?_⟩, by simp⟩
  · cases hlast : before.getLast? with
    | none =>
      rw [List.getLast?_eq_none_iff] at hlast
      subst hlast
      exact .inl rfl
    | some t =>
      obtain ⟨between, rfl⟩ := List.getLast?_eq_some_iff.1 hlast
      exact .inr (by simp [hready t hlast])
  · obtain ⟨i, rfl⟩ := Nat.exists_eq_add_of_le hb
    have hi : i < (first :: after).length := by
      simp only [List.length_cons, List.length_append] at he ⊢
      omega
    have hget : (top :: (before ++ first :: after))[before.length + 1 + i]?
        = (first :: after)[i]? := by
      rw [Nat.add_right_comm, List.getElem?_cons_succ, List.getElem?_append_right (by omega),
        Nat.add_sub_cancel_left]
    rw [hget, List.getElem?_eq_getElem hi]
    exact congrArg some (hunready _ (List.getElem_mem hi))

variable {s ordered : SegmentSet}

/-- How resolving absolute nodes ends on an ordered set: with all runs spread, or at a
run that is not closed. -/
inductive AbsoluteEnds (well : String) (ordered : SegmentSet) :
    Except SegmentError SegmentSet → Prop where
  | spread {w : List Segment} (spread : RunsSpread ordered.segments w) :
    AbsoluteEnds well ordered (.ok { ordered with segments := w })
  | unclosed {b : Nat} {first : Segment}
    (run : UnreadyRun ordered.segments b ordered.segments.length)
    (starts : ordered.segments[b]? = some first) :
    AbsoluteEnds well ordered (.error (.incompleteRange well first.number))

/-- Where spreading fails, resolving does. -/
theorem resolveAbsolute_eq_error (h : s.order = .ok ordered) {top : Segment}
    (hsegs : ordered.segments = top :: rest) {e : SegmentError}
    (he : spreadRuns s.well [top] [] rest = .error e) : s.resolveAbsolute = .error e := by
  simp only [resolveAbsolute, h, hsegs, he, bind, Except.bind]

/-- Segments with the links of ordered ones are stored at the same positions. -/
theorem withSegments_of_order (hs : s.Indexed) (h : s.order = .ok ordered)
    (hlinks : w.map Segment.link = ordered.segments.map Segment.link) :
    ordered.withSegments w = { ordered with segments := w } := by
  obtain ⟨_, -, -, heq⟩ := exists_placement_of_order hs h
  have hindex : ordered.index = .ofNumbers (ordered.segments.map Segment.number) :=
    congrArg SegmentSet.index heq
  rw [withSegments, numbers_eq_of_links hlinks, ← hindex]

/-- In order, every segment behind the top one has its outlet stored. -/
theorem InOrder.outletPlaced_of_mem_tail (h : InOrder v) {t : Segment} (ht : t ∈ v.tail) :
    OutletPlaced v t := by
  obtain ⟨i, hi⟩ := List.getElem?_of_mem ht
  rw [← List.drop_one, List.getElem?_drop] at hi
  have hplaced := h.outlet (1 + i) t hi (by omega)
  exact List.map_subset _ (List.take_subset _ _) hplaced

/-- Behind runs that are spread, all volumes can be filled in. -/
theorem exists_runsSpread {well : String} {top : Segment} (hv : InOrder (top :: rest))
    (hnd : ((top :: rest).map Segment.number).Nodup)
    (hsettled : spreadRuns well [top] [] rest = .ok settled) (hspreads : Spreads [top] rest settled) :
    ∃ filled, settled.tail.mapM (fillVolume well settled) = .ok filled ∧
      RunsSpread (top :: rest) (settled.take 1 ++ filled) := by
  have hlinks : settled.map Segment.link = (top :: rest).map Segment.link := by
    simpa using links_of_spreadRuns hsettled
  have horder : InOrder settled := hv.congr hlinks.symm
  obtain ⟨filled, hfilled⟩ := exists_mapM_eq_ok (f := fillVolume well settled) fun t ht =>
    exists_fillVolume well (horder.outletPlaced_of_mem_tail ht)
  have hlinks' := links_of_filled hsettled hfilled
  have hlength : (settled.take 1 ++ filled).length = (top :: rest).length := by
    simpa using congrArg List.length hlinks'
  rw [← numbers_eq_of_links hlinks'] at hnd
  exact ⟨filled, hfilled,
    (hspreads.runsSettled (volumesFilled_of_mapM hfilled) hlength).runsSpread hnd⟩

/-- **Resolving absolute nodes ends in one of the two ways.** -/
theorem absoluteEnds_resolveAbsolute (hs : s.Indexed) (h : s.order = .ok ordered) :
    AbsoluteEnds s.well ordered s.resolveAbsolute := by
  have hv := inOrder_of_order hs h
  have hnd := (hs.order h).nodup
  rw [numbers] at hnd
  cases hsegs : ordered.segments with
  | nil =>
    have htop := hv.top
    rw [hsegs] at htop
    cases htop
  | cons top rest =>
    rw [hsegs] at hv hnd
    have hends : SpreadEnds s.well [top] rest (spreadRuns s.well [top] [] rest) :=
      @spreadEnds_spreadRuns _ _ [] _ hv (by simp) (by simp)
    generalize hx : spreadRuns s.well [top] [] rest = x at hends
    cases hends with
    | @spread settled hspreads =>
      obtain ⟨filled, hfilled, hspread⟩ := exists_runsSpread hv hnd hx hspreads
      have hlinks : (settled.take 1 ++ filled).map Segment.link
          = ordered.segments.map Segment.link := by
        rw [hsegs]
        exact links_of_filled hx hfilled
      have hok : s.resolveAbsolute = .ok (ordered.withSegments (settled.take 1 ++ filled)) := by
        refine resolveAbsolute_eq_ok.2 ⟨ordered, h, ?_⟩
        rw [hsegs]
        exact ⟨settled, filled, hx, hfilled, rfl⟩
      rw [hok, withSegments_of_order hs h hlinks]
      exact .spread (hsegs ▸ hspread)
    | @unclosed before after first hsplit hunready hready =>
      obtain ⟨hrun, hfirst⟩ := unreadyRun_of_split top hunready hready
      rw [← hsplit, ← hsegs] at hrun hfirst
      rw [resolveAbsolute_eq_error h hsegs hx]
      exact .unclosed hrun hfirst

/-- **A run that goes on to the last segment is refused**, with the number of its first segment. -/
theorem resolveAbsolute_of_unreadyRun (hs : s.Indexed) (h : s.order = .ok ordered) {b : Nat}
    {first : Segment} (hrun : UnreadyRun ordered.segments b ordered.segments.length)
    (hfirst : ordered.segments[b]? = some first) :
    s.resolveAbsolute = .error (.incompleteRange s.well first.number) := by
  have hends := absoluteEnds_resolveAbsolute hs h
  generalize s.resolveAbsolute = x at hends
  cases hends with
  | spread hspread =>
    have hpos := hrun.start.1
    have hlt := hrun.lt
    exact absurd hrun.getLast? (hspread.getLast?_ne (by omega))
  | @unclosed b' first' hrun' hfirst' =>
    have hle := hrun.start_le hrun'.start (Nat.le_of_lt hrun'.lt)
    have hge := hrun'.start_le hrun.start (Nat.le_of_lt hrun.lt)
    obtain rfl : b' = b := Nat.le_antisymm hle hge
    obtain rfl := Option.some.inj (hfirst'.symm.trans hfirst)
    rfl

/-- Where resolving succeeds, all runs of the ordered segments are spread. -/
theorem runsSpread_of_eq_ok (hs : s.Indexed) (h : s.order = .ok ordered) {r : SegmentSet}
    (hr : s.resolveAbsolute = .ok r) :
    r = { ordered with segments := r.segments } ∧ RunsSpread ordered.segments r.segments := by
  have hends := absoluteEnds_resolveAbsolute hs h
  rw [hr] at hends
  cases hends with
  | spread hspread => exact ⟨rfl, hspread⟩

/-- **Absolute resolution is exact.**  On a set that can be ordered it fails exactly if a
segment other than the top one is stored last and is not ready, and then names the
first segment of the run that this one ends. Otherwise every run is spread evenly between
its outlet and the segment that closes it, unknown volumes are filled in, and nothing
else of the ordered set changes. -/
theorem runsSpread_of_resolveAbsolute (hs : Reachable s) (h : s.order = .ok ordered) :
    ((∃ e, s.resolveAbsolute = .error e) ↔
      2 ≤ ordered.segments.length ∧ ordered.segments.getLast?.map Segment.ready = some false) ∧
    (∀ e, s.resolveAbsolute = .error e → ∃ b first,
      UnreadyRun ordered.segments b ordered.segments.length ∧
        ordered.segments[b]? = some first ∧ e = .incompleteRange s.well first.number) ∧
    ∀ r, s.resolveAbsolute = .ok r →
      r = { ordered with segments := r.segments } ∧ RunsSpread ordered.segments r.segments := by
  have hends := absoluteEnds_resolveAbsolute hs.indexed h
  generalize s.resolveAbsolute = x at hends
  cases hends with
  | spread hspread =>
    refine ⟨iff_of_false (by simp) fun hlast => hspread.getLast?_ne hlast.1 hlast.2, by simp, ?_⟩
    rintro _ ⟨⟩
    exact ⟨rfl, hspread⟩
  | unclosed hrun hfirst =>
    have hpos := hrun.start.1
    have hlt := hrun.lt
    refine ⟨iff_of_true ⟨_, rfl⟩ ⟨by omega, hrun.getLast?⟩, ?_, by simp⟩
    rintro _ ⟨⟩
    exact ⟨_, _, hrun, hfirst, rfl⟩

/-- A main bore with a gap of two segments and a side branch that starts with a gap
at the end of the first one, stored from the far end. -/
def gapped : SegmentSet :=
  ofSegments "W" .friction
    [.measured 6 2 5 150.0 1030.0, .ofLink 5 2 3, .measured 4 1 3 130.0 1015.0, .ofLink 3 1 2,
      .ofLink 2 1 1, .measured 1 1 0 100.0 1000.0]

/-- The nodes and volumes that come out: three steps of 10 along the main bore and two of 15
along the side branch, whose anchor is spread itself. The segments of a run share the area of
the one that closes it times the step. -/
theorem runsSpread_of_resolveAbsolute_gapped :
    Reachable gapped ∧ ∃ ordered r, gapped.order = .ok ordered ∧
      ordered.numbers = [1, 2, 3, 4, 5, 6] ∧ gapped.resolveAbsolute = .ok r ∧
        r.segments.map (fun t => (t.node, t.volume)) =
          [(⟨100.0, 1000.0, 0.0, 0.0⟩, Quantity.unknown), (⟨110.0, 1005.0, 0.0, 0.0⟩, 5.0),
            (⟨120.0, 1010.0, 0.0, 0.0⟩, 5.0), (⟨130.0, 1015.0, 0.0, 0.0⟩, 5.0),
            (⟨135.0, 1020.0, 0.0, 0.0⟩, 7.5), (⟨150.0, 1030.0, 0.0, 0.0⟩, 7.5)] ∧
        RunsSpread ordered.segments r.segments := by
  have hreach : Reachable gapped := reachable_ofSegments ..
  have h : gapped.order = .ok gapped.rearranged := by decide +kernel
  obtain ⟨-, -, hspread⟩ := runsSpread_of_resolveAbsolute hreach h
  have hnumbers : gapped.rearranged.numbers = [1, 2, 3, 4, 5, 6] := by decide +kernel
  refine ⟨hreach, gapped.rearranged, exists_and_left.2 ⟨h, exists_and_left.2 ⟨hnumbers, ?_⟩⟩⟩
  refine exists_ok_and ?_ fun r hr => (hspread r hr).2
  decide +kernel

end SegmentSet
end MultiSegmentWell
