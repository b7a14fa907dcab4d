/-
# Processing once is enough

SPEC_FULL.md, 4.6: `process` as a public entry point.

A processed set is left alone when it is processed again, and the second run reports what
the first one did; the same holds for ordering (`process_eq_and_order_eq`). Four steps find
nothing to do on the result. Its segments are in order, so ordering keeps them
(`Entered.order_eq`). All nodes but the top one are ready, so no change is added and no run
is spread. A volume is recomputed only where it is still not known, from the same area and
lengths as before (`VolumeFilled.fillVolume_eq`). And every segment that flows in is listed
already (`linkInlets_eq_self`).
-/

import MultiSegmentWell.Proofs.Tree.InletsAside
import MultiSegmentWell.Proofs.Tree.Positions

namespace MultiSegmentWell
namespace SegmentSet

variable {s q r : SegmentSet} {segments rest done : List Segment} {t u outlet : Segment}
variable {well : String} {volume : Float}
variable {mode : GeometryMode} {topDepth topLength : Float} {options : Options}

/-- **Ordering keeps a set that is in order**, positions included. -/
theorem Entered.order_eq (he : s.Entered) (hs : s.Indexed) (h : InOrder s.segments) :
    s.order = .ok s := by
  have hsame : s.withSegments s.segments = s := by
    unfold withSegments
    rw [← numbers, ← he]
  rw [order_of_inOrder hs h, hsame]

/-- A stored segment that is added once more changes nothing. -/
theorem Indexed.add_self (hs : s.Indexed) (ht : t ∈ s.segments) : s.add t = s := by
  obtain ⟨i, hi⟩ := List.getElem?_of_mem ht
  obtain ⟨hlt, rfl⟩ := List.getElem?_eq_some_iff.1 hi
  rw [hs.add_eq_set hi rfl]
  simp only [List.set_getElem_self]

section Settling

/-- Among ready segments there are no changes to add. -/
theorem settleAllChanges_of_ready (h : ∀ t ∈ rest, t.ready = true) :
    settleAllChanges well done rest = .ok (done ++ rest) := by
  induction rest generalizing done with
  | nil => rw [settleAllChanges, List.append_nil]
  | cons t rest ih =>
    obtain ⟨ht, hrest⟩ := List.forall_mem_cons.1 h
    have hkept : settleChanges well done t = .ok t := if_pos ht
    rw [settleAllChanges, hkept]
    show settleAllChanges well (done ++ [t]) rest = _
    rw [ih hrest, List.append_assoc, List.singleton_append]

/-- Among ready segments there are no runs to spread. -/
theorem spreadRuns_of_ready (h : ∀ t ∈ rest, t.ready = true) :
    spreadRuns well done [] rest = .ok (done ++ rest) := by
  induction rest generalizing done with
  | nil => rw [spreadRuns, List.append_nil]
  | cons t rest ih =>
    obtain ⟨ht, hrest⟩ := List.forall_mem_cons.1 h
    rw [spreadRuns, if_pos ht, ih hrest, List.append_assoc, List.singleton_append]

/-- The outlet that is stored is the one that is found. -/
theorem outletAmong_eq_ok (hnd : (segments.map Segment.number).Nodup) (hmem : outlet ∈ segments)
    (hn : outlet.number = t.outlet) : outletAmong well segments t = .ok outlet := by
  obtain ⟨found, hfound⟩ := exists_outletAmong well (List.mem_map.2 ⟨outlet, hmem, hn⟩)
  obtain ⟨hfmem, hfn⟩ := mem_of_outletAmong hfound
  rw [hfound, List.inj_on_of_nodup_map hnd hfmem hmem (hfn.trans hn.symm)]

/-- **A volume that was filled in is filled in to itself.**  If it is known it is kept, and
otherwise it is the product of the same numbers once more. -/
theorem VolumeFilled.fillVolume_eq (h : VolumeFilled segments u volume)
    (hnd : (segments.map Segment.number).Nodup) : fillVolume well segments u = .ok u := by
  by_cases hknown : Quantity.isKnown u.volume = true
  · exact if_pos hknown
  · have hunknown : ¬ volume > Quantity.unknown := by
      intro hv
      rw [h.known hv, Quantity.isKnown_iff] at hknown
      exact hknown hv
    obtain ⟨outlet, hmem, hn, hvolume⟩ := h.unknown hunknown
    rw [fillVolume, if_neg hknown, outletAmong_eq_ok hnd hmem hn]
    show Except.ok (u.withVolume (u.pipe.area * (u.node.length - outlet.node.length))) = _
    rw [← hvolume]
    rfl

/-- Volumes are filled in from nodes and pipes; inlets play no part. -/
theorem VolumeFilled.congr {xs ys : List Segment} (h : VolumeFilled xs t volume)
    (hxs : ∀ v ∈ xs, ∃ w ∈ ys, w.number = v.number ∧ w.node = v.node)
    (hu : u = { t with inlets := u.inlets }) : VolumeFilled ys u volume := by
  refine ⟨fun hknown => ?_, fun hunknown => ?_⟩
  · rw [hu]
    exact h.known hknown
  · obtain ⟨outlet, hmem, hn, hvolume⟩ := h.unknown hunknown
    obtain ⟨outlet', hmem', hn', hnode⟩ := hxs outlet hmem
    refine ⟨outlet', hmem', ?_, ?_⟩
    · rw [hn', hn, hu]
    · rw [hu, hnode]
      exact hvolume

/-- Linking keeps what was filled in. -/
theorem VolumeFilled.linkInlets (h : VolumeFilled s.segments t volume) (hlink : s.linkInlets = .ok r)
    (hu : u = { t with inlets := u.inlets }) : VolumeFilled r.segments u volume := by
  refine h.congr (fun v hv => ?_) hu
  obtain ⟨w, hw, heq⟩ := exists_of_forall₂ (forall₂_of_linkInlets hlink) hv
  exact ⟨w, hw, by rw [heq], by rw [heq]⟩

end Settling

/-- A segment of spread runs stands where one stood before. -/
theorem RunsSpread.exists_before {v w : List Segment} (h : RunsSpread v w) {k : Nat}
    (hu : w[k]? = some u) : ∃ t, v[k]? = some t := by
  obtain ⟨hlt, -⟩ := List.getElem?_eq_some_iff.1 hu
  exact ⟨_, List.getElem?_eq_getElem (h.length_eq ▸ hlt)⟩

/-- Behind the top segment spread runs are ready. -/
theorem RunsSpread.ready {v w : List Segment} (h : RunsSpread v w) {k : Nat} (hk : 1 ≤ k)
    (hu : w[k]? = some u) : u.ready = true := by
  obtain ⟨t, ht⟩ := h.exists_before hu
  cases hready : t.ready with
  | true => exact (h.kept k t u ht hu (.inr hready)).2.trans hready
  | false =>
    obtain ⟨b, e, hrun, hb, he⟩ := h.covered k t hk ht hready
    obtain ⟨anchor, last, hanchored⟩ := h.anchored b e hrun
    exact (h.node b e anchor last hanchored k u hb he hu).1

/-- Behind the top segment every volume of spread runs was filled in. -/
theorem RunsSpread.exists_volumeFilled {v w : List Segment} (h : RunsSpread v w) {k : Nat}
    (hk : 1 ≤ k) (hu : w[k]? = some u) : ∃ volume, VolumeFilled w u volume := by
  obtain ⟨t, ht⟩ := h.exists_before hu
  by_cases hcovered : ∃ b e, ClosedRun v b e ∧ b ≤ k ∧ k ≤ e
  · obtain ⟨b, e, hrun, hb, he⟩ := hcovered
    obtain ⟨anchor, last, hanchored⟩ := h.anchored b e hrun
    exact ⟨_, h.volume_run b e anchor last hanchored k _ u hb he ht hu⟩
  · refine ⟨_, h.volume_other k _ u hk (fun b e hrun hke => ?_) ht hu⟩
    exact hcovered ⟨b, e, hrun, hke⟩

section Steps

variable (he : s.Entered) (hs : s.Indexed) (hv : InOrder s.segments)
include he hs hv

/-- Changes are added to a set whose top segment is settled there already and whose other
segments are ready, and leave it as it is. -/
theorem resolveIncremental_eq_self (ht : t ∈ s.segments) (hn : t.number = topNumber)
    (htop : settledTop t topDepth topLength = t) (hready : ∀ u ∈ s.segments, u.ready = true) :
    s.resolveIncremental topDepth topLength = .ok s := by
  have horder : (s.add (settledTop t topDepth topLength)).order = .ok s := by
    rw [htop, hs.add_self ht]
    exact he.order_eq hs hv
  refine resolveIncremental_eq_ok.2
    ⟨t, s, get_eq_ok.2 (hs.get?_eq_some_iff.2 ⟨ht, hn⟩), horder, ?_⟩
  cases hsegs : s.segments with
  | nil => rfl
  | cons first rest =>
    rw [hsegs] at hready
    refine ⟨first :: rest, settleAllChanges_of_ready (List.forall_mem_cons.1 hready).2, ?_⟩
    rw [← hsegs]
    exact Except.ok.inj ((he.order_eq hs hv).symm.trans (order_of_inOrder hs hv))

/-- Spreading runs and filling volumes in leaves a set as it is whose segments behind the
top one are ready and have had their volumes filled in. -/
theorem resolveAbsolute_eq_self (hready : ∀ u ∈ s.segments.tail, u.ready = true)
    (hfilled : ∀ u ∈ s.segments.tail, ∃ volume, VolumeFilled s.segments u volume) :
    s.resolveAbsolute = .ok s := by
  refine resolveAbsolute_eq_ok.2 ⟨s, he.order_eq hs hv, ?_⟩
  have hnd := hs.nodup
  have hvolumes : s.segments.tail.mapM (fillVolume s.well s.segments) = .ok s.segments.tail := by
    refine mapM_eq_ok.2 (List.forall₂_same.2 fun u hu => ?_)
    obtain ⟨volume, hvolume⟩ := hfilled u hu
    exact hvolume.fillVolume_eq hnd
  have hsame := Except.ok.inj ((he.order_eq hs hv).symm.trans (order_of_inOrder hs hv))
  cases hsegs : s.segments with
  | nil => rfl
  | cons first rest =>
    rw [hsegs] at hready hvolumes hsame
    exact ⟨first :: rest, rest, spreadRuns_of_ready hready, hvolumes, hsame⟩

end Steps

/-- Entering numbers that are all there changes nothing. -/
theorem foldl_addInlet_of_subset {ns : List Int} (h : ∀ n ∈ ns, n ∈ t.inlets) :
    ns.foldl Segment.addInlet t = t := by
  induction ns with
  | nil => rfl
  | cons n ns ih =>
    obtain ⟨hn, hns⟩ := List.forall_mem_cons.1 h
    have hkept : t.addInlet n = t := if_pos (List.contains_iff_mem.2 hn)
    rw [List.foldl_cons, hkept, ih hns]

/-- **Linking finds nothing to enter** where everything that flows in is listed. -/
theorem linkInlets_eq_self (hstored : ∀ t ∈ s.segments, 0 < t.outlet → s.contains t.outlet = true)
    (hlisted : ∀ t ∈ s.segments, ∀ n ∈ inletNumbers s.segments t, n ∈ t.inlets) :
    s.linkInlets = .ok s := by
  refine linkInlets_eq_ok.2 ⟨hstored, ?_⟩
  have hsame : (s.segments.map fun t => (inletNumbers s.segments t).foldl Segment.addInlet t)
      = s.segments :=
    (List.map_congr_left fun t ht => foldl_addInlet_of_subset (hlisted t ht)).trans (List.map_id _)
  rw [hsame]

/-- What is linked lists everything that flows in. -/
theorem mem_inlets_of_linkInlets (hs : s.Indexed) (h : s.linkInlets = .ok r) :
    ∀ u ∈ r.segments, ∀ n ∈ inletNumbers r.segments u, n ∈ u.inlets := by
  intro u hu n hn
  obtain ⟨t, -, -, hinlets⟩ := exists_of_forall₂ (forall₂_inletsAppended_of_linkInlets hs h).flip hu
  rw [hinlets, List.mem_append, List.mem_filter, decide_eq_true_iff]
  by_cases hheld : n ∈ t.inlets
  · exact .inl hheld
  · exact .inr ⟨hn, hheld⟩

/-- What is linked has its positive outlets stored. -/
theorem contains_outlet_of_linkInlets (h : s.linkInlets = .ok r) :
    ∀ u ∈ r.segments, 0 < u.outlet → r.contains u.outlet = true := by
  obtain ⟨-, hindex⟩ := links_of_linkInlets h
  have hall := (linkInlets_eq_ok.1 h).1
  intro u hu hpos
  obtain ⟨t, ht, heq⟩ := exists_of_forall₂ (forall₂_of_linkInlets h).flip hu
  have houtlet : u.outlet = t.outlet := by rw [heq]
  rw [houtlet] at hpos ⊢
  rw [contains, hindex]
  exact hall t ht hpos

/-- Built segments other than the top one are ready, and with absolute nodes their volumes
are filled in. -/
theorem ready_and_volumeFilled_of_build (hs : s.Indexed)
    (h : s.build .absolute topDepth topLength = .ok r) :
    ∀ u ∈ r.segments.tail, u.ready = true ∧ ∃ volume, VolumeFilled r.segments u volume := by
  obtain ⟨q, hq, hlink⟩ := build_eq_ok.1 h
  obtain ⟨ordered, hordered, -⟩ := resolveAbsolute_eq_ok.1 hq
  obtain ⟨-, hspread⟩ := runsSpread_of_eq_ok hs hordered hq
  intro u hu
  obtain ⟨k, hk⟩ := List.getElem?_of_mem hu
  rw [List.getElem?_tail] at hk
  obtain ⟨t, ht, heq⟩ := exists_getElem?_of_forall₂ (forall₂_of_linkInlets hlink).flip hk
  have hready : u.ready = t.ready := by rw [heq]
  obtain ⟨volume, hvolume⟩ := hspread.exists_volumeFilled (Nat.le_add_left 1 k) ht
  exact ⟨hready.trans (hspread.ready (Nat.le_add_left 1 k) ht), volume,
    hvolume.linkInlets hlink heq⟩

/-- **A processed set is resolved to itself.** -/
theorem resolve_eq_self_of_process (hs : s.Indexed)
    (h : (s.process mode topDepth topLength options).outcome = .ok r) :
    r.resolve mode topDepth topLength = .ok r := by
  have he := Entered.process hs h
  have hr := settled_of_process hs h
  obtain ⟨built, hbuilt, -, rfl⟩ := process_eq_ok.1 h
  cases mode with
  | incremental =>
    have hadded := changesAdded_of_build hs hbuilt
    obtain ⟨t, -, hn, u, hu, heq⟩ := hadded.top
    refine resolveIncremental_eq_self he hr.indexed hr.inOrder hu ?_ ?_ hadded.ready
    · rw [heq]
      exact hn
    · rw [heq]
      rfl
  | absolute =>
    have hall := ready_and_volumeFilled_of_build hs hbuilt
    exact resolveAbsolute_eq_self he hr.indexed hr.inOrder (fun u hu => (hall u hu).1)
      fun u hu => (hall u hu).2

/-- A processed set is built to itself. -/
theorem build_eq_self_of_process (hs : s.Indexed)
    (h : (s.process mode topDepth topLength options).outcome = .ok r) :
    r.build mode topDepth topLength = .ok r := by
  refine build_eq_ok.2 ⟨r, resolve_eq_self_of_process hs h, ?_⟩
  obtain ⟨built, hbuilt, -, rfl⟩ := process_eq_ok.1 h
  obtain ⟨q, hq, hlink⟩ := build_eq_ok.1 hbuilt
  have hstored := contains_outlet_of_linkInlets hlink
  have hlisted := mem_inlets_of_linkInlets (hs.resolve hq) hlink
  exact linkInlets_eq_self hstored hlisted

/-- Processing goes on from the built set. -/
theorem process_of_build {built : SegmentSet} (h : s.build mode topDepth topLength = .ok built) :
    s.process mode topDepth topLength options = (do
      built.check options
      .tell (built.resolvedNote mode)
      pure { built with resolved := true }) := by
  unfold process
  rw [h]
  rfl

/-- **Processing and ordering are idempotent.**  Processing a processed set once more, with
the same arguments, succeeds, gives the set as it is, its storage order, inlets, volumes,
marks and positions included, and reports the same findings. Ordering an ordered set
succeeds and gives the set as it is. -/
theorem process_eq_and_order_eq (hs : Reachable s) :
    (∀ mode topDepth topLength options r,
      (s.process mode topDepth topLength options).outcome = .ok r →
        (r.process mode topDepth topLength options).outcome = .ok r ∧
          (r.process mode topDepth topLength options).findings
            = (s.process mode topDepth topLength options).findings) ∧
      ∀ r, s.order = .ok r → r.order = .ok r := by
  refine ⟨fun mode topDepth topLength options r h => ?_, fun r h => ?_⟩
  · have hagain := build_eq_self_of_process hs.indexed h
    have hsame : r.process mode topDepth topLength options
        = s.process mode topDepth topLength options := by
      obtain ⟨built, hbuilt, -, rfl⟩ := process_eq_ok.1 h
      have hcheck : check { built with resolved := true } options = built.check options :=
        check_congr rfl (fun _ => rfl) rfl
      rw [process_of_build hbuilt, process_of_build hagain, hcheck]
      rfl
    rw [hsame]
    exact ⟨h, rfl⟩
  · obtain ⟨_, -, -, heq⟩ := exists_placement_of_order hs.indexed h
    have he : r.Entered := heq ▸ entered_withSegments s r.segments
    exact he.order_eq (hs.indexed.order h) (inOrder_of_order hs.indexed h)

/-- The gaps are filled once: processed and ordered again, the set stays as it is. -/
theorem process_eq_and_order_eq_gapped :
    Reachable gapped ∧
      (∃ r, (gapped.process .absolute 0.0 0.0 {}).outcome = .ok r ∧
        (r.process .absolute 0.0 0.0 {}).outcome = .ok r ∧
          (r.process .absolute 0.0 0.0 {}).findings
            = (gapped.process .absolute 0.0 0.0 {}).findings) ∧
      ∃ r, gapped.order = .ok r ∧ r.order = .ok r := by
  have hreach : Reachable gapped := reachable_ofSegments ..
  obtain ⟨hprocess, horder⟩ := process_eq_and_order_eq hreach
  obtain ⟨r, hr⟩ := exists_of_isOk
    (show (gapped.process .absolute 0.0 0.0 {}).outcome.isOk = true by decide +kernel)
  obtain ⟨o, ho⟩ := exists_of_isOk (show gapped.order.isOk = true by decide +kernel)
  exact ⟨hreach, ⟨r, hr, hprocess .absolute 0.0 0.0 {} r hr⟩, o, ho, horder o ho⟩

end SegmentSet
end MultiSegmentWell
