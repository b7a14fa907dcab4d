/-
# Loading is assembling and processing

SPEC_FULL.md, 4.6: `load_welsegs` by way of `add_segment` and `process`.

Loading links the segments that the records give before it orders them, and may give up
there already. Processing the same segments, put together one by one, links them at the
end. Both ways succeed together and agree on every segment, up to the order in which
inlets are listed (`exists_load_iff_exists_process`).

Linking early refuses nothing that the rest would accept: what can be processed has all
its outlets stored, so it can be linked at once (`exists_linkInlets_of_process`). And it
changes nothing, because neither resolving nor the check looks at inlets. The lists differ
in their order only: on both sides they are exact.
-/

import MultiSegmentWell.Proofs.Tree.Expansion
import MultiSegmentWell.Proofs.Tree.InletsAside
import MultiSegmentWell.Proofs.Tree.ResolvedMark

namespace MultiSegmentWell

/-- Segments that are the same but for the order of their inlets. -/
structure Segment.SameButInletOrder (u u' : Segment) : Prop where
  other : u' = { u with inlets := u'.inlets }
  inlets : u'.inlets.Perm u.inlets

namespace SegmentSet

open Segment (SameButInletOrder)

variable {s q r r' : SegmentSet} {d : TreeDefinition}
variable {mode : GeometryMode} {topDepth topLength : Float} {options : Options}

/-- The set that is put together from the top segment of a definition and the segments of
its records, one after the other, under settings of its own. -/
def assembled (pressureDrop : PressureDrop) (flowModel : FlowModel) (d : TreeDefinition) :
    SegmentSet :=
  addAll { well := d.header.well, pressureDrop, flowModel }
    (d.header.topSegment :: d.records.flatMap fun record => record.segments d.header.mode)

/-- **No number is ever taken out of a set.** -/
theorem numbers_subset_after (hs : s.Indexed) (op : Operation) :
    s.numbers ⊆ (s.after op).numbers := by
  obtain ⟨r, hr, hafter⟩ | ⟨-, hafter⟩ := s.after_cases op
  · rw [hafter]
    cases op with
    | add segments =>
      obtain rfl := Except.ok.inj hr
      rw [hs.numbers_addAll]
      intro n hn
      exact List.mem_eraseDups.2 (List.mem_append_left _ hn)
    | load d options =>
      have hempty : s.segments = [] := List.isEmpty_iff.1 (load_eq_ok.1 hr).1.2
      rw [numbers, hempty]
      exact List.nil_subset _
    | process mode topDepth topLength options =>
      exact (exists_processedFrom_of_process hs hr).1.symm.subset
    | order =>
      obtain ⟨_, -, hperm, -⟩ := exists_placement_of_order hs hr
      exact (hperm.map Segment.number).subset
    | attachDevices devices =>
      obtain ⟨-, -, hlayouts⟩ := hs.attachDevices hr
      rw [numbers, numbers, numbers_eq_of_links (links_eq_of_layouts hlayouts)]
      exact List.Subset.refl _
    | attachScaledDevices devices connections =>
      obtain ⟨-, -, hlayouts⟩ := hs.attachScaledDevices hr
      rw [numbers, numbers, numbers_eq_of_links (links_eq_of_layouts hlayouts)]
      exact List.Subset.refl _
    | assignPerfLengths connections =>
      obtain rfl := Except.ok.inj hr
      have hlayouts := layouts_assignPerfLengths s connections
      rw [numbers, numbers, numbers_eq_of_links (links_eq_of_layouts hlayouts)]
      exact List.Subset.refl _
  · rw [hafter]
    cases op with
    | order => exact (hs.perm_rearranged.map Segment.number).symm.subset
    | _ => exact fun n hn => hn

/-- A processed set holds the top segment. -/
theorem top_mem_of_process (hs : s.Indexed)
    (h : (s.process mode topDepth topLength options).outcome = .ok r) : topNumber ∈ r.numbers :=
  List.mem_of_getElem? (settled_of_process hs h).inOrder.top

/-- **A set that is marked resolved holds the top segment**, whatever has become of it
since. -/
theorem Reachable.top_mem_of_resolved (hs : Reachable s) (h : s.resolved = true) :
    topNumber ∈ s.numbers := by
  induction hs with
  | empty => cases h
  | @after s op hs ih =>
    rcases (resolved_after s op).1 h with hbefore | ⟨hop, r, hr⟩
    · exact numbers_subset_after hs.indexed op (ih hbefore)
    · have hafter : s.after op = r := by
        rw [SegmentSet.after, hr]
      rw [hafter]
      cases op with
      | load d options =>
        obtain ⟨_, hlinked, hprocess⟩ := exists_process_of_load hr
        exact top_mem_of_process hlinked hprocess
      | process mode topDepth topLength options => exact top_mem_of_process hs.indexed hr
      | add | order | attachDevices | attachScaledDevices | assignPerfLengths => exact hop.elim

/-- An empty set is not marked resolved. -/
theorem Reachable.resolved_of_isEmpty (hs : Reachable s) (h : s.isEmpty = true) :
    s.resolved = false := by
  rw [Bool.eq_false_iff]
  intro hresolved
  have htop := hs.top_mem_of_resolved hresolved
  rw [numbers, List.isEmpty_iff.1 h] at htop
  cases htop

/-- Resolving does not change whether inlets can be linked: numbers and outlets stay. -/
theorem exists_linkInlets_iff_of_resolve (hs : s.Indexed)
    (h : s.resolve mode topDepth topLength = .ok q) :
    (∃ r, q.linkInlets = .ok r) ↔ ∃ r, s.linkInlets = .ok r := by
  obtain ⟨hperm, hsettled⟩ := exists_settledFrom_of_resolve hs h
  have hq := hs.resolve h
  have hcontains : ∀ n, q.contains n = true ↔ s.contains n = true := by
    intro n
    rw [hq.contains_iff, hs.contains_iff, hperm.mem_iff]
  rw [exists_linkInlets_iff, exists_linkInlets_iff]
  constructor
  · intro hstored t ht hpos
    obtain ⟨u, hu, htu⟩ := hsettled t ht
    have houtlet : u.outlet = t.outlet := congrArg (fun l => l.2.2) htu.link_eq
    rw [← houtlet] at hpos ⊢
    exact (hcontains _).1 (hstored u hu hpos)
  · intro hstored u hu hpos
    obtain ⟨t, ht, hn⟩ := List.mem_map.1 (hperm.mem_iff.1 (List.mem_map_of_mem hu))
    obtain ⟨v, hv, htv⟩ := hsettled t ht
    obtain rfl : v = u := List.inj_on_of_nodup_map hq.nodup hv hu (htv.number_eq.trans hn)
    have houtlet : v.outlet = t.outlet := congrArg (fun l => l.2.2) htv.link_eq
    rw [houtlet] at hpos ⊢
    exact (hcontains _).2 (hstored t ht hpos)

/-- **What can be processed can be linked at once.** -/
theorem exists_linkInlets_of_process (hs : s.Indexed)
    (h : (s.process mode topDepth topLength options).outcome = .ok r) :
    ∃ q, s.linkInlets = .ok q := by
  obtain ⟨built, hbuilt, -, -⟩ := process_eq_ok.1 h
  obtain ⟨q, hq, hlink⟩ := build_eq_ok.1 hbuilt
  exact (exists_linkInlets_iff_of_resolve hs hq).1 ⟨built, hlink⟩

/-- Where all that is listed flows in, processing makes the lists exact. -/
theorem InletsFlowIn.inletsExact_of_process (h : InletsFlowIn s) (hs : s.Indexed)
    (hpos : ∀ t ∈ s.segments, 0 < t.number)
    (hr : (s.process mode topDepth topLength options).outcome = .ok r) :
    ∀ u ∈ r.segments, InletsExact r.segments u := by
  intro u hu
  obtain ⟨t, ht, htu⟩ := exists_source_of_process hs hr hu
  obtain ⟨hnodup, hflow⟩ := h.process hs hr u hu
  refine ⟨hnodup, fun n => ⟨hflow n, fun hn => ?_⟩⟩
  exact (htu.inlets.mem_iff (htu.number_eq ▸ hpos t ht)).2 (.inr hn)

/-- Two segments whose inlets are exact have the same inlets if the same segments flow into
them. -/
theorem InletsExact.sameButInletOrder {xs ys : List Segment} {u u' : Segment}
    (hu : InletsExact xs u) (hu' : InletsExact ys u') (heq : u' = { u with inlets := u'.inlets })
    (hkept : ∀ v ∈ xs, ∃ w ∈ ys, w.number = v.number ∧ w.outlet = v.outlet)
    (hback : ∀ w ∈ ys, ∃ v ∈ xs, v.number = w.number ∧ v.outlet = w.outlet) :
    SameButInletOrder u u' := by
  have hn : u'.number = u.number := by rw [heq]
  refine ⟨heq, (List.perm_ext_iff_of_nodup hu'.nodup hu.nodup).2 fun n => ?_⟩
  rw [hu'.mem_iff, hu.mem_iff]
  constructor
  · intro hflow
    exact hflow.of_kept hn.symm hback
  · intro hflow
    exact hflow.of_kept hn hkept

/-- Segments whose inlets are exact and that differ in their inlets only have the same
inlets, in some order. -/
theorem forall₂_sameButInletOrder {xs ys : List Segment}
    (hx : ∀ u ∈ xs, InletsExact xs u) (hy : ∀ u ∈ ys, InletsExact ys u)
    (h : List.Forall₂ (fun u u' => u' = { u with inlets := u'.inlets }) xs ys) :
    List.Forall₂ SameButInletOrder xs ys := by
  have hkept : ∀ v ∈ xs, ∃ w ∈ ys, w.number = v.number ∧ w.outlet = v.outlet := by
    intro v hv
    obtain ⟨w, hw, heq⟩ := exists_of_forall₂ h hv
    exact ⟨w, hw, by rw [heq], by rw [heq]⟩
  have hback : ∀ w ∈ ys, ∃ v ∈ xs, v.number = w.number ∧ v.outlet = w.outlet := by
    intro w hw
    obtain ⟨v, hv, heq⟩ := exists_of_forall₂ h.flip hw
    exact ⟨v, hv, by rw [heq], by rw [heq]⟩
  have hall := (List.forall₂_and_left xs ys).2 ⟨hx, h⟩
  refine ((List.forall₂_and_left ys xs).2 ⟨hy, hall.flip⟩).flip.imp ?_
  rintro u u' ⟨hu', hu, heq⟩
  exact hu.sameButInletOrder hu' heq hkept hback

/-- A definition gives segments without inlets. -/
theorem map_withInlets_of_definition (d : TreeDefinition) :
    (d.header.topSegment :: d.records.flatMap fun record => record.segments d.header.mode).map
        (Segment.withInlets fun _ => [])
      = d.header.topSegment :: d.records.flatMap fun record => record.segments d.header.mode := by
  refine (List.map_congr_left fun t ht => ?_).trans (List.map_id _)
  rcases List.mem_cons.1 ht with rfl | hrecord
  · rfl
  · obtain ⟨record, -, hsegment⟩ := List.mem_flatMap.1 hrecord
    obtain ⟨n, -, rfl⟩ := List.mem_map.1 hsegment
    rfl

variable {pressureDrop : PressureDrop} {flowModel : FlowModel}

/-- The assembled set is the described one under other settings. -/
theorem assembled_eq_withInlets (pressureDrop : PressureDrop) (flowModel : FlowModel)
    (d : TreeDefinition) :
    assembled pressureDrop flowModel d
      = (described d).withInlets (fun _ => []) pressureDrop flowModel := by
  have hadd := addAll_withInlets (fun _ => []) pressureDrop flowModel
    { well := d.header.well, pressureDrop := d.header.pressureDrop, flowModel := d.header.flowModel }
    (d.header.topSegment :: d.records.flatMap fun record => record.segments d.header.mode)
  rw [map_withInlets_of_definition] at hadd
  exact hadd

/-- An assembled set has an exact position map. -/
theorem indexed_assembled (pressureDrop : PressureDrop) (flowModel : FlowModel)
    (d : TreeDefinition) : (assembled pressureDrop flowModel d).Indexed :=
  (indexed_empty _ _ _).addAll _

/-- An assembled segment is a described one. -/
theorem mem_described_of_mem_assembled
    (hcheck : ∀ record ∈ d.records, record.check d.header.well d.header.mode = .ok ())
    {t : Segment} (ht : t ∈ (assembled pressureDrop flowModel d).segments) :
    t ∈ (described d).segments := by
  rw [assembled_eq_withInlets, segments_withInlets] at ht
  obtain ⟨u, hu, rfl⟩ := List.mem_map.1 ht
  have hbare : u.withInlets (fun _ => []) = u := by
    show { u with inlets := [] } = u
    rw [← inlets_of_mem_described hcheck hu]
  rwa [hbare]

/-- What is loaded can be assembled and processed as well. -/
theorem exists_process_assembled_of_load (h : (s.load d options).outcome = .ok r) :
    ∃ r', ((assembled pressureDrop flowModel d).process d.header.mode d.header.top.depth
        d.header.top.length options).outcome = .ok r' ∧
      List.Forall₂ (fun u u' => u' = { u with inlets := u'.inlets }) r.segments r'.segments := by
  obtain ⟨-, -, linked, hlink, hprocess⟩ := load_eq_ok.1 h
  have hs := indexed_described d
  have hbare := exists_process_withInlets (fun _ => []) pressureDrop flowModel
    (hs.linkInlets hlink) hprocess
  rwa [eq_withInlets_of_linkInlets hs hlink, withInlets_withInlets, ← assembled_eq_withInlets]
    at hbare

/-- What can be assembled and processed can be loaded in place of an empty set. -/
theorem exists_load_of_process_assembled (hnew : s.resolved = false) (hempty : s.isEmpty = true)
    (hcheck : ∀ record ∈ d.records, record.check d.header.well d.header.mode = .ok ())
    (h : ((assembled pressureDrop flowModel d).process d.header.mode d.header.top.depth
      d.header.top.length options).outcome = .ok r') :
    ∃ r, (s.load d options).outcome = .ok r := by
  have hs := indexed_described d
  have hassembled := indexed_assembled pressureDrop flowModel d
  have hlinkable := exists_linkInlets_of_process hassembled h
  rw [assembled_eq_withInlets, exists_linkInlets_withInlets_iff] at hlinkable
  obtain ⟨linked, hlink⟩ := hlinkable
  obtain ⟨r, hprocess, -⟩ := exists_process_withInlets linked.inletTable
    (described d).pressureDrop (described d).flowModel hassembled h
  rw [assembled_eq_withInlets, withInlets_withInlets, ← eq_withInlets_of_linkInlets hs hlink]
    at hprocess
  exact ⟨r, load_eq_ok.2 ⟨⟨hnew, hempty⟩, hcheck, linked, hlink, hprocess⟩⟩

/-- The inlets of loaded segments are exact. -/
theorem inletsExact_of_load (h : (s.load d options).outcome = .ok r) :
    ∀ u ∈ r.segments, InletsExact r.segments u := by
  obtain ⟨-, hcheck, linked, hlink, hprocess⟩ := load_eq_ok.1 h
  have hs := indexed_described d
  have hdescribed : InletsFlowIn (described d) := by
    intro t ht
    simp [inlets_of_mem_described hcheck ht]
  refine (hdescribed.linkInlets hs hlink).inletsExact_of_process (hs.linkInlets hlink) ?_ hprocess
  intro v hv
  obtain ⟨t, ht, heq⟩ := exists_of_forall₂ (forall₂_of_linkInlets hlink).flip hv
  have hn : v.number = t.number := by rw [heq]
  rw [hn]
  exact number_pos_of_mem_described hcheck ht

/-- The inlets of assembled segments are exact once they are processed. -/
theorem inletsExact_of_process_assembled
    (hcheck : ∀ record ∈ d.records, record.check d.header.well d.header.mode = .ok ())
    (h : ((assembled pressureDrop flowModel d).process mode topDepth topLength options).outcome
      = .ok r) : ∀ u ∈ r.segments, InletsExact r.segments u := by
  have hassembled : InletsFlowIn (assembled pressureDrop flowModel d) := by
    intro t ht
    simp [inlets_of_mem_described hcheck (mem_described_of_mem_assembled hcheck ht)]
  refine hassembled.inletsExact_of_process (indexed_assembled pressureDrop flowModel d) ?_ h
  intro t ht
  exact number_pos_of_mem_described hcheck (mem_described_of_mem_assembled hcheck ht)

/-- **The two ways to a tree agree.**  Where all records can be expanded, a definition is
loaded in place of an empty set if and only if its segments, put together one after the
other, can be processed. Both results then hold the same segments in the same storage
order, equal in all but the order of their inlets. -/
theorem exists_load_iff_exists_process (hs : Reachable s) (hempty : s.isEmpty = true)
    (hcheck : ∀ record ∈ d.records, record.check d.header.well d.header.mode = .ok ())
    (pressureDrop : PressureDrop) (flowModel : FlowModel) (options : Options) :
    ((∃ r, (s.load d options).outcome = .ok r) ↔
      ∃ r', ((assembled pressureDrop flowModel d).process d.header.mode d.header.top.depth
        d.header.top.length options).outcome = .ok r') ∧
      ∀ r r', (s.load d options).outcome = .ok r →
        ((assembled pressureDrop flowModel d).process d.header.mode d.header.top.depth
          d.header.top.length options).outcome = .ok r' →
          List.Forall₂ SameButInletOrder r.segments r'.segments := by
  refine ⟨⟨?_, ?_⟩, fun r r' hload hprocess => ?_⟩
  · rintro ⟨r, hload⟩
    obtain ⟨r', hprocess, -⟩ := exists_process_assembled_of_load hload
    exact ⟨r', hprocess⟩
  · rintro ⟨r', hprocess⟩
    exact exists_load_of_process_assembled (hs.resolved_of_isEmpty hempty) hempty hcheck hprocess
  · obtain ⟨r'', hprocess', hsame⟩ := exists_process_assembled_of_load hload
    obtain rfl := Except.ok.inj (hprocess'.symm.trans hprocess)
    exact forall₂_sameButInletOrder (inletsExact_of_load hload)
      (inletsExact_of_process_assembled hcheck hprocess) hsame

/-- The well of two branches is loaded, and it comes out the same when its segments are put together
under other settings and processed. -/
theorem exists_load_iff_exists_process_scrambled :
    Reachable {} ∧ ({} : SegmentSet).isEmpty = true ∧
      (∀ record ∈ scrambled.records,
        record.check scrambled.header.well scrambled.header.mode = .ok ()) ∧
      ∃ r r', (({} : SegmentSet).load scrambled {}).outcome = .ok r ∧
        ((assembled .hydrostatic .driftFlux scrambled).process .incremental 1000.0 10.0 {}).outcome
          = .ok r' ∧ List.Forall₂ SameButInletOrder r.segments r'.segments := by
  have hempty : Reachable {} := .empty "" .acceleration .homogeneous
  have hcheck : ∀ record ∈ scrambled.records,
      record.check scrambled.header.well scrambled.header.mode = .ok () := by decide +kernel
  obtain ⟨r, hr⟩ := exists_of_isOk
    (show (({} : SegmentSet).load scrambled {}).outcome.isOk = true by decide +kernel)
  obtain ⟨hiff, hsame⟩ := exists_load_iff_exists_process hempty rfl hcheck .hydrostatic .driftFlux {}
  obtain ⟨r', hr'⟩ := hiff.1 ⟨r, hr⟩
  exact ⟨hempty, rfl, hcheck, r, r', hr, hr', hsame r r' hr hr'⟩

end SegmentSet
end MultiSegmentWell
