/-
# The nodes of a loaded tree, given back as absolute ones

Both modes describe the same trees. When the segments of a tree that was loaded with
incremental records are written down as absolute records, one for each and in storage
order, the records describe segments of the same layouts (`layouts_described_restated`).
These are in order and leave no runs, so building moves none of them and settles no node
anew (`layouts_of_buildAbsolute`), and the check, which looks at layouts only, finds the
lengths that it found before.
-/

import MultiSegmentWell.Proofs.Tree.Acceptance

namespace MultiSegmentWell

/-- The record gives a segment as it is: its place, its node, its diameter and its area. -/
structure RangeRecord.Restates (record : RangeRecord) (t : Segment) : Prop where
  first : record.first = t.number
  last : record.last = t.number
  branch : record.branch = t.branch
  join : record.join = t.outlet
  node : record.node = t.node
  diameter : record.diameter = t.pipe.diameter
  area : record.area = some t.pipe.area

/-- The record that gives a settled segment as it is. -/
def Segment.toRecord (t : Segment) : RangeRecord where
  first := t.number
  last := t.number
  branch := t.branch
  join := t.outlet
  node := t.node
  diameter := t.pipe.diameter
  roughness := t.pipe.roughness
  area := some t.pipe.area

/-- The record made of a segment restates it. -/
theorem Segment.toRecord_restates (t : Segment) : t.toRecord.Restates t :=
  ⟨rfl, rfl, rfl, rfl, rfl, rfl, rfl⟩

/-- The definition with records of absolute nodes in place of its own. -/
def TreeDefinition.restated (d : TreeDefinition) (records : List RangeRecord) : TreeDefinition :=
  ⟨{ d.header with mode := .absolute }, records⟩

namespace RangeRecord

variable {record : RangeRecord} {well : String} {mode : GeometryMode} {t : Segment}

/-- A record that can be expanded lies on a branch from 1 on. -/
theorem one_le_branch_of_check (h : record.check well mode = .ok ()) : 1 ≤ record.branch := by
  rw [check] at h
  split at h
  · cases h
  · split_ifs at h with hlow
    omega

namespace Restates

/-- A record that restates a segment covers its number and no other. -/
theorem numbers (h : record.Restates t) : record.numbers = [t.number] := by
  rw [RangeRecord.numbers, h.first, h.last, numbersBetween_self]

/-- What a record restates can be expanded again. -/
theorem check (h : record.Restates t) (hnumber : topNumber < t.number) (hbranch : 1 ≤ t.branch) :
    record.check well .absolute = .ok () := by
  have hfault : record.fault? .absolute = none := by
    rw [topNumber] at hnumber
    have hfirst := h.first
    have hlast := h.last
    rw [fault?, if_neg (by omega), if_neg (by omega), if_neg (by simp [hfirst, hlast])]
  have hvalid : ¬ record.branch < 1 := by
    rw [h.branch]
    omega
  rw [RangeRecord.check, hfault]
  exact if_neg hvalid

/-- The restated segment stands where the segment stood. -/
theorem layout (h : record.Restates t) : (record.segment mode t.number).layout = t.layout := by
  have houtlet : (record.segment mode t.number).outlet = t.outlet :=
    (if_pos h.first.symm).trans h.join
  rw [Segment.layout, Segment.layout, Segment.link, Segment.link, houtlet]
  simp only [segment, h.branch, h.node]

end Restates

/-- Records that restate segments give their numbers. -/
theorem flatMap_numbers_of_restates {segments : List Segment} {records : List RangeRecord}
    (h : List.Forall₂ (fun t record => record.Restates t) segments records) :
    records.flatMap RangeRecord.numbers = segments.map Segment.number := by
  induction h with
  | nil => rfl
  | cons hrestates _ ih =>
    rw [List.flatMap_cons, hrestates.numbers, ih, List.map_cons, List.singleton_append]

end RangeRecord

namespace SegmentSet

variable {s s' q r built : SegmentSet} {d : TreeDefinition} {records : List RangeRecord}
variable {options options' : Options} {topDepth topLength : Float} {t u : Segment}

section Building

/-- Linking keeps layouts. -/
theorem layouts_of_linkInlets (h : s.linkInlets = .ok r) :
    r.segments.map Segment.layout = s.segments.map Segment.layout := by
  obtain ⟨-, rfl⟩ := linkInlets_eq_ok.1 h
  rw [List.map_map]
  refine List.map_congr_left fun t _ => ?_
  rw [Function.comp_apply, Segment.foldl_addInlet_eq]
  rfl

/-- Where all segments behind the top one are ready, spreading keeps layouts. -/
theorem RunsSpread.layouts_eq {v w : List Segment} (h : RunsSpread v w) (hv : InOrder v)
    (hnd : (v.map Segment.number).Nodup)
    (hready : ∀ t ∈ v, t.number ≠ topNumber → t.ready = true) :
    w.map Segment.layout = v.map Segment.layout := by
  refine List.ext_getElem (by simp [h.length_eq]) fun k hw hv' => ?_
  rw [List.length_map] at hw hv'
  have hu : w[k]? = some w[k] := List.getElem?_eq_getElem hw
  have ht : v[k]? = some v[k] := List.getElem?_eq_getElem hv'
  rw [List.getElem_map, List.getElem_map]
  rcases h.cases_of_ready hv hnd hready ht hu with ⟨-, heq⟩ | ⟨-, heq, -⟩
  · rw [heq]
  · rw [heq]
    rfl

/-- **A set that is in order and leaves no runs is built as it stands**: its segments keep
their places and their nodes. -/
theorem layouts_of_buildAbsolute (hs : s.Indexed) (hv : InOrder s.segments)
    (hready : ∀ t ∈ s.segments, t.number ≠ topNumber → t.ready = true)
    (h : s.build .absolute topDepth topLength = .ok r) :
    r.segments.map Segment.layout = s.segments.map Segment.layout := by
  obtain ⟨q, hq, hlink⟩ := build_eq_ok.1 h
  have horder := order_of_inOrder hs hv
  obtain ⟨-, hspread⟩ := runsSpread_of_eq_ok hs horder hq
  exact (layouts_of_linkInlets hlink).trans (hspread.layouts_eq hv hs.nodup hready)

end Building

section Restating

variable (hmode : d.header.mode = .incremental) (h : (s.load d options).outcome = .ok r)
variable (hrecords : List.Forall₂ (fun t record => record.Restates t) r.segments.tail records)

include h

/-- A loaded segment behind the top one has a number and a branch that records may give. -/
theorem place_of_load (ht : t ∈ r.segments) (hn : t.number ≠ topNumber) :
    topNumber < t.number ∧ 1 ≤ t.branch := by
  obtain ⟨record, hrecord, hgiven⟩ := exists_givenBy_of_load h ht hn
  obtain ⟨hmem, hfirst, -⟩ := TreeDefinition.mem_and_covers_of_recordOf? hrecord
  have hcheck := (load_eq_ok.1 h).2.1 record hmem
  exact ⟨Int.lt_of_lt_of_le (RangeRecord.top_lt_first_of_check hcheck) hfirst,
    hgiven.branch ▸ RangeRecord.one_le_branch_of_check hcheck⟩

/-- Loaded segments are the top one, of the header's place, and those behind it. -/
theorem exists_segments_of_load : ∃ top, r.segments = top :: r.segments.tail ∧
    top.number = topNumber ∧ (∀ t ∈ r.segments.tail, t.number ≠ topNumber) ∧
      top.link = d.header.topSegment.link := by
  have hr := settled_of_load h
  have htop := hr.inOrder.top
  have hnd := hr.indexed.nodup
  obtain ⟨-, hdescribed⟩ := exists_described_of_load h
  rw [numbers] at hnd
  cases hsegs : r.segments with
  | nil =>
    rw [hsegs] at htop
    cases htop
  | cons top rest =>
    rw [hsegs] at htop hnd hdescribed
    have hn : top.number = topNumber := Option.some.inj htop
    refine ⟨top, rfl, hn, fun t ht htn => ?_, ?_⟩
    · exact (List.nodup_cons.1 hnd).1 (List.mem_map.2 ⟨t, ht, htn.trans hn.symm⟩)
    · obtain ⟨t, ht, heq, -⟩ := hdescribed top List.mem_cons_self
      have hlink : top.link = t.link := by
        rw [heq]
        rfl
      rcases cases_of_mem_described (load_eq_ok.1 h).2.1 ht with rfl | ⟨hne, -⟩
      · exact hlink
      · exact absurd ((congrArg Prod.fst hlink).symm.trans hn) hne

include hrecords

/-- What is restated can be expanded. -/
theorem check_of_restated : ∀ record ∈ (d.restated records).records,
    record.check (d.restated records).header.well (d.restated records).header.mode = .ok () := by
  obtain ⟨top, hsegs, -, htail, -⟩ := exists_segments_of_load h
  intro record hrecord
  obtain ⟨t, ht, hrestates⟩ := exists_of_forall₂ hrecords.flip hrecord
  obtain ⟨hnumber, hbranch⟩ := place_of_load h (List.mem_of_mem_tail ht) (htail t ht)
  exact hrestates.check hnumber hbranch

/-- The records give the numbers in storage order. -/
theorem numbers_described_restated : (described (d.restated records)).numbers = r.numbers := by
  obtain ⟨top, hsegs, hn, -, -⟩ := exists_segments_of_load h
  have hnd := (settled_of_load h).indexed.nodup
  have hnumbers : r.numbers = topNumber :: r.segments.tail.map Segment.number := by
    rw [numbers, hsegs, List.map_cons, hn]
    rfl
  rw [hnumbers] at hnd ⊢
  rw [numbers_described (check_of_restated h hrecords), TreeDefinition.numbers,
    TreeDefinition.restated, RangeRecord.flatMap_numbers_of_restates hrecords,
    eraseDups_eq_self (List.nodup_cons.1 hnd).2]

include hmode

/-- The segments that the records describe stand where the loaded ones stand. -/
theorem layout_of_mem_described_restated (hu : u ∈ (described (d.restated records)).segments)
    (ht : t ∈ r.segments) (hn : u.number = t.number) : u.layout = t.layout := by
  obtain ⟨top, hsegs, htopn, htail, hlink⟩ := exists_segments_of_load h
  have hnd := (settled_of_load h).indexed.nodup
  have hsame : ∀ v ∈ r.segments, v.number = t.number → v = t := fun v hv hvn =>
    List.inj_on_of_nodup_map hnd hv ht hvn
  have hmem : top ∈ r.segments := hsegs ▸ List.mem_cons_self
  have hcheck := check_of_restated h hrecords
  rcases cases_of_mem_described hcheck hu with rfl | ⟨-, record, hrecord, heq⟩
  · obtain rfl := hsame top hmem (htopn.trans hn)
    have hnode := (nodesOfRecords_of_load hmode h).top top hmem htopn
    rw [Segment.layout, Segment.layout, hnode, hlink]
    rfl
  · obtain ⟨hrecmem, hfirst, hlast⟩ := TreeDefinition.mem_and_covers_of_recordOf? hrecord
    obtain ⟨v, hv, hrestates⟩ := exists_of_forall₂ hrecords.flip hrecmem
    have hvn : v.number = u.number := by
      rw [hrestates.first] at hfirst
      rw [hrestates.last] at hlast
      omega
    obtain rfl := hsame v (List.mem_of_mem_tail hv) (hvn.trans hn)
    rw [heq, hn]
    exact hrestates.layout

/-- **The records describe the layouts that were loaded**, in storage order. -/
theorem layouts_described_restated :
    (described (d.restated records)).segments.map Segment.layout
      = r.segments.map Segment.layout := by
  have hnumbers := numbers_described_restated h hrecords
  have hlength : (described (d.restated records)).segments.length = r.segments.length := by
    simpa [numbers] using congrArg List.length hnumbers
  refine List.ext_getElem (by simpa using hlength) fun k hk hk' => ?_
  rw [List.length_map] at hk hk'
  rw [List.getElem_map, List.getElem_map]
  refine layout_of_mem_described_restated hmode h hrecords (List.getElem_mem hk)
    (List.getElem_mem hk') ?_
  have hget := congrArg (fun ns => ns[k]?) hnumbers
  simpa [numbers, hk, hk'] using hget

/-- What is restated can be linked and ordered as it is described. -/
theorem inOrder_described_restated : InOrder (described (d.restated records)).segments :=
  (settled_of_load h).inOrder.congr
    (links_eq_of_layouts (layouts_described_restated hmode h hrecords)).symm

/-- Restated segments can be linked, as their outlets are stored. -/
theorem exists_linkInlets_restated :
    ∃ linked, (described (d.restated records)).linkInlets = .ok linked := by
  have hs := indexed_described (d.restated records)
  rw [exists_linkInlets_iff]
  intro t ht hpos
  rcases cases_of_mem_described (check_of_restated h hrecords) ht with rfl | ⟨hne, -⟩
  · cases hpos
  · obtain ⟨outlet, houtlet, hon⟩ :=
      (inOrder_described_restated hmode h hrecords).outlet_mem ht hne
    exact hs.contains_iff.2 (hon ▸ List.mem_map_of_mem houtlet)

/-- **What is restated is built with the layouts that were loaded.** -/
theorem exists_builtOf_restated : ∃ built, BuiltOf (d.restated records) built ∧
    built.segments.map Segment.layout = r.segments.map Segment.layout := by
  have hcheck := check_of_restated h hrecords
  have hs := indexed_described (d.restated records)
  have hv := inOrder_described_restated hmode h hrecords
  obtain ⟨linked, hlink⟩ := exists_linkInlets_restated hmode h hrecords
  obtain ⟨built, hbuild⟩ := exists_build_of_order hcheck hlink (order_of_inOrder hs hv)
  have hlinked := layouts_of_linkInlets hlink
  have hbuilt := layouts_of_buildAbsolute (hs.linkInlets hlink)
    (hv.congr (links_eq_of_layouts hlinked).symm)
    (fun t ht hn => ready_of_mem_linked hcheck hlink rfl ht hn) hbuild
  exact ⟨built, ⟨linked, hlink, hbuild⟩,
    hbuilt.trans (hlinked.trans (layouts_described_restated hmode h hrecords))⟩

end Restating

/-- A set passes the check whatever options it is checked with. -/
theorem check_of_other_options (h : (s.check options).outcome = .ok ()) :
    (s.check options').outcome = .ok () :=
  checkSegments_eq_ok.2 (exists_extent_of_check h)

/-- **Both modes agree.**  When a tree that was loaded with incremental records is written
down as absolute records, one for each segment behind the top one and in storage order,
loading these under the same header succeeds and gives the same numbers in the same storage
order, with the same branches, outlets and nodes. -/
theorem load_of_restated (hmode : d.header.mode = .incremental)
    (h : (s.load d options).outcome = .ok r)
    (hrecords : List.Forall₂ (fun t record => record.Restates t) r.segments.tail records)
    (hnew : s'.resolved = false) (hempty : s'.isEmpty = true) :
    ∃ r', (s'.load (d.restated records) options').outcome = .ok r' ∧
      r'.segments.map (fun t => (t.number, t.branch, t.outlet, t.node))
        = r.segments.map fun t => (t.number, t.branch, t.outlet, t.node) := by
  obtain ⟨built, hbuiltOf, hlayouts⟩ := exists_builtOf_restated hmode h hrecords
  obtain ⟨original, horiginal, hpassed, rfl⟩ := exists_builtOf_of_load h
  have ⟨linked, hlink, hbuild⟩ := hbuiltOf
  have hwell : built.well = original.well := hbuiltOf.well_eq.trans horiginal.well_eq.symm
  have hcheck : (built.check options').outcome = .ok () := by
    have hget := get_layout_congr horiginal.indexed hbuiltOf.indexed hwell hlayouts
    have hnumbers := numbers_eq_of_links (links_eq_of_layouts hlayouts)
    rw [check_congr hwell hget hnumbers]
    exact check_of_other_options hpassed
  refine ⟨{ built with resolved := true }, ?_, ?_⟩
  · rw [outcome_load_of_linkInlets hnew hempty (check_of_restated h hrecords) hlink]
    exact process_eq_ok.2 ⟨built, hbuild, hcheck, rfl⟩
  · have hflat := congrArg (List.map fun l => (l.1.1, l.1.2.1, l.1.2.2, l.2)) hlayouts
    rw [List.map_map, List.map_map] at hflat
    exact hflat

/-- The well of two branches is loaded again from what it was loaded to. -/
theorem load_of_restated_scrambled :
    ∃ r r' records, (({} : SegmentSet).load scrambled {}).outcome = .ok r ∧
      List.Forall₂ (fun t record => record.Restates t) r.segments.tail records ∧
      (({} : SegmentSet).load (scrambled.restated records) {}).outcome = .ok r' ∧
        r'.segments.map (fun t => (t.number, t.branch, t.outlet, t.node))
          = r.segments.map fun t => (t.number, t.branch, t.outlet, t.node) := by
  obtain ⟨r, hr⟩ := exists_of_isOk
    (show (({} : SegmentSet).load scrambled {}).outcome.isOk = true by decide +kernel)
  have hrecords : List.Forall₂ (fun t record => record.Restates t) r.segments.tail
      (r.segments.tail.map Segment.toRecord) :=
    List.forall₂_map_right_iff.2 (List.forall₂_same.2 fun t _ => t.toRecord_restates)
  have hnew : ({} : SegmentSet).resolved = false := rfl
  obtain ⟨r', hr', hsame⟩ := load_of_restated rfl hr hrecords hnew rfl
  exact ⟨r, r', _, hr, hrecords, hr', hsame⟩

end SegmentSet
end MultiSegmentWell
