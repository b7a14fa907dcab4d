/-
# What loading makes of the records

SPEC_FULL.md, 4.2: range records.

Records are expanded one after the other, and where ranges overlap the last record that
covers a number gives its segment (`Segment.GivenBy`). The stored numbers and their
outlets are settled then, and so are the inlets: linking enters them in the order in
which the numbers first came up, and processing finds nothing to append
(`exists_described_of_load`).

A record of absolute nodes gives a single segment, whose node processing keeps.
-/

import MultiSegmentWell.Proofs.Tree.Inlets
import MultiSegmentWell.Proofs.Tree.Positions

namespace MultiSegmentWell

/-- The numbers that records cover, in the order of first appearance. -/
def TreeDefinition.numbers (d : TreeDefinition) : List Int :=
  (d.records.flatMap RangeRecord.numbers).eraseDups

/-- A segment has its place and its pipe from a record and, where nodes are absolute, its
node as well. Its roughness is the diameter times the ratio of roughness and diameter or, if
that is smaller, the greatest admissible ratio. -/
structure Segment.GivenBy (record : RangeRecord) (mode : GeometryMode) (u : Segment) : Prop where
  branch : u.branch = record.branch
  outlet : u.outlet = if u.number = record.first then record.join else u.number - 1
  pipe : u.pipe = {
    diameter := record.diameter
    roughness := record.diameter *
      (if record.roughness / record.diameter < Quantity.maxRelativeRoughness then
        record.roughness / record.diameter
      else Quantity.maxRelativeRoughness)
    area := record.area.getD (RangeRecord.pi * record.diameter * record.diameter / 4.0) }
  node : mode = .absolute → u.node = record.node

namespace TreeDefinition

variable {d : TreeDefinition} {n : Int}

/-- The numbers of a definition are those that its ranges cover. -/
theorem mem_numbers :
    n ∈ d.numbers ↔ ∃ record ∈ d.records, record.first ≤ n ∧ n ≤ record.last := by
  rw [numbers, List.mem_eraseDups, List.mem_flatMap]
  exact exists_congr fun record => and_congr_right fun _ => mem_numbersBetween

/-- The record of a number is one of the definition that covers it. -/
theorem mem_and_covers_of_recordOf? {record : RangeRecord} (h : d.recordOf? n = some record) :
    record ∈ d.records ∧ record.first ≤ n ∧ n ≤ record.last := by
  rw [recordOf?] at h
  have hcovers := List.find?_some h
  rw [decide_eq_true_iff] at hcovers
  exact ⟨List.mem_reverse.1 (List.mem_of_find?_eq_some h), hcovers⟩

end TreeDefinition

/-- A record of absolute nodes that can be expanded gives a single segment, and its node
is settled. -/
theorem RangeRecord.ready_of_check {record : RangeRecord} {well : String} {n : Int}
    (h : record.check well .absolute = .ok ()) (hfirst : record.first ≤ n)
    (hlast : n ≤ record.last) : (record.segment .absolute n).ready = true := by
  rw [check] at h
  split at h
  · cases h
  · rename_i hnone
    rw [fault?] at hnone
    split_ifs at hnone with hlow hreversed hseveral
    have hsingle : record.first = record.last := by
      by_contra hne
      exact hseveral ⟨hne, rfl⟩
    have hn : n = record.last := by omega
    simp [segment, hn]

namespace SegmentSet

variable {s r : SegmentSet} {d : TreeDefinition} {options : Options} {u : Segment}

/-- Where everything that flows in is held, nothing is appended. -/
theorem InletsAppended.inlets_eq {segments : List Segment} {held : List Int}
    (h : InletsAppended segments held u) (hall : ∀ n, FlowsInto segments n u → n ∈ held) :
    u.inlets = held := by
  have hnone : (inletNumbers segments u).filter (· ∉ held) = [] := by
    rw [List.filter_eq_nil_iff]
    intro n hn
    simpa using hall n (flowsInto_of_mem_inletNumbers hn)
  rw [h, hnone, List.append_nil]

section Described

variable (hcheck : ∀ record ∈ d.records, record.check d.header.well d.header.mode = .ok ())
include hcheck

/-- The numbers of records that pass their checks lie behind that of the top segment. -/
theorem top_lt_of_mem_numbers {n : Int} (h : n ∈ d.numbers) : topNumber < n := by
  obtain ⟨record, hrecord, hfirst, -⟩ := TreeDefinition.mem_numbers.1 h
  exact Int.lt_of_lt_of_le (RangeRecord.top_lt_first_of_check (hcheck record hrecord)) hfirst

/-- **The numbers of a described set** are those that its records cover, in the order of
first appearance, behind the top one. -/
theorem numbers_described : (described d).numbers = topNumber :: d.numbers := by
  have htop : (ofHeader d.header).numbers = [topNumber] := rfl
  have hgiven : (d.records.flatMap fun record => record.segments d.header.mode).map Segment.number
      = d.records.flatMap RangeRecord.numbers := by
    rw [List.map_flatMap]
    refine List.flatMap_congr fun record _ => ?_
    rw [RangeRecord.segments, List.map_map]
    exact List.map_id _
  have hlater : ∀ n ∈ d.records.flatMap RangeRecord.numbers, (!n == topNumber) = true := by
    intro n hn
    have hlt : topNumber < n := top_lt_of_mem_numbers hcheck (List.mem_eraseDups.2 hn)
    have hne : n ≠ topNumber := by omega
    simpa using hne
  rw [described, (indexed_ofHeader d.header).numbers_addAll, htop, hgiven, List.singleton_append,
    List.eraseDups_cons, List.filter_eq_self.2 hlater, TreeDefinition.numbers]

/-- All numbers of a described set are positive. -/
theorem number_pos_of_mem_described {t : Segment} (ht : t ∈ (described d).segments) :
    0 < t.number := by
  have hmem : t.number ∈ (described d).numbers := List.mem_map_of_mem ht
  rw [numbers_described hcheck, List.mem_cons] at hmem
  rcases hmem with htop | hcovered
  · rw [htop, topNumber]
    omega
  · have hlt := top_lt_of_mem_numbers hcheck hcovered
    rw [topNumber] at hlt
    omega

/-- The top segment flows into no described segment. -/
theorem not_flowsInto_top {t : Segment} (ht : t ∈ (described d).segments) :
    ¬ FlowsInto (described d).segments topNumber t := by
  rintro ⟨v, hv, hn, houtlet⟩
  have hpos := number_pos_of_mem_described hcheck ht
  rcases cases_of_mem_described hcheck hv with rfl | ⟨hne, -⟩
  · rw [← houtlet] at hpos
    exact Int.lt_irrefl 0 hpos
  · exact hne hn

/-- The inlets of a described segment come in the order of first appearance. -/
theorem inletNumbers_described_sublist {t : Segment} (ht : t ∈ (described d).segments) :
    (inletNumbers (described d).segments t).Sublist d.numbers := by
  have hsublist : (inletNumbers (described d).segments t).Sublist (topNumber :: d.numbers) := by
    rw [← numbers_described hcheck]
    exact List.filter_sublist.map Segment.number
  rcases List.sublist_cons_iff.1 hsublist with h | ⟨rest, heq, -⟩
  · exact h
  · have htop : topNumber ∈ inletNumbers (described d).segments t := heq ▸ List.mem_cons_self
    exact absurd (flowsInto_of_mem_inletNumbers htop) (not_flowsInto_top hcheck ht)

end Described

/-- **A loaded segment is a described one** with its node settled and what flows into it
linked; processing has nothing to append to that. -/
theorem exists_described_of_load (h : (s.load d options).outcome = .ok r) :
    r.numbers.Perm (described d).numbers ∧ ∀ u ∈ r.segments, ∃ t ∈ (described d).segments,
      u = { t with
        node := u.node, volume := u.volume, ready := u.ready
        inlets := inletNumbers (described d).segments t } ∧
      (t.ready = true → t.number ≠ topNumber → u.node = t.node) := by
  obtain ⟨-, hcheck, linked, hlink, hprocess⟩ := load_eq_ok.1 h
  have hs := indexed_described d
  have hlinks := (links_of_linkInlets hlink).1
  have hlinked := forall₂_inletsAppended_of_linkInlets hs hlink
  have hindexed := hs.linkInlets hlink
  obtain ⟨hperm, -⟩ := exists_processedFrom_of_process hindexed hprocess
  refine ⟨?_, fun u hu => ?_⟩
  · rwa [numbers, numbers, numbers_eq_of_links hlinks] at hperm
  · obtain ⟨v, hv, hvu⟩ := exists_source_of_process hindexed hprocess hu
    obtain ⟨t, ht, hvt, hentered⟩ := exists_of_forall₂ hlinked.flip hv
    rw [inlets_of_mem_described hcheck ht] at hentered
    have hnumber : v.number = t.number := by rw [hvt]
    have hpos : 0 < v.number := hnumber ▸ number_pos_of_mem_described hcheck ht
    -- Linking has entered all that flows in, and outlets have not changed since.
    have hsame : u.inlets = v.inlets := hvu.inlets.inlets_eq fun n hn => by
      refine (hentered.mem_iff hpos).2 (.inr (hn.of_kept hvu.number_eq.symm fun w hw => ?_))
      obtain ⟨x, hx, hxw⟩ := exists_source_of_process hindexed hprocess hw
      exact ⟨x, hx, hxw.number_eq.symm, hxw.outlet_eq.symm⟩
    have hinlets : v.inlets = inletNumbers (described d).segments t := by
      rw [hentered, inletNumbers_congr hlinks hnumber]
      simp
    refine ⟨t, ht, ?_, fun hready hn => ?_⟩
    · rw [hvu.other, hsame, hinlets, hvt]
    · have hkept := hvu.kept
      rw [hvt] at hkept
      exact hkept hready hn

/-- A loaded segment is given by the last record that covers its number. -/
theorem exists_givenBy_of_load (h : (s.load d options).outcome = .ok r) (hu : u ∈ r.segments)
    (hn : u.number ≠ topNumber) :
    ∃ record, d.recordOf? u.number = some record ∧ u.GivenBy record d.header.mode := by
  have hcheck := (load_eq_ok.1 h).2.1
  obtain ⟨t, ht, heq, hkept⟩ := (exists_described_of_load h).2 u hu
  have htn : u.number = t.number := by rw [heq]
  rcases cases_of_mem_described hcheck ht with rfl | ⟨hne, record, hrecord, hsegment⟩
  · exact absurd htn hn
  · rw [← htn] at hrecord hsegment
    have hbranch : u.branch = t.branch := by rw [heq]
    have houtlet : u.outlet = t.outlet := by rw [heq]
    have hpipe : u.pipe = t.pipe := by rw [heq]
    refine ⟨record, hrecord, ?_, ?_, ?_, fun hmode => ?_⟩
    · rw [hbranch, hsegment]
      rfl
    · rw [houtlet, hsegment]
      rfl
    · rw [hpipe, hsegment]
      rfl
    · obtain ⟨hmem, hfirst, hlast⟩ := TreeDefinition.mem_and_covers_of_recordOf? hrecord
      have hready : t.ready = true := by
        rw [hsegment, hmode]
        exact RangeRecord.ready_of_check (hmode ▸ hcheck record hmem) hfirst hlast
      rw [hkept hready hne, hsegment]
      rfl

/-- Whatever flows into a described segment flows into the loaded one, and nothing else. -/
theorem flowsInto_iff_of_load (h : (s.load d options).outcome = .ok r) {t : Segment} {n : Int}
    (hn : u.number = t.number) :
    FlowsInto (described d).segments n t ↔ FlowsInto r.segments n u := by
  obtain ⟨hperm, hdescribed⟩ := exists_described_of_load h
  refine ⟨fun hflow => hflow.of_kept hn fun v hv => ?_,
    fun hflow => hflow.of_kept hn.symm fun v hv => ?_⟩
  · obtain ⟨w, hw, hwn⟩ := List.mem_map.1 (hperm.mem_iff.2 (List.mem_map_of_mem hv))
    obtain ⟨v', hv', heq, -⟩ := hdescribed w hw
    have hvn : v'.number = v.number := by rw [← hwn, heq]
    obtain rfl : v' = v := List.inj_on_of_nodup_map (indexed_described d).nodup hv' hv hvn
    exact ⟨w, hw, hwn, by rw [heq]⟩
  · obtain ⟨w, hw, heq, -⟩ := hdescribed v hv
    exact ⟨w, hw, by rw [heq], by rw [heq]⟩

/-- A set holds the top segment and those that the records expand to, the last record
counting for each number. -/
structure Expands (d : TreeDefinition) (r : SegmentSet) : Prop where
  nodup : r.numbers.Nodup
  /-- The numbers are that of the top segment and those of all ranges. -/
  mem_numbers : ∀ n, n ∈ r.numbers ↔
    n = topNumber ∨ ∃ record ∈ d.records, record.first ≤ n ∧ n ≤ record.last
  /-- The last record that covers a number gives its segment. -/
  given : ∀ u ∈ r.segments, u.number ≠ topNumber →
    ∃ record, d.recordOf? u.number = some record ∧ u.GivenBy record d.header.mode
  inlets : ∀ u ∈ r.segments, InletsExact r.segments u
  /-- Inlets stand in the order in which the records give their numbers first. -/
  inlets_sublist : ∀ u ∈ r.segments, u.inlets.Sublist d.numbers

/-- **Loading expands the records**, and where ranges overlap the last one counts. -/
theorem expands_of_load (h : (s.load d options).outcome = .ok r) : Expands d r := by
  have hcheck := (load_eq_ok.1 h).2.1
  have hs := indexed_described d
  obtain ⟨hperm, hdescribed⟩ := exists_described_of_load h
  refine ⟨hperm.nodup_iff.2 hs.nodup, fun n => ?_, fun u hu hn => exists_givenBy_of_load h hu hn,
    fun u hu => ?_, fun u hu => ?_⟩
  · rw [hperm.mem_iff, numbers_described hcheck, List.mem_cons, TreeDefinition.mem_numbers]
  · obtain ⟨t, ht, heq, -⟩ := hdescribed u hu
    have hinlets : u.inlets = inletNumbers (described d).segments t := by rw [heq]
    refine ⟨hinlets ▸ nodup_inletNumbers hs.nodup t, fun n => ?_⟩
    rw [hinlets, mem_inletNumbers_iff (number_pos_of_mem_described hcheck ht)]
    exact flowsInto_iff_of_load h (by rw [heq])
  · obtain ⟨t, ht, heq, -⟩ := hdescribed u hu
    have hinlets : u.inlets = inletNumbers (described d).segments t := by rw [heq]
    rw [hinlets]
    exact inletNumbers_described_sublist hcheck ht

/-- A main bore and a side branch that takes the middle segment out of it and is rougher than
a pipe can be. -/
def overlapping : TreeDefinition where
  header := { well := "W", top := ⟨100.0, 1000.0, 0.0, 0.0⟩, volume := 1.0, mode := .incremental }
  records := [
    { first := 2, last := 4, branch := 1, join := 1, node := ⟨10.0, 5.0, 0.0, 0.0⟩,
      diameter := 0.2, roughness := 1.0e-4 },
    { first := 3, last := 3, branch := 2, join := 1, node := ⟨20.0, 5.0, 0.0, 0.0⟩,
      diameter := 0.1, roughness := 1.0, area := some 0.01 }]

/-- Segment 3 is on the side branch, with an area of its own and its roughness limited to
3.69 times the diameter; segments 2 and 4 keep theirs. -/
theorem expands_of_load_overlapping :
    (({} : SegmentSet).load overlapping {}).outcome
        = .ok (SegmentSet.after {} (.load overlapping {})) ∧
      (SegmentSet.after {} (.load overlapping {})).segments.map
          (fun t => (t.number, t.branch, t.outlet, t.inlets, t.pipe))
        = [(1, 1, 0, [2, 3], Pipe.unknown),
          (2, 1, 1, [], ⟨0.2, 1.0e-4, 0.031415926535897934⟩),
          (3, 2, 1, [4], ⟨0.1, 0.36909245123963313, 0.01⟩),
          (4, 1, 3, [], ⟨0.2, 1.0e-4, 0.031415926535897934⟩)] ∧
      Expands overlapping (SegmentSet.after {} (.load overlapping {})) := by
  have hload : (({} : SegmentSet).load overlapping {}).outcome
      = .ok (SegmentSet.after {} (.load overlapping {})) := by decide +kernel
  exact ⟨hload, by decide +kernel, expands_of_load hload⟩

end SegmentSet
end MultiSegmentWell
