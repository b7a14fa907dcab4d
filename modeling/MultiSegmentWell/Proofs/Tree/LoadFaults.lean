/-
# Why a definition cannot be loaded

An empty set that cannot be loaded names the well and one of five causes (`LoadFault`): a
record with a malformed range or an illegal branch, segments whose outlets lead nowhere,
two segments that both continue a branch, or a segment without a positive length. The
records and the numbers that are named are ones of the definition.

Nothing else can go wrong. Absolute records that can be expanded give segments that are
ready, so no range is left open, and the top segment is there before the first record
(`loadFault_of_load`).
-/

import MultiSegmentWell.Proofs.Tree.Lengths

namespace MultiSegmentWell
namespace SegmentSet

variable {s : SegmentSet} {d : TreeDefinition} {options : Options} {e : SegmentError}

/-- Why a definition cannot be loaded into an empty set. -/
inductive LoadFault (d : TreeDefinition) : SegmentError → Prop where
  | range {record : RangeRecord} {fault : RangeFault} (mem : record ∈ d.records)
    (malformed : record.fault? d.header.mode = some fault) :
    LoadFault d (.malformedRange d.header.well record.first record.last fault)
  | branch {record : RangeRecord} (mem : record ∈ d.records) (low : record.branch < 1) :
    LoadFault d (.invalidBranch d.header.well record.branch record.first record.last)
  | outlets {numbers : List Int} (described : ∀ n ∈ numbers, n ∈ (described d).numbers) :
    LoadFault d (.unresolvableTopology d.header.well numbers)
  | ambiguous {branch first second : Int} (first_mem : first ∈ (described d).numbers)
    (second_mem : second ∈ (described d).numbers) :
    LoadFault d (.ambiguousOutlet d.header.well branch first second)
  | length {number : Int} {length : Float} (mem : number ∈ (described d).numbers) :
    LoadFault d (.nonPositiveLength d.header.well number length)

/-- A record that cannot be expanded is refused as it stands. -/
theorem loadFault_of_check {record : RangeRecord} (hmem : record ∈ d.records)
    (h : record.check d.header.well d.header.mode = .error e) : LoadFault d e := by
  rw [RangeRecord.check] at h
  split at h
  · rename_i fault hfault
    obtain rfl := Except.error.inj h
    exact .range hmem hfault
  · split_ifs at h with hbranch
    obtain rfl := Except.error.inj h
    exact .branch hmem hbranch

/-- Adding records fails at one that cannot be expanded. -/
theorem exists_check_of_addRecords {mode : GeometryMode} {records : List RangeRecord}
    (h : (s.addRecords mode records).outcome = .error e) :
    ∃ record ∈ records, record.check s.well mode = .error e := by
  induction records generalizing s with
  | nil => cases h
  | cons record records ih =>
    rw [addRecords] at h
    obtain hexpand | ⟨segments, -, h⟩ := Reported.bind_eq_error.1 h
    · refine ⟨record, List.mem_cons_self, ?_⟩
      rw [RangeRecord.expand] at hexpand
      split at hexpand
      · rename_i fault hfault
        rw [hfault, Except.error.inj hexpand]
      · cases hexpand
    · obtain ⟨q, hq, hcheck⟩ := ih h
      rw [addAll_well] at hcheck
      exact ⟨q, List.mem_cons_of_mem record hq, hcheck⟩

/-- Linking fails at a segment whose outlet is not stored. -/
theorem exists_of_linkInlets_eq_error (h : s.linkInlets = .error e) :
    ∃ t ∈ s.segments, e = .unresolvableTopology s.well [t.number] := by
  unfold linkInlets at h
  split at h
  · rename_i t ht
    exact ⟨t, List.mem_of_find?_eq_some ht, (Except.error.inj h).symm⟩
  · cases h

/-- **Ordering fails** where two segments continue a branch or outlets lead nowhere. -/
theorem order_error_cases (hs : s.Indexed) (htop : topNumber ∈ s.numbers)
    (h : s.order = .error e) :
    (∃ branch first second, e = .ambiguousOutlet s.well branch first second ∧
      first ∈ s.numbers ∧ second ∈ s.numbers) ∨
    ∃ numbers, e = .unresolvableTopology s.well numbers ∧ ∀ n ∈ numbers, n ∈ s.numbers := by
  obtain ⟨last, -, hperm, hends⟩ := exists_placement_arrange hs htop
  have hfault : s.arrange.fault = some e := by
    rw [order] at h
    split at h
    · rename_i fault hfault
      rw [hfault, Except.error.inj h]
    · cases h
  have hpending : ∀ t ∈ s.arrange.pending, t.number ∈ s.numbers := fun t ht =>
    List.mem_map_of_mem (hperm.mem_iff.2 (List.mem_append_right _ ht))
  generalize s.arrange = a at hends hfault hpending
  cases hends with
  | complete => cases hfault
  | ambiguous hcontinued =>
    obtain ⟨_, _, -, hfirst, hsecond, -⟩ := hcontinued
    exact .inl ⟨_, _, _, (Option.some.inj hfault).symm, hpending _ (List.mem_of_getElem? hfirst),
      hpending _ (List.mem_of_getElem? hsecond)⟩
  | stuck =>
    refine .inr ⟨_, (Option.some.inj hfault).symm, fun n hn => ?_⟩
    obtain ⟨t, ht, rfl⟩ := List.mem_map.1 hn
    exact hpending t ht

/-- What cannot be linked has an outlet that leads nowhere. -/
theorem loadFault_of_linkInlets (h : (described d).linkInlets = .error e) : LoadFault d e := by
  obtain ⟨t, ht, rfl⟩ := exists_of_linkInlets_eq_error h
  rw [described_well]
  refine .outlets fun n hn => ?_
  rw [List.mem_singleton.1 hn]
  exact List.mem_map_of_mem ht

/-- What cannot be ordered has outlets that lead nowhere or two segments that continue a branch. -/
theorem loadFault_of_order (htop : topNumber ∈ (described d).numbers)
    (h : (described d).order = .error e) : LoadFault d e := by
  have hcases := order_error_cases (indexed_described d) htop h
  rw [described_well] at hcases
  obtain ⟨_, _, _, rfl, hfirst, hsecond⟩ | ⟨_, rfl, hall⟩ := hcases
  · exact .ambiguous hfirst hsecond
  · exact .outlets hall

/-- What does not pass the check has a segment without a positive length. -/
theorem loadFault_of_lengths {built : SegmentSet} (hbuilt : BuiltOf d built)
    (h : (built.check options).outcome = .error e) : LoadFault d e := by
  obtain ⟨hpassed, -⟩ | ⟨t, ht, -, -, _, -, -, hfailed⟩ :=
    check_cases hbuilt.indexed hbuilt.inOrder options
  · rw [h] at hpassed
    cases hpassed
  · obtain rfl := Except.error.inj (h.symm.trans hfailed)
    rw [hbuilt.well_eq]
    exact .length (hbuilt.numbers.mem_iff.1 (List.mem_map_of_mem ht))

/-- **What keeps a definition from being loaded** is in it: its records, their outlets, their
branches or their lengths. -/
theorem loadFault_of_load (h : (({} : SegmentSet).load d options).outcome = .error e) :
    LoadFault d e := by
  obtain hadd | ⟨full, hadd, h⟩ := Reported.bind_eq_error.1 h
  · obtain ⟨record, hmem, hcheck⟩ := exists_check_of_addRecords hadd
    exact loadFault_of_check hmem (ofHeader_well d.header ▸ hcheck)
  obtain ⟨hcheck, rfl⟩ := addRecords_ofHeader_eq_ok.1 hadd
  obtain hlink | ⟨linked, hlink, h⟩ := Reported.bind_eq_error.1 h
  · exact loadFault_of_linkInlets hlink
  cases horder : (described d).order with
  | error fault =>
    have htop : topNumber ∈ (described d).numbers := by
      rw [numbers_described hcheck]
      exact List.mem_cons_self
    have hload : (({} : SegmentSet).load d options).outcome = .error fault :=
      load_eq_error_of_order hcheck rfl rfl hlink horder
    rw [outcome_load_of_linkInlets rfl rfl hcheck hlink] at hload
    obtain rfl := Except.error.inj (h.symm.trans hload)
    exact loadFault_of_order htop horder
  | ok ordered =>
    obtain ⟨built, hbuild⟩ := exists_build_of_order hcheck hlink horder
    rw [process_of_build hbuild] at h
    obtain hlengths | ⟨_, -, h⟩ := Reported.bind_eq_error.1 h
    · exact loadFault_of_lengths ⟨linked, hlink, hbuild⟩ hlengths
    · cases h

end SegmentSet
end MultiSegmentWell
