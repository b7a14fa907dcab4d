/-
# What the records build up

A definition describes the set that holds its top segment and, for every number that
its records cover, the segment that the last of these gives (`get?_described`). Loading
checks each record, links this set and processes it (`load_eq_ok`).
-/

import MultiSegmentWell.Proofs.Tree.Equipment

namespace MultiSegmentWell

/-- The last record that covers a number. -/
def TreeDefinition.recordOf? (d : TreeDefinition) (n : Int) : Option RangeRecord :=
  d.records.reverse.find? fun record => decide (record.first ≤ n ∧ n ≤ record.last)

namespace RangeRecord

variable {record : RangeRecord} {mode : GeometryMode}

/-- A record gives one segment for each number that it covers. -/
theorem find?_reverse_segments (record : RangeRecord) (mode : GeometryMode) (n : Int) :
    ((record.segments mode).reverse.find? fun a => a.number == n) =
      if record.first ≤ n ∧ n ≤ record.last then some (record.segment mode n) else none := by
  have hcovers : n ∈ record.numbers ↔ record.first ≤ n ∧ n ≤ record.last := mem_numbersBetween
  cases hfound : (record.segments mode).reverse.find? fun a => a.number == n with
  | none =>
    rw [List.find?_eq_none] at hfound
    rw [if_neg fun hn => ?_]
    have hmem : record.segment mode n ∈ (record.segments mode).reverse :=
      List.mem_reverse.2 (List.mem_map_of_mem (hcovers.2 hn))
    exact hfound _ hmem (beq_self_eq_true n)
  | some a =>
    have hnumber := List.find?_some hfound
    obtain ⟨m, hm, rfl⟩ := List.mem_map.1 (List.mem_reverse.1 (List.mem_of_find?_eq_some hfound))
    obtain rfl : m = n := beq_iff_eq.1 hnumber
    rw [if_pos (hcovers.1 hm)]

/-- Of several records that cover a number the last one gives its segment. -/
theorem find?_reverse_flatMap_segments (records : List RangeRecord) (mode : GeometryMode) (n : Int) :
    ((records.flatMap fun record => record.segments mode).reverse.find? fun a => a.number == n) =
      (records.reverse.find? fun record => decide (record.first ≤ n ∧ n ≤ record.last)).map
        fun record => record.segment mode n := by
  induction records with
  | nil => rfl
  | cons record records ih =>
    rw [List.flatMap_cons, List.reverse_append, List.find?_append, ih, find?_reverse_segments,
      List.reverse_cons, List.find?_append, List.find?_singleton, Option.map_or]
    congr 1
    by_cases hn : record.first ≤ n ∧ n ≤ record.last <;> simp [hn]

/-- A record that passes its checks is expanded to its segments. -/
theorem expand_eq_ok {well : String} {segments : List Segment} :
    (record.expand well mode).outcome = .ok segments ↔
      record.check well mode = .ok () ∧ segments = record.segments mode := by
  rw [expand]
  cases hcheck : record.check well mode with
  | error e => exact iff_of_false (fun h => by cases h) fun h => by cases h.1
  | ok u => exact ⟨fun h => ⟨rfl, (Except.ok.inj h).symm⟩, fun h => congrArg Except.ok h.2.symm⟩

/-- A record that can be expanded does not cover the top segment. -/
theorem top_lt_first_of_check {well : String} (h : record.check well mode = .ok ()) :
    topNumber < record.first := by
  rw [check] at h
  split at h
  · cases h
  · rename_i hnone
    by_contra hle
    have hlow : record.first < 2 := by
      simp only [topNumber] at hle
      omega
    rw [fault?, if_pos hlow] at hnone
    cases hnone

end RangeRecord

namespace SegmentSet

variable {s r : SegmentSet} {d : TreeDefinition} {options : Options}

/-- The set that a definition describes, before anything is linked or settled. -/
def described (d : TreeDefinition) : SegmentSet :=
  (ofHeader d.header).addAll (d.records.flatMap fun record => record.segments d.header.mode)

/-- Segments can be added in two portions. -/
theorem addAll_append (s : SegmentSet) (before after : List Segment) :
    s.addAll (before ++ after) = (s.addAll before).addAll after :=
  List.foldl_append ..

/-- Records are added when each of them can be expanded. -/
theorem addRecords_eq_ok {mode : GeometryMode} {records : List RangeRecord} :
    (s.addRecords mode records).outcome = .ok r ↔
      (∀ record ∈ records, record.check s.well mode = .ok ()) ∧
        r = s.addAll (records.flatMap fun record => record.segments mode) := by
  induction records generalizing s with
  | nil => simp [addRecords, addAll, eq_comm]
  | cons record records ih =>
    rw [addRecords, Reported.bind_eq_ok, List.forall_mem_cons, List.flatMap_cons]
    simp only [RangeRecord.expand_eq_ok, ih, addAll_well, addAll_append]
    constructor
    · rintro ⟨segments, ⟨hcheck, rfl⟩, hall, rfl⟩
      exact ⟨⟨hcheck, hall⟩, rfl⟩
    · rintro ⟨⟨hcheck, hall⟩, rfl⟩
      exact ⟨_, ⟨hcheck, rfl⟩, hall, rfl⟩

/-- The set that a header gives has the name in it. -/
@[simp] theorem ofHeader_well (h : Header) : (ofHeader h).well = h.well :=
  add_well _ _

/-- The records of a definition add up to what it describes. -/
theorem addRecords_ofHeader_eq_ok :
    ((ofHeader d.header).addRecords d.header.mode d.records).outcome = .ok r ↔
      (∀ record ∈ d.records, record.check d.header.well d.header.mode = .ok ()) ∧
        r = described d := by
  rw [addRecords_eq_ok, ofHeader_well]
  rfl

/-- **A loaded set** is the described one, linked and processed; it takes the place of
an empty one. -/
theorem load_eq_ok :
    (s.load d options).outcome = .ok r ↔
      (s.resolved = false ∧ s.isEmpty = true) ∧
        (∀ record ∈ d.records, record.check d.header.well d.header.mode = .ok ()) ∧
        ∃ linked, (described d).linkInlets = .ok linked ∧
          (linked.process d.header.mode d.header.top.depth d.header.top.length options).outcome
            = .ok r := by
  unfold load
  split_ifs with hold
  · refine iff_of_false (fun h => by cases h) fun h => ?_
    simp [h.1] at hold
  · have hnew : s.resolved = false ∧ s.isEmpty = true := by simpa using hold
    rw [and_iff_right hnew, ofDefinition, Reported.bind_eq_ok]
    simp only [Reported.bind_eq_ok, addRecords_ofHeader_eq_ok]
    constructor
    · rintro ⟨_, ⟨hcheck, rfl⟩, linked, hlinked, hprocess⟩
      exact ⟨hcheck, linked, hlinked, hprocess⟩
    · rintro ⟨hcheck, linked, hlinked, hprocess⟩
      exact ⟨_, ⟨hcheck, rfl⟩, linked, hlinked, hprocess⟩

/-- The described set has an exact position map. -/
theorem indexed_described (d : TreeDefinition) : (described d).Indexed :=
  (indexed_ofHeader d.header).addAll _

/-- **What a definition describes.**  Under a number that its records cover stands the
segment that the last of them gives, and under the number of the top segment the one
of the header. -/
theorem get?_described (d : TreeDefinition) (n : Int) :
    (described d).get? n =
      ((d.recordOf? n).map fun record => record.segment d.header.mode n).or
        (if n = topNumber then some d.header.topSegment else none) := by
  rw [described, (indexed_ofHeader d.header).get?_addAll,
    RangeRecord.find?_reverse_flatMap_segments, ofHeader, (indexed_empty _ _ _).get?_add]
  rfl

/-- No record of a loaded definition covers the top segment. -/
theorem recordOf?_top
    (hcheck : ∀ record ∈ d.records, record.check d.header.well d.header.mode = .ok ()) :
    d.recordOf? topNumber = none := by
  rw [TreeDefinition.recordOf?, List.find?_eq_none]
  intro record hrecord
  have hfirst := RangeRecord.top_lt_first_of_check (hcheck record (List.mem_reverse.1 hrecord))
  rw [decide_eq_true_iff]
  omega

end SegmentSet
end MultiSegmentWell
