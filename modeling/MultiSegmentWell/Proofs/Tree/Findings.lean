/-
# What is reported of loading

SPEC_FULL.md, 4.2 and 4.5: the warnings; 7: no warning ends a load.

Findings come from three places while a definition is loaded, and each can be cut short by a
failure behind it. Records are looked at one after the other, so those before the first
that is refused are reported (`findings_addRecords`). Where everything up to the check goes
well (`builtTree`), the check reports steep segments in storage order, up to the first that
has no positive length (`findings_checkSegments`). The note comes last, so it is there
exactly when loading succeeds.

Nothing else is reported, whether loading succeeds or fails (`findings_of_load`).
-/

import MultiSegmentWell.Proofs.Tree.Acceptance

namespace MultiSegmentWell

/-- Some segment of the record has less roughness than the record gives. -/
def RangeRecord.IsLimited (r : RangeRecord) (mode : GeometryMode) : Prop :=
  ∃ t ∈ r.segments mode, t.pipe.roughness < r.roughness

instance (r : RangeRecord) (mode : GeometryMode) : Decidable (r.IsLimited mode) :=
  inferInstanceAs (Decidable (∃ t ∈ r.segments mode, t.pipe.roughness < r.roughness))

namespace TreeDefinition

/-- The records in front of the first that is refused. -/
def expanded (d : TreeDefinition) : List RangeRecord :=
  d.records.takeWhile fun r => (r.check d.header.well d.header.mode).isOk

/-- A warning for each expanded record that gives more roughness than is stored. -/
def roughnessWarnings (d : TreeDefinition) : List Finding :=
  (d.expanded.filter fun r => r.IsLimited d.header.mode).map fun r =>
    .limitedRoughness d.header.well r.first r.last r.roughness r.segmentRoughness

end TreeDefinition

namespace SegmentSet

variable {s : SegmentSet} {d : TreeDefinition} {options : Options}

/-- The segments behind the top one in storage order, up to the first that has no positive
length. -/
def measured (s : SegmentSet) : List Segment :=
  (s.segments.filter fun t => t.number ≠ topNumber).takeWhile fun t =>
    (s.segmentLength t.number).isOk

/-- The warning about a segment whose depth changes by more than its length allows. -/
def steepWarning? (s : SegmentSet) (options : Options) (t : Segment) : Option Finding :=
  match s.segmentLength t.number, s.depthChange t.number with
  | .ok length, .ok change =>
    if change.abs > options.tolerance * length then
      some (.steepSegment s.well t.number options.units change length)
    else none
  | _, _ => none

/-- A warning for each measured segment that is steep. -/
def steepWarnings (s : SegmentSet) (options : Options) : List Finding :=
  s.measured.filterMap (s.steepWarning? options)

/-- The ordered, resolved and linked tree of a definition, not checked yet, or what keeps it
from being built. -/
def builtTree (d : TreeDefinition) : Except SegmentError SegmentSet := do
  d.records.forM fun r => r.check d.header.well d.header.mode
  let linked ← (described d).linkInlets
  linked.build d.header.mode d.header.top.depth d.header.top.length

/-- The steep segments of what is built, if anything is. -/
def steepWarningsOf (options : Options) : Except SegmentError SegmentSet → List Finding
  | .ok built => built.steepWarnings options
  | .error _ => []

/-- The note about what is loaded, if anything is. -/
def noteOf (mode : GeometryMode) : Except SegmentError SegmentSet → List Finding
  | .ok r => [.resolved r.well r.size r.branches.length mode]
  | .error _ => []

section Records

/-- A record that can be expanded has a segment, and all of them have one roughness. -/
theorem isLimited_iff_of_check {r : RangeRecord} {well : String} {mode : GeometryMode}
    (h : r.check well mode = .ok ()) : r.IsLimited mode ↔ r.segmentRoughness < r.roughness := by
  have hrange : r.first ≤ r.last := by
    rw [RangeRecord.check] at h
    split at h
    · cases h
    · rename_i hnone
      rw [RangeRecord.fault?] at hnone
      split_ifs at hnone
      omega
  constructor
  · rintro ⟨t, ht, hlimited⟩
    obtain ⟨n, -, rfl⟩ := List.mem_map.1 ht
    exact hlimited
  · intro hlimited
    exact ⟨_, List.mem_map_of_mem (mem_numbersBetween.2 ⟨Int.le_refl _, hrange⟩), hlimited⟩

/-- **Records are reported up to the first that is refused.** -/
theorem findings_addRecords (s : SegmentSet) (mode : GeometryMode) (records : List RangeRecord) :
    (s.addRecords mode records).findings =
      ((records.takeWhile fun r => (r.check s.well mode).isOk).filter
        fun r => r.IsLimited mode).map fun r =>
          .limitedRoughness s.well r.first r.last r.roughness r.segmentRoughness := by
  induction records generalizing s with
  | nil => rfl
  | cons r rest ih =>
    rw [addRecords]
    cases hcheck : r.check s.well mode with
    | error e =>
      have hexpand : r.expand s.well mode = .ofExcept (.error e) := by
        rw [RangeRecord.expand, hcheck]
      rw [hexpand, Reported.findings_bind_of_error rfl,
        List.takeWhile_cons_of_neg (by rw [hcheck]; exact Bool.false_ne_true)]
      rfl
    | ok =>
      have hexpand : r.expand s.well mode = ⟨r.findings s.well, .ok (r.segments mode)⟩ := by
        rw [RangeRecord.expand, hcheck]
      rw [hexpand, Reported.findings_bind_of_ok rfl, ih, addAll_well,
        List.takeWhile_cons_of_pos (by rw [hcheck]; rfl), List.filter_cons]
      simp only [isLimited_iff_of_check hcheck, decide_eq_true_eq, RangeRecord.findings]
      by_cases hlimited : r.segmentRoughness < r.roughness
      · rw [if_pos hlimited, if_pos hlimited]
        rfl
      · rw [if_neg hlimited, if_neg hlimited]
        rfl

end Records

section Checking

variable {n : Int} {length : Float} {t : Segment}

/-- A segment that has a length has a change of depth as well. -/
theorem exists_depthChange (h : s.segmentLength n = .ok length) :
    ∃ change, s.depthChange n = .ok change := by
  obtain ⟨t, ht, h⟩ := bind_eq_ok.1 h
  rw [depthChange, ht]
  split_ifs at h with hn
  · exact ⟨t.node.depth, by rw [hn]; rfl⟩
  · obtain ⟨outlet, houtlet, -⟩ := bind_eq_ok.1 h
    refine ⟨t.node.depth - outlet.node.depth, ?_⟩
    show (if n = topNumber then _ else _) = _
    rw [if_neg hn, houtlet]
    rfl

/-- A segment without a length is refused for that. -/
theorem extent_of_error {e : SegmentError} (h : s.segmentLength n = .error e) :
    s.extent n = .error e := by
  rw [extent, h]
  rfl

/-- What is found about a segment that has a length. -/
theorem toList_steepWarning? {change : Float} (hlength : s.segmentLength t.number = .ok length)
    (hchange : s.depthChange t.number = .ok change) :
    (s.steepWarning? options t).toList = s.steepFindings options t.number length change := by
  rw [steepWarning?, hlength, hchange, steepFindings]
  dsimp only
  split_ifs <;> rfl

/-- **The check reports steep segments up to the first that is refused.** -/
theorem findings_checkSegments (s : SegmentSet) (options : Options) (segments : List Segment) :
    (s.checkSegments options segments).findings =
      ((segments.filter fun t => t.number ≠ topNumber).takeWhile fun t =>
        (s.segmentLength t.number).isOk).filterMap (s.steepWarning? options) := by
  induction segments with
  | nil => rfl
  | cons t rest ih =>
    rw [checkSegments]
    split_ifs with hn
    · rw [ih, List.filter_cons_of_neg (by simpa using hn)]
    · rw [List.filter_cons_of_pos (by simpa using hn)]
      cases hlength : s.segmentLength t.number with
      | error e =>
        rw [extent_of_error hlength,
          List.takeWhile_cons_of_neg (by rw [hlength]; exact Bool.false_ne_true)]
        rfl
      | ok length =>
        obtain ⟨change, hchange⟩ := exists_depthChange hlength
        rw [extent_eq_ok.2 ⟨hlength, hchange⟩, List.takeWhile_cons_of_pos (by rw [hlength]; rfl),
          List.filterMap_cons, ← ih]
        show s.steepFindings options t.number length change ++ _ = _
        rw [← toList_steepWarning? hlength hchange]
        cases s.steepWarning? options t <;> rfl

/-- What the check finds are the steep segments that it comes to. -/
theorem findings_check (s : SegmentSet) (options : Options) :
    (s.check options).findings = s.steepWarnings options :=
  findings_checkSegments s options s.segments

end Checking

section Loading

/-- There is a tree to check exactly if all records pass their checks and what they describe is
built. -/
theorem builtTree_eq_ok {built : SegmentSet} : builtTree d = .ok built ↔
    (∀ r ∈ d.records, r.check d.header.well d.header.mode = .ok ()) ∧ BuiltOf d built := by
  rw [builtTree, check_bind_eq_ok, forM_eq_ok]
  exact and_congr_right fun _ => bind_eq_ok

/-- Where all records can be expanded, the tree is what is described, linked and built. -/
theorem builtTree_of_check
    (hcheck : ∀ r ∈ d.records, r.check d.header.well d.header.mode = .ok ()) :
    builtTree d = (described d).linkInlets >>= fun linked =>
      linked.build d.header.mode d.header.top.depth d.header.top.length := by
  rw [builtTree, forM_eq_ok.2 hcheck]
  rfl

/-- Where a record is refused, no steep segments are reported. -/
theorem steepWarningsOf_builtTree {e : SegmentError}
    (h : ((ofHeader d.header).addRecords d.header.mode d.records).outcome = .error e) :
    steepWarningsOf options (builtTree d) = [] := by
  cases hbuilt : builtTree d with
  | error => rfl
  | ok built =>
    have hadded := addRecords_ofHeader_eq_ok.2 ⟨(builtTree_eq_ok.1 hbuilt).1, rfl⟩
    cases h.symm.trans hadded

/-- **Processing reports what the check does** of the set that is built, if one is, and then
the note, if nothing is refused. -/
theorem findings_process (s : SegmentSet) (mode : GeometryMode) (topDepth topLength : Float)
    (options : Options) : (s.process mode topDepth topLength options).findings
      = steepWarningsOf options (s.build mode topDepth topLength)
        ++ noteOf mode (s.process mode topDepth topLength options).outcome := by
  cases hbuild : s.build mode topDepth topLength with
  | error e =>
    rw [process, hbuild]
    rfl
  | ok built =>
    rw [process_of_build hbuild, steepWarningsOf, ← findings_check]
    cases hcheck : (built.check options).outcome with
    | error e =>
      rw [Reported.findings_bind_of_error hcheck, Reported.outcome_bind_of_error hcheck]
      exact (List.append_nil _).symm
    | ok =>
      rw [Reported.findings_bind_of_ok hcheck, Reported.outcome_bind_of_ok hcheck]
      rfl

/-- Linking reports nothing, so what is reported of a linked and processed set is what
processing reports. -/
theorem findings_link_process (s : SegmentSet) (mode : GeometryMode) (topDepth topLength : Float)
    (options : Options) :
    let processed := (Reported.ofExcept s.linkInlets).bind fun linked =>
      linked.process mode topDepth topLength options
    processed.findings = steepWarningsOf options
        (s.linkInlets >>= fun linked => linked.build mode topDepth topLength)
      ++ noteOf mode processed.outcome := by
  cases hlink : s.linkInlets with
  | error e => rfl
  | ok linked => exact findings_process linked mode topDepth topLength options

/-- **What is reported of loading.**  Loading a definition into an empty set reports, on
success and on every failure, exactly this: a warning for each record in front of the first
refused one that gives more roughness than its segments have, in record order; then, if the
tree is linked, ordered and resolved, a warning for each segment behind the top one whose
depth changes by more than its length allows, in storage order and up to the first that has
no positive length; and then one note, if and only if the definition is loaded. -/
theorem findings_of_load (hs : Reachable s) (hempty : s.isEmpty = true) (d : TreeDefinition)
    (options : Options) :
    (s.load d options).findings = d.roughnessWarnings
      ++ steepWarningsOf options (builtTree d)
      ++ noteOf d.header.mode (s.load d options).outcome := by
  have hrecords : ((ofHeader d.header).addRecords d.header.mode d.records).findings
      = d.roughnessWarnings := by
    rw [findings_addRecords, ofHeader_well]
    rfl
  have hload : s.load d options = ofDefinition d options := by
    rw [load, hs.resolved_of_isEmpty hempty, hempty]
    rfl
  rw [hload, ofDefinition]
  cases hfull : ((ofHeader d.header).addRecords d.header.mode d.records).outcome with
  | error e =>
    rw [Reported.findings_bind_of_error hfull, Reported.outcome_bind_of_error hfull, hrecords,
      steepWarningsOf_builtTree hfull, List.append_nil]
    exact (List.append_nil _).symm
  | ok full =>
    obtain ⟨hcheck, rfl⟩ := addRecords_ofHeader_eq_ok.1 hfull
    rw [Reported.findings_bind_of_ok hfull, Reported.outcome_bind_of_ok hfull, hrecords,
      List.append_assoc, builtTree_of_check hcheck]
    exact congrArg (d.roughnessWarnings ++ ·) (findings_link_process (described d) _ _ _ options)

/-- A well with two rough pipes, the second of them steep, and a side branch that is steep
too. Its last segment leads back as far as `back` says. -/
def roughAndSteep (back : Float) : TreeDefinition where
  header := { well := "W", top := ⟨100.0, 1000.0, 0.0, 0.0⟩, volume := 1.0, mode := .incremental }
  records := [
    { first := 2, last := 3, branch := 1, join := 1, node := ⟨10.0, 5.0, 0.0, 0.0⟩,
      diameter := 0.01, roughness := 1.0 },
    { first := 4, last := 5, branch := 1, join := 3, node := ⟨10.0, 20.0, 0.0, 0.0⟩,
      diameter := 0.01, roughness := 2.0 },
    { first := 6, last := 6, branch := 2, join := 2, node := ⟨10.0, -40.0, 0.0, 0.0⟩,
      diameter := 0.2, roughness := 1.0e-4 },
    { first := 7, last := 7, branch := 2, join := 6, node := ⟨back, 0.0, 0.0, 0.0⟩,
      diameter := 0.2, roughness := 1.0e-4 }]

/-- With 10 metres to the last segment the load succeeds and says so; with 10 metres back it
fails, and the five warnings have been given nevertheless. -/
theorem findings_of_load_roughAndSteep :
    Reachable {} ∧ ({} : SegmentSet).isEmpty = true ∧
      (({} : SegmentSet).load (roughAndSteep 10.0) {}).findings = [
        .limitedRoughness "W" 2 3 1.0 0.03690924512396331,
        .limitedRoughness "W" 4 5 2.0 0.03690924512396331,
        .steepSegment "W" 4 .metric 20.0 10.0, .steepSegment "W" 5 .metric 20.0 10.0,
        .steepSegment "W" 6 .metric (-40.0) 10.0, .resolved "W" 7 2 .incremental] ∧
      (({} : SegmentSet).load (roughAndSteep (-10.0)) {}).findings = [
        .limitedRoughness "W" 2 3 1.0 0.03690924512396331,
        .limitedRoughness "W" 4 5 2.0 0.03690924512396331,
        .steepSegment "W" 4 .metric 20.0 10.0, .steepSegment "W" 5 .metric 20.0 10.0,
        .steepSegment "W" 6 .metric (-40.0) 10.0] := by
  have hs : Reachable {} := .empty ..
  exact ⟨hs, rfl, (findings_of_load hs rfl _ _).trans (by decide +kernel),
    (findings_of_load hs rfl _ _).trans (by decide +kernel)⟩

end Loading

end SegmentSet
end MultiSegmentWell
