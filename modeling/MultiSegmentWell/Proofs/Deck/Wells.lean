/-
# One well and all wells of a deck

SPEC_FULL.md, 6: `build_deck` and `build_named_well`.

Building a deck builds its wells in turn and ends with the first that fails. So it gives
one built well for each, in their order (`buildWells_eq_ok`), or there is a first well
that fails, and it fails for the same reason (`buildWells_eq_error`). What is found is
what was found of the wells that were looked at, the failing one included
(`findings_buildWells`, `findings_buildWells_of_error`).

A well is asked for by its name, and the first one with that name is built. In a
validated deck there is no other, so asking for a well by its name builds that very well
(`buildNamed_eq_buildWell`).
-/

import MultiSegmentWell.Proofs.Deck.Perforations
import MultiSegmentWell.Proofs.Deck.Validation
import MultiSegmentWell.Proofs.Tree.Acceptance

namespace MultiSegmentWell

open SegmentSet

namespace SegmentSet

variable {s r : SegmentSet}

/-- A loaded set has the name in the header. -/
theorem well_of_load {d : TreeDefinition} {options : Options}
    (h : (s.load d options).outcome = .ok r) : r.well = d.header.well := by
  obtain ⟨built, hbuilt, -, rfl⟩ := exists_builtOf_of_load h
  exact hbuilt.well_eq

/-- Equipping keeps the name of the well. -/
theorem Indexed.well_of_equip (hs : s.Indexed) {devices : List (Int × Device)}
    {connections : List Connection} (h : s.equip devices connections = .ok r) :
    r.well = s.well := by
  unfold SegmentSet.equip at h
  split_ifs at h
  · rw [Except.ok.inj h]
  · exact (hs.attachScaledDevices h).2.1

end SegmentSet

/-- A built well carries the name that its definition gives. -/
theorem WellInput.well_of_build {input : WellInput} {options : Options} {b : BuiltWell}
    (h : (input.build options).outcome = .ok b) :
    b.segments.well = input.definition.header.well := by
  obtain ⟨s, hs, h⟩ := Reported.bind_eq_ok.1 h
  obtain ⟨connections, -, h⟩ := bind_eq_ok.1 h
  obtain ⟨equipped, hequip, h⟩ := bind_eq_ok.1 h
  obtain rfl := Except.ok.inj h
  have hindexed := (settled_of_load hs).indexed.assignPerfLengths connections
  have hwell : equipped.well = s.well := hindexed.well_of_equip hequip
  exact hwell.trans (well_of_load hs)

namespace Deck

variable {t : TreeEntry} {w : WellEntry} {units : UnitSystem}
variable {definition : TreeDefinition} {input : WellInput}

section Building

variable [UnitConversions]

/-- A converted tree has the name and the ranges of the entry. -/
theorem TreeEntry.well_and_records_of_toDefinition (h : t.toDefinition units = .ok definition) :
    definition.header.well = t.well ∧
      definition.records = t.records.map fun r => r.toRecord units := by
  obtain ⟨mode, -, h⟩ := bind_eq_ok.1 h
  obtain ⟨pressureDrop, -, h⟩ := bind_eq_ok.1 h
  obtain ⟨flowModel, -, h⟩ := bind_eq_ok.1 h
  obtain rfl := Except.ok.inj h
  exact ⟨rfl, rfl⟩

/-- A converted well has a converted tree. -/
theorem WellEntry.toInput_eq_ok : w.toInput units = .ok input ↔
    ∃ definition, w.tree.toDefinition units = .ok definition ∧
      input = ⟨definition, w.devices units, w.connections.map fun c => c.toPerforation units⟩ := by
  rw [toInput, bind_eq_ok]
  simp only [Except.ok.injEq, eq_comm (a := input)]

variable {d : Deck} {wells : List WellEntry} {built : List BuiltWell} {b : BuiltWell}
variable {e : DeckError}

/-- A well is built from what it is converted to. -/
theorem buildWell_eq_ok : (d.buildWell w).outcome = .ok b ↔
    ∃ input, w.toInput d.units = .ok input ∧ (input.build d.options).outcome = .ok b := by
  rw [buildWell, Reported.outcome_mapError_eq_ok, Reported.bind_eq_ok]
  rfl

/-- A well fails to be converted, or what it is converted to fails to be built. -/
theorem buildWell_eq_error : (d.buildWell w).outcome = .error e ↔
    ∃ fault, e = .segment fault ∧ (w.toInput d.units = .error fault ∨
      ∃ input, w.toInput d.units = .ok input ∧
        (input.build d.options).outcome = .error fault) := by
  rw [buildWell, Reported.outcome_mapError_eq_error]
  refine exists_congr fun fault => ?_
  rw [Reported.bind_eq_error, and_comm, eq_comm (a := e)]
  rfl

/-- A built well carries the name of its entry. -/
theorem well_of_buildWell (h : (d.buildWell w).outcome = .ok b) : b.segments.well = w.name := by
  obtain ⟨input, hinput, hbuild⟩ := buildWell_eq_ok.1 h
  obtain ⟨definition, hdefinition, rfl⟩ := WellEntry.toInput_eq_ok.1 hinput
  exact (WellInput.well_of_build hbuild).trans (TreeEntry.well_and_records_of_toDefinition hdefinition).1

/-- **Wells are built in turn** when each of them is. -/
theorem buildWells_eq_ok : (d.buildWells wells).outcome = .ok built ↔
    List.Forall₂ (fun w b => (d.buildWell w).outcome = .ok b) wells built := by
  induction wells generalizing built with
  | nil => simp [buildWells, eq_comm]
  | cons w rest ih =>
    rw [buildWells, Reported.bind_eq_ok]
    simp only [Reported.bind_eq_ok, ih, Reported.outcome_pure, Except.ok.injEq]
    constructor
    · rintro ⟨b, hb, others, hothers, rfl⟩
      exact .cons hb hothers
    · rintro (_ | ⟨hb, hothers⟩)
      exact ⟨_, hb, _, hothers, rfl⟩

/-- **Building wells in turn fails** at the first one that fails. -/
theorem buildWells_eq_error : (d.buildWells wells).outcome = .error e ↔
    ∃ before w after, wells = before ++ w :: after ∧
      (∀ v ∈ before, ∃ b, (d.buildWell v).outcome = .ok b) ∧
      (d.buildWell w).outcome = .error e := by
  constructor
  · intro h
    induction wells with
    | nil => cases h
    | cons w rest ih =>
      rw [buildWells] at h
      obtain hw | ⟨b, hb, h⟩ := Reported.bind_eq_error.1 h
      · exact ⟨[], w, rest, rfl, by simp, hw⟩
      · obtain hrest | ⟨_, -, h⟩ := Reported.bind_eq_error.1 h
        · obtain ⟨before, v, after, rfl, hbefore, hv⟩ := ih hrest
          exact ⟨w :: before, v, after, rfl, List.forall_mem_cons.2 ⟨⟨b, hb⟩, hbefore⟩, hv⟩
        · cases h
  · rintro ⟨before, w, after, rfl, hbefore, hw⟩
    induction before with
    | nil => exact Reported.outcome_bind_of_error hw
    | cons v before ih =>
      obtain ⟨⟨b, hb⟩, hbefore⟩ := List.forall_mem_cons.1 hbefore
      rw [List.cons_append, buildWells, Reported.outcome_bind_of_ok hb]
      exact Reported.outcome_bind_of_error (ih hbefore)

/-- What is found of wells that are all built is found in their order. -/
theorem findings_buildWells (h : (d.buildWells wells).outcome = .ok built) :
    (d.buildWells wells).findings = wells.flatMap fun w => (d.buildWell w).findings := by
  induction wells generalizing built with
  | nil => rfl
  | cons w rest ih =>
    obtain ⟨b, hb, h⟩ := Reported.bind_eq_ok.1 h
    obtain ⟨others, hothers, -⟩ := Reported.bind_eq_ok.1 h
    rw [buildWells, Reported.findings_bind_of_ok hb, Reported.findings_bind_of_ok hothers,
      ih hothers, List.flatMap_cons]
    exact congrArg _ (List.append_nil _)

/-- Up to a well that fails, what is found is found in the order of the wells. -/
theorem findings_buildWells_of_error {before after : List WellEntry}
    (hbefore : ∀ v ∈ before, ∃ b, (d.buildWell v).outcome = .ok b)
    (hw : (d.buildWell w).outcome = .error e) :
    (d.buildWells (before ++ w :: after)).findings
      = (before ++ [w]).flatMap fun v => (d.buildWell v).findings := by
  induction before with
  | nil =>
    rw [List.nil_append, List.nil_append, List.flatMap_singleton]
    exact Reported.findings_bind_of_error hw
  | cons v before ih =>
    obtain ⟨⟨b, hb⟩, hbefore⟩ := List.forall_mem_cons.1 hbefore
    have hrest : (d.buildWells (before ++ w :: after)).outcome = .error e :=
      buildWells_eq_error.2 ⟨before, w, after, rfl, hbefore, hw⟩
    rw [List.cons_append, buildWells, Reported.findings_bind_of_ok hb,
      Reported.findings_bind_of_error hrest, ih hbefore, List.cons_append, List.flatMap_cons]

/-- **Asking for a well by its name builds that well** where no other one has its name. -/
theorem buildNamed_eq_buildWell (h : (d.wells.map WellEntry.name).Nodup) (hw : w ∈ d.wells) :
    d.buildNamed w.name = d.buildWell w := by
  obtain ⟨v, hv⟩ : ∃ v, d.wells.find? (fun v => v.name == w.name) = some v :=
    Option.isSome_iff_exists.1 (List.find?_isSome.2 ⟨w, hw, beq_self_eq_true w.name⟩)
  have hname := List.find?_some hv
  have hsame : v = w := List.inj_on_of_nodup_map h (List.mem_of_find?_eq_some hv) hw
    (beq_iff_eq.1 hname)
  rw [buildNamed, hv, hsame]

/-- **Building a validated deck is building its wells by their names.**  If the deck is
built, the wells are those that are built by the names in the deck, each carrying its name,
and the diagnostics are theirs in the order of the deck. If it is not, there is a first
well that cannot be built by its name, for the same reason, and all before it can; the
diagnostics are those up to this well. -/
theorem build_eq_buildNamed (d : Deck) (h : d.validate = .ok ()) :
    (∀ built, d.build.outcome = .ok built →
      List.Forall₂ (fun w b => (d.buildNamed w.name).outcome = .ok b ∧ b.segments.well = w.name)
        d.wells built ∧
      d.build.diagnostics = d.wells.flatMap fun w => (d.buildNamed w.name).diagnostics) ∧
    ∀ e, d.build.outcome = .error e → ∃ before w after, d.wells = before ++ w :: after ∧
      (∀ v ∈ before, ∃ b, (d.buildNamed v.name).outcome = .ok b) ∧
      (d.buildNamed w.name).outcome = .error e ∧
      d.build.diagnostics
        = (before ++ [w]).flatMap fun v => (d.buildNamed v.name).diagnostics := by
  have hnamed : ∀ w ∈ d.wells, d.buildNamed w.name = d.buildWell w :=
    fun w hw => buildNamed_eq_buildWell (nodup_names_of_validate h) hw
  have hdiagnostics : ∀ wells : List WellEntry, (∀ w ∈ wells, w ∈ d.wells) →
      (wells.flatMap fun w => (d.buildWell w).findings).map Finding.toDiagnostic
        = wells.flatMap fun w => (d.buildNamed w.name).diagnostics := by
    intro wells hwells
    rw [List.map_flatMap]
    exact List.flatMap_congr fun w hw => by rw [hnamed w (hwells w hw)]; rfl
  refine ⟨fun built hbuilt => ⟨?_, ?_⟩, fun e he => ?_⟩
  · have hall := (List.forall₂_and_left d.wells built).2
      ⟨fun w hw => hnamed w hw, buildWells_eq_ok.1 hbuilt⟩
    exact hall.imp fun w b ⟨hw, hb⟩ => ⟨hw ▸ hb, well_of_buildWell hb⟩
  · rw [← hdiagnostics d.wells fun w hw => hw, ← findings_buildWells hbuilt]
    rfl
  · obtain ⟨before, w, after, hwells, hbefore, hw⟩ := buildWells_eq_error.1 he
    have hmem : ∀ v ∈ before ++ [w], v ∈ d.wells := fun v hv => by
      rw [hwells, ← List.singleton_append, ← List.append_assoc]
      exact List.mem_append_left after hv
    refine ⟨before, w, after, hwells, fun v hv => ?_, ?_, ?_⟩
    · rw [hnamed v (hmem v (List.mem_append_left _ hv))]
      exact hbefore v hv
    · rw [hnamed w (hmem w (by simp))]
      exact hw
    · rw [← hdiagnostics _ hmem, ← findings_buildWells_of_error hbefore hw, ← hwells]
      rfl

end Building

/-- A well with a single segment behind its top one, with an inflow control device on it
and a perforation. -/
def shortWell (name : String) (length : Float) : WellEntry where
  tree := {
    well := name, topDepth := 1000.0, topLength := 100.0, volume := 1.0, mode := "ABS"
    records := [{
      first := 2, last := 2, branch := 1, join := 1, length, depth := 1010.0, diameter := 0.2
      roughness := 1.0e-4 }] }
  spiralIcds := [{ segment := 2, strength := 1.0e-5, length := 12.0, method := some 1 }]
  connections := [{ start := 105.0, finish := 110.0 }]

/-- Two wells that can be built. -/
def pairedWells : Deck where
  version := 1
  wells := [shortWell "A" 120.0, shortWell "B" 130.0]

/-- Three wells, the second of which leads back behind its top segment. -/
def interruptedWells : Deck where
  version := 1
  wells := [shortWell "A" 120.0, shortWell "B" 90.0, shortWell "C" 130.0]

/-- Both wells of the first deck are built as if each were asked for; of the second deck the first
well is built, the second fails and the third is not looked at. -/
theorem build_eq_buildNamed_paired_interrupted :
    (pairedWells.validate = .ok () ∧ ∃ built, pairedWells.build.outcome = .ok built ∧
      List.Forall₂ (fun w b => (pairedWells.buildNamed w.name).outcome = .ok b ∧
        b.segments.well = w.name) pairedWells.wells built ∧
      pairedWells.build.diagnostics
        = pairedWells.wells.flatMap fun w => (pairedWells.buildNamed w.name).diagnostics) ∧
    interruptedWells.validate = .ok () ∧
      ∃ before w after, interruptedWells.wells = before ++ w :: after ∧
        (∀ v ∈ before, ∃ b, (interruptedWells.buildNamed v.name).outcome = .ok b) ∧
        (interruptedWells.buildNamed w.name).outcome
          = .error (.segment (.nonPositiveLength "B" 2 (-10.0))) ∧
        interruptedWells.build.diagnostics
          = (before ++ [w]).flatMap fun v => (interruptedWells.buildNamed v.name).diagnostics := by
  have hpaired : pairedWells.validate = .ok () := by decide +kernel
  have hinterrupted : interruptedWells.validate = .ok () := by decide +kernel
  obtain ⟨built, hbuilt⟩ := exists_of_isOk
    (show pairedWells.build.outcome.isOk = true by decide +kernel)
  have hfails : interruptedWells.build.outcome
      = .error (.segment (.nonPositiveLength "B" 2 (-10.0))) := by
    decide +kernel
  exact ⟨⟨hpaired, built, hbuilt, (build_eq_buildNamed pairedWells hpaired).1 built hbuilt⟩,
    hinterrupted, (build_eq_buildNamed interruptedWells hinterrupted).2 _ hfails⟩

end Deck
end MultiSegmentWell
