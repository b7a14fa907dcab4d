/-
# What can still go wrong in a validated deck

SPEC_FULL.md, 6: `validate_deck` in front of `build_named_well`; 7: the kinds of failure.

A validated well is converted without fail, and what its devices and perforations refer to
is in its tree (`Referring`). So only the faults of building are left
(`exists_buildFault_of_buildNamed`, `exists_buildFault_of_build`): words for settings have
been read, sets are new when they are loaded and resolved when perforations are allocated,
and no range of absolute records is left open (`not_prevented_of_validate`).

One reference is not checked. Scaling an inflow control device looks up the outlet of its
segment, and for the top segment that is number 0, which no deck holds
(`topIcd_of_unknownSegment`). Every other segment has its outlet in the tree.
-/

import MultiSegmentWell.Proofs.Deck.BuildFaults

namespace MultiSegmentWell

/-- Failures that a validated deck cannot run into. -/
def SegmentError.isPrevented : SegmentError → Bool
  | incompleteRange .. | branchLoop .. | notResolved .. | alreadyLoaded .. | unknownSetting .. =>
    true
  | _ => false

/-- No fault of building is a prevented one. -/
theorem BuildFault.isPrevented_eq_false {input : WellInput} {e : SegmentError}
    (h : BuildFault input e) : e.isPrevented = false := by
  cases h with
  | tree fault => cases fault <;> rfl
  | perforation => rfl
  | devices fault => cases fault <;> rfl

/-- An unknown segment is the outlet of the top segment, which carries an inflow control
device. -/
theorem BuildFault.exists_topIcd {input : WellInput} {well : String} {n : Int}
    (h : BuildFault input (.unknownSegment well n)) :
    well = input.definition.header.well ∧ n = 0 ∧
      ∃ d ∈ input.devices, d.1 = topNumber ∧ d.2.icd?.isSome = true := by
  cases h with
  | tree fault => cases fault
  | devices fault =>
    cases fault with
    | topOutlet hmem htop hicd => exact ⟨rfl, rfl, _, hmem, htop, hicd⟩

namespace Deck

variable {t : TreeEntry} {w : WellEntry} {units : UnitSystem} {n : Int}
variable {definition : TreeDefinition} {input : WellInput}

section Conversion

variable [UnitConversions]

/-- A tree with words that can be read is converted. -/
theorem TreeEntry.exists_toDefinition (hmode : (GeometryMode.ofText? t.mode).isSome)
    (hdrop : (PressureDrop.ofText? t.pressureDrop).isSome)
    (hflow : (FlowModel.ofText? t.flowModel).isSome) :
    ∃ definition, t.toDefinition units = .ok definition := by
  obtain ⟨mode, hmode⟩ := Option.isSome_iff_exists.1 hmode
  obtain ⟨drop, hdrop⟩ := Option.isSome_iff_exists.1 hdrop
  obtain ⟨flow, hflow⟩ := Option.isSome_iff_exists.1 hflow
  rw [toDefinition, GeometryMode.ofText, hmode, PressureDrop.ofText, hdrop, FlowModel.ofText, hflow]
  exact ⟨_, rfl⟩

/-- An acceptable well is converted without fail. -/
theorem WellEntry.Acceptable.exists_toInput (hw : w.Acceptable) :
    ∃ input, w.toInput units = .ok input := by
  obtain ⟨definition, hdefinition⟩ : ∃ definition, w.tree.toDefinition units = .ok definition :=
    TreeEntry.exists_toDefinition hw.mode hw.pressureDrop hw.flowModel
  exact ⟨_, WellEntry.toInput_eq_ok.2 ⟨definition, hdefinition, rfl⟩⟩

/-- Defined numbers are covered by the converted tree. -/
theorem TreeEntry.Defines.covers (hn : t.Defines n) (h : t.toDefinition units = .ok definition) :
    definition.Covers n := by
  obtain rfl | ⟨r, hr, -, hmem⟩ := hn
  · exact .inl rfl
  · refine .inr ⟨r.toRecord units, ?_, mem_numbersBetween.1 hmem⟩
    rw [(well_and_records_of_toDefinition h).2]
    exact List.mem_map_of_mem hr

/-- Converting keeps the segments of devices. -/
theorem WellEntry.map_fst_devices (w : WellEntry) (units : UnitSystem) :
    (w.devices units).map Prod.fst = w.deviceNumbers := by
  simp only [devices, deviceNumbers, List.map_append, List.map_map]
  rfl

/-- **What an acceptable well refers to is in its tree.** -/
theorem WellEntry.Acceptable.referring (hw : w.Acceptable) (h : w.toInput units = .ok input) :
    input.Referring := by
  obtain ⟨definition, hdefinition, rfl⟩ := WellEntry.toInput_eq_ok.1 h
  constructor
  · intro p hp n hn
    obtain ⟨c, hc, rfl⟩ := List.mem_map.1 hp
    exact ((hw.connection c hc).2.2 n hn).covers hdefinition
  · intro d hd
    have hmem : d.1 ∈ w.deviceNumbers := by
      rw [← w.map_fst_devices units]
      exact List.mem_map_of_mem hd
    exact (hw.defined d.1 hmem).covers hdefinition

end Conversion

/-- Whether a spiral or an autonomous inflow control device is on the top segment. -/
def WellEntry.HasTopIcd (w : WellEntry) : Prop :=
  (∃ i ∈ w.spiralIcds, i.segment = topNumber) ∨ ∃ i ∈ w.autonomousIcds, i.icd.segment = topNumber

/-- Converting keeps inflow control devices on the top segment. -/
theorem WellEntry.hasTopIcd_iff [UnitConversions] (units : UnitSystem) : w.HasTopIcd ↔
    ∃ d ∈ w.devices units, d.1 = topNumber ∧ d.2.icd?.isSome = true := by
  simp only [HasTopIcd, devices, List.mem_append, List.mem_map]
  constructor
  · rintro (⟨i, hi, hn⟩ | ⟨i, hi, hn⟩)
    · exact ⟨_, .inl (.inl ⟨i, hi, rfl⟩), hn, rfl⟩
    · exact ⟨_, .inl (.inr ⟨i, hi, rfl⟩), hn, rfl⟩
  · rintro ⟨_, (⟨i, hi, rfl⟩ | ⟨i, hi, rfl⟩) | ⟨v, -, rfl⟩, hn, hicd⟩
    · exact .inl ⟨i, hi, hn⟩
    · exact .inr ⟨i, hi, hn⟩
    · cases hicd

section Building

variable [UnitConversions] {d : Deck} {fault : SegmentError}

/-- **What keeps a well of a validated deck from being built** is a fault of building it. -/
theorem exists_buildFault_of_buildWell (hw : w.Acceptable)
    (h : (d.buildWell w).outcome = .error (.segment fault)) :
    ∃ input, w.toInput d.units = .ok input ∧ BuildFault input fault := by
  obtain ⟨input, hinput⟩ : ∃ input, w.toInput d.units = .ok input := hw.exists_toInput
  obtain ⟨_, hfault, hcases⟩ := buildWell_eq_error.1 h
  obtain rfl := DeckError.segment.inj hfault
  obtain hconversion | ⟨input', hinput', hbuild⟩ := hcases
  · rw [hinput] at hconversion
    cases hconversion
  · obtain rfl := Except.ok.inj (hinput.symm.trans hinput')
    exact ⟨input, hinput, buildFault_of_build (hw.referring hinput) hbuild⟩

/-- A failure of building one well by its name is a fault of a well of the deck. -/
theorem exists_buildFault_of_buildNamed (h : d.validate = .ok ()) {name : String}
    (hbuild : (d.buildNamed name).outcome = .error (.segment fault)) :
    ∃ w ∈ d.wells, ∃ input, w.toInput d.units = .ok input ∧ BuildFault input fault := by
  unfold buildNamed at hbuild
  split at hbuild
  · rename_i w hw
    have hmem := List.mem_of_find?_eq_some hw
    exact ⟨w, hmem, exists_buildFault_of_buildWell (acceptable_of_validate h hmem) hbuild⟩
  · cases hbuild

/-- A failure of building the deck is a fault of one of its wells. -/
theorem exists_buildFault_of_build (h : d.validate = .ok ())
    (hbuild : d.build.outcome = .error (.segment fault)) :
    ∃ w ∈ d.wells, ∃ input, w.toInput d.units = .ok input ∧ BuildFault input fault := by
  obtain ⟨before, w, after, hwells, -, hw⟩ := buildWells_eq_error.1 hbuild
  have hmem : w ∈ d.wells := hwells ▸ by simp
  exact ⟨w, hmem, exists_buildFault_of_buildWell (acceptable_of_validate h hmem) hw⟩

end Building

/-- **Validation prevents what it is there to prevent.**  Whatever the ranges, devices and
connections of a validated deck are, neither building a well by its name nor building the
whole deck fails for a range that is left open, a circle on a branch, a tree that is not
resolved or already loaded, or a word for a setting. -/
theorem not_prevented_of_validate [UnitConversions] (d : Deck) (h : d.validate = .ok ()) :
    (∀ name fault, (d.buildNamed name).outcome = .error (.segment fault) →
      fault.isPrevented = false) ∧
    ∀ fault, d.build.outcome = .error (.segment fault) → fault.isPrevented = false := by
  refine ⟨fun name fault hbuild => ?_, fun fault hbuild => ?_⟩
  · obtain ⟨_, -, _, -, hfault⟩ := exists_buildFault_of_buildNamed h hbuild
    exact hfault.isPrevented_eq_false
  · obtain ⟨_, -, _, -, hfault⟩ := exists_buildFault_of_build h hbuild
    exact hfault.isPrevented_eq_false

/-- A well of absolute ranges, one of which has several segments. -/
def severalAbsolute : Deck where
  version := 1
  wells := [{
    tree := {
      well := "W", topDepth := 1000.0, topLength := 100.0, volume := 1.0, mode := "ABS"
      records := [{
        first := 2, last := 3, branch := 1, join := 1, length := 120.0, depth := 1010.0
        diameter := 0.2, roughness := 1.0e-4 }] } }]

/-- The deck passes validation and its well cannot be built, for a malformed range, which is not
among the failures that validation prevents. -/
theorem not_prevented_of_validate_severalAbsolute :
    severalAbsolute.validate = .ok () ∧ ∃ fault,
      (severalAbsolute.buildNamed "W").outcome = .error (.segment fault) ∧
      severalAbsolute.build.outcome = .error (.segment fault) ∧ fault.isPrevented = false := by
  have hvalidate : severalAbsolute.validate = .ok () := by decide +kernel
  have hnamed : (severalAbsolute.buildNamed "W").outcome
      = .error (.segment (.malformedRange "W" 2 3 .severalAbsolute)) := by
    decide +kernel
  have hbuild : severalAbsolute.build.outcome
      = .error (.segment (.malformedRange "W" 2 3 .severalAbsolute)) := by
    decide +kernel
  exact ⟨hvalidate, _, hnamed, hbuild,
    (not_prevented_of_validate severalAbsolute hvalidate).1 "W" _ hnamed⟩

/-- **An unknown segment is the outlet of the top one.**  If a well of a validated deck cannot
be built by its name for an unknown segment, that segment is number 0 of the well, and an
inflow control device is on its top segment. A well with such a device is never built. -/
theorem topIcd_of_unknownSegment [UnitConversions] (d : Deck) (h : d.validate = .ok ())
    (w : WellEntry) (hw : w ∈ d.wells) :
    (∀ well n, (d.buildNamed w.name).outcome = .error (.segment (.unknownSegment well n)) →
      well = w.name ∧ n = 0 ∧ w.HasTopIcd) ∧
    (w.HasTopIcd → ∃ fault, (d.buildNamed w.name).outcome = .error (.segment fault)) := by
  have hacceptable := acceptable_of_validate h hw
  rw [buildNamed_eq_buildWell (nodup_names_of_validate h) hw]
  refine ⟨fun well n hfails => ?_, fun htop => ?_⟩
  · obtain ⟨input, hinput, hbuilt⟩ := exists_buildFault_of_buildWell hacceptable hfails
    obtain ⟨definition, hdefinition, rfl⟩ := WellEntry.toInput_eq_ok.1 hinput
    obtain ⟨rfl, rfl, hicd⟩ := hbuilt.exists_topIcd
    exact ⟨(TreeEntry.well_and_records_of_toDefinition hdefinition).1, rfl,
      (WellEntry.hasTopIcd_iff d.units).2 hicd⟩
  · cases houtcome : (d.buildWell w).outcome with
    | ok b =>
      obtain ⟨input, hinput, hbuild⟩ := buildWell_eq_ok.1 houtcome
      obtain ⟨definition, -, rfl⟩ := WellEntry.toInput_eq_ok.1 hinput
      obtain ⟨device, hmem, hn, hicd⟩ := (WellEntry.hasTopIcd_iff d.units).1 htop
      exact absurd hbuild (WellInput.not_build_of_topIcd hmem hn hicd b)
    | error e =>
      obtain ⟨fault, rfl, -⟩ := buildWell_eq_error.1 houtcome
      exact ⟨fault, rfl⟩

/-- A well with a spiral device on its top segment. The negative length of the device is its
scaling factor. -/
def topIcdWell : WellEntry where
  tree := {
    well := "W", topDepth := 1000.0, topLength := 100.0, volume := 1.0, mode := "ABS"
    records := [{
      first := 2, last := 2, branch := 1, join := 1, length := 120.0, depth := 1010.0
      diameter := 0.2, roughness := 1.0e-4 }] }
  spiralIcds := [{ segment := 1, strength := 1.0e-5, length := -0.7 }]

/-- A deck with that well only. -/
def topIcdDeck : Deck where
  version := 1
  wells := [topIcdWell]

/-- The deck passes validation, and scaling the device on the top segment asks for segment 0. -/
theorem topIcd_of_unknownSegment_topIcdDeck :
    topIcdDeck.validate = .ok () ∧ topIcdWell ∈ topIcdDeck.wells ∧
      (topIcdDeck.buildNamed topIcdWell.name).outcome
        = .error (.segment (.unknownSegment "W" 0)) ∧
      ("W" = topIcdWell.name ∧ (0 : Int) = 0 ∧ topIcdWell.HasTopIcd) ∧
      ∃ fault, (topIcdDeck.buildNamed topIcdWell.name).outcome = .error (.segment fault) := by
  have hvalidate : topIcdDeck.validate = .ok () := by decide +kernel
  have hmem : topIcdWell ∈ topIcdDeck.wells := List.mem_singleton_self topIcdWell
  have hfails : (topIcdDeck.buildNamed topIcdWell.name).outcome
      = .error (.segment (.unknownSegment "W" 0)) := by
    decide +kernel
  obtain ⟨hunknown, hnever⟩ := topIcd_of_unknownSegment topIcdDeck hvalidate topIcdWell hmem
  have htop : topIcdWell.HasTopIcd := .inl ⟨_, List.mem_cons_self, rfl⟩
  exact ⟨hvalidate, hmem, hfails, hunknown "W" 0 hfails, hnever htop⟩

/-- **A validated deck may refer to an unknown segment.**  The deck names segments 1 and 2
only, and its device comes with its scaling factor; building the well still looks for
segment 0. -/
theorem unknownSegment_of_topIcdDeck :
    topIcdDeck.validate = .ok () ∧ topIcdWell ∈ topIcdDeck.wells ∧
      (topIcdDeck.buildNamed topIcdWell.name).outcome
        = .error (.segment (.unknownSegment "W" 0)) :=
  ⟨by decide +kernel, List.mem_singleton_self topIcdWell, by decide +kernel⟩

end Deck
end MultiSegmentWell
