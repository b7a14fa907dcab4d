/-
# Where the word for the mode is read

SPEC_FULL.md, 6: non-positive lengths are rejected with incremental records.

Two places read the word for the mode of a well. Converting the well leaves out the blanks
around the word, while validation compares the word as it stands before it looks at the
lengths of records. The two agree on the bare word `INC` only: then every well-formed record
of a validated well has a length that is not zero or less. With blanks around the word the
well is converted to changes all the same, but validation has not looked at any length, so
a deck stays valid whatever these lengths are (`lengths_of_incremental`).
-/

import MultiSegmentWell.Proofs.Deck.Wells

namespace MultiSegmentWell
namespace Deck

variable {t : TreeEntry} {w : WellEntry} {n : Int} {length : RangeEntry → Float}

/-- The range with another length. -/
def RangeEntry.withLength (r : RangeEntry) (length : Float) : RangeEntry := { r with length }

/-- The tree with a length given anew for each range. -/
def TreeEntry.withLengths (t : TreeEntry) (length : RangeEntry → Float) : TreeEntry :=
  { t with records := t.records.map fun r => r.withLength (length r) }

/-- The well with a length given anew for each range. -/
def WellEntry.withLengths (w : WellEntry) (length : RangeEntry → Float) : WellEntry :=
  { w with tree := w.tree.withLengths length }

/-- The deck with lengths given anew in one of its wells. -/
def withLengths (d : Deck) (w : WellEntry) (length : RangeEntry → Float) : Deck :=
  { d with wells := d.wells.map fun v => if v = w then v.withLengths length else v }

/-- Lengths do not tell which numbers a tree defines. -/
theorem TreeEntry.defines_withLengths : (t.withLengths length).Defines n ↔ t.Defines n := by
  refine or_congr_right ⟨?_, ?_⟩
  · rintro ⟨_, hmem, hwell, hn⟩
    obtain ⟨r, hr, rfl⟩ := List.mem_map.1 hmem
    exact ⟨r, hr, hwell, hn⟩
  · rintro ⟨r, hr, hwell, hn⟩
    exact ⟨_, List.mem_map_of_mem hr, hwell, hn⟩

/-- **Where the word is not the bare one, lengths do not matter** to validation. -/
theorem WellEntry.Acceptable.withLengths (hw : w.Acceptable) (hword : w.tree.mode ≠ "INC")
    (length : RangeEntry → Float) : (w.withLengths length).Acceptable where
  named := hw.named
  mode := hw.mode
  pressureDrop := hw.pressureDrop
  flowModel := hw.flowModel
  apart := List.pairwise_map.2 hw.apart
  diameter := by
    intro q hq hwell
    obtain ⟨r, hr, rfl⟩ := List.mem_map.1 hq
    exact hw.diameter r hr hwell
  length hbare := absurd hbare hword
  defined n hn := TreeEntry.defines_withLengths.2 (hw.defined n hn)
  nodup := hw.nodup
  connection c hc := by
    obtain ⟨hbranch, hends, hsegment⟩ := hw.connection c hc
    exact ⟨hbranch, hends, fun n hn => TreeEntry.defines_withLengths.2 (hsegment n hn)⟩

/-- A well keeps its name with other lengths, so the names in a deck stay as they are. -/
theorem names_withLengths (d : Deck) (w : WellEntry) (length : RangeEntry → Float) :
    (d.withLengths w length).wells.map WellEntry.name = d.wells.map WellEntry.name := by
  rw [withLengths, List.map_map]
  refine List.map_congr_left fun v _ => ?_
  rw [Function.comp_apply]
  split_ifs <;> rfl

/-- The mode of a converted tree is the one that its word names. -/
theorem TreeEntry.mode_of_toDefinition [UnitConversions] {units : UnitSystem}
    {definition : TreeDefinition}
    (h : t.toDefinition units = .ok definition) :
    GeometryMode.ofText? t.mode = some definition.header.mode := by
  obtain ⟨mode, hmode, h⟩ := bind_eq_ok.1 h
  obtain ⟨_, -, h⟩ := bind_eq_ok.1 h
  obtain ⟨_, -, h⟩ := bind_eq_ok.1 h
  obtain rfl := Except.ok.inj h
  rw [GeometryMode.ofText] at hmode
  split at hmode
  · rename_i given hgiven
    rw [hgiven, Except.ok.inj hmode]
  · cases hmode

/-- **Lengths are looked at where the word for the mode is the bare one.**  A well of a
validated deck is converted to changes exactly when its word for the mode is `INC`, blanks
around it aside. If the word is `INC` as it stands, no well-formed record of the well has a
length of zero or less. If it is not, the deck is valid with any lengths in that well. -/
theorem lengths_of_incremental [UnitConversions] (d : Deck) (h : d.validate = .ok ())
    (w : WellEntry) (hw : w ∈ d.wells) (input : WellInput) (hinput : w.toInput d.units = .ok input) :
    (input.definition.header.mode = .incremental ↔ Text.trim w.tree.mode = "INC") ∧
      (w.tree.mode = "INC" → ∀ r ∈ w.tree.records, r.WellFormed → ¬ r.length ≤ 0.0) ∧
      (w.tree.mode ≠ "INC" → ∀ length, (d.withLengths w length).validate = .ok ()) := by
  obtain ⟨definition, hdefinition, rfl⟩ := WellEntry.toInput_eq_ok.1 hinput
  have hname := GeometryMode.name_of_ofText? (TreeEntry.mode_of_toDefinition hdefinition)
  refine ⟨?_, (acceptable_of_validate h hw).length, fun hword length => ?_⟩
  · show definition.header.mode = .incremental ↔ _
    rw [← hname]
    cases definition.header.mode <;> decide
  · obtain ⟨hversion, hnodup, hall⟩ := (validate_eq_ok_iff d).1 h
    refine (validate_eq_ok_iff _).2 ⟨hversion, (names_withLengths d w length).symm ▸ hnodup, ?_⟩
    intro u hu
    obtain ⟨v, hv, rfl⟩ := List.mem_map.1 hu
    split_ifs with hsame
    · exact (hall v hv).withLengths (hsame ▸ hword) length
    · exact hall v hv

/-- A well of changes with a segment that leads back, its word for the mode as given. -/
def backwardWell (mode : String) (length : Float) : WellEntry where
  tree := {
    well := "W", topDepth := 1000.0, topLength := 100.0, volume := 1.0, mode
    records := [{
      first := 2, last := 2, branch := 1, join := 1, length, depth := 5.0, diameter := 0.2
      roughness := 1.0e-4 }] }

/-- A deck with such a well only. -/
def backwardDeck (mode : String) (length : Float) : Deck where
  version := 1
  wells := [backwardWell mode length]

/-- With blanks around the word the well is converted to changes, and the deck is still valid when
its segment leads back. -/
theorem lengths_of_incremental_padded :
    ∃ input, (backwardDeck " INC " 10.0).validate = .ok () ∧
      backwardWell " INC " 10.0 ∈ (backwardDeck " INC " 10.0).wells ∧
      (backwardWell " INC " 10.0).toInput .metric = .ok input ∧
      input.definition.header.mode = .incremental ∧
      ((backwardDeck " INC " 10.0).withLengths (backwardWell " INC " 10.0) fun _ => -5.0).validate
        = .ok () := by
  have hvalidate : (backwardDeck " INC " 10.0).validate = .ok () := by decide +kernel
  have hmem : backwardWell " INC " 10.0 ∈ (backwardDeck " INC " 10.0).wells :=
    List.mem_singleton_self _
  obtain ⟨input, hinput⟩ := exists_of_isOk
    (show ((backwardWell " INC " 10.0).toInput .metric).isOk = true by decide +kernel)
  obtain ⟨hmode, -, hany⟩ := lengths_of_incremental _ hvalidate _ hmem input hinput
  exact ⟨input, hvalidate, hmem, hinput, hmode.2 (by decide +kernel),
    hany (by decide +kernel) fun _ => -5.0⟩

/-- **Validation may pass over the lengths of a well of changes.**  The word for the mode of
this well has blanks around it: it is accepted and converted to changes, although its only
record is well-formed and has a negative length. The bare word is refused. -/
theorem negative_length_of_padded_mode :
    ∃ input, (backwardDeck " INC " (-5.0)).validate = .ok () ∧
      (backwardWell " INC " (-5.0)).toInput .metric = .ok input ∧
      input.definition.header.mode = .incremental ∧
      (∃ r ∈ (backwardWell " INC " (-5.0)).tree.records, r.WellFormed ∧ r.length ≤ 0.0) ∧
      (backwardDeck "INC" (-5.0)).validate
        = .error (.invalidValue (.lengthNotPositive (-5.0))) := by
  have h : ((backwardWell " INC " (-5.0)).toInput .metric).map
      (fun input => input.definition.header.mode) = .ok .incremental := by
    decide +kernel
  obtain ⟨input, hinput, hmode⟩ := map_eq_ok.1 h
  exact ⟨input, by decide +kernel, hinput, hmode,
    ⟨_, List.mem_singleton_self _, ⟨by decide, by decide⟩, by decide +kernel⟩, by decide +kernel⟩

end Deck
end MultiSegmentWell
