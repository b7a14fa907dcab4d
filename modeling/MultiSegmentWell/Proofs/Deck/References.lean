/-
# Connections with an undefined segment

SPEC_FULL.md, 6: references to segments never defined; 4.6: a missing or zero segment.

Validation refuses a connection whose segment is neither the top one nor in a well-formed
range. A tree that is loaded from the records of the well has just the defined segments, so
allocating such a connection on it fails for an unknown segment, too
(`SegmentSet.Indexed.allocate_of_not_mem`).

The two part ways at number 0. Allocation reads it as no number at all and looks for the
segment by the middle of the interval (`SegmentSet.connect_of_zero`); validation looks it up
like every other number, and no deck defines it. So 0 is the only number that is refused
although it might be placed (`unknownSegment_of_missingSegment`).
-/

import MultiSegmentWell.Proofs.Deck.Validated

namespace MultiSegmentWell

namespace SegmentSet

variable {s r : SegmentSet} {p : Perforation} {n : Int}

/-- **A perforation that names a segment that is not stored is not allocated.** -/
theorem Indexed.allocate_of_not_mem (hs : s.Indexed) (hresolved : s.resolved = true)
    (hp : p.segment = some n) (hn : n ≠ 0) (hmem : n ∉ s.numbers) :
    s.allocate [p] = .error (.unknownSegment s.well n) := by
  have hnamed : p.segment.filter (· != 0) = some n := by
    rw [hp, Option.filter_some, if_pos (bne_iff_ne.2 hn)]
  have htarget : s.target p = .error (.unknownSegment s.well n) := by
    rw [target, hnamed]
    exact map_eq_error.2 (hs.get_of_not_mem hmem)
  have hconnect : s.connect p = .error (.unknownSegment s.well n) := by
    rw [connect, htarget]
    rfl
  refine bind_eq_error.2 (.inr ⟨(), if_pos hresolved, ?_⟩)
  exact mapM_eq_error.2 ⟨[], p, [], rfl, by simp, hconnect⟩

/-- A perforation that names number 0 names no segment. -/
theorem connect_of_zero (hp : p.segment = some 0) :
    s.connect p = s.connect { p with segment := none } := by
  have htarget : s.target p = s.target { p with segment := none } := by
    rw [target, hp]
    rfl
  rw [connect, connect, htarget]
  rfl

/-- **A perforation with segment 0 is allocated as one without a segment.** -/
theorem allocate_of_zero (hp : p.segment = some 0) :
    s.allocate [p] = s.allocate [{ p with segment := none }] := by
  rw [allocate, allocate, List.mapM_cons, List.mapM_cons, connect_of_zero hp]

end SegmentSet

namespace Deck

open SegmentSet

variable {t : TreeEntry} {w : WellEntry} {c : ConnectionEntry} {d : Deck}
variable {well : String} {referrer : Referrer} {n : Int}

section Refusing

/-- A word for a setting is refused as a value. -/
theorem TreeEntry.checkSettings_ne_missingSegment :
    t.checkSettings ≠ .error (.missingSegment well referrer n) := by
  intro h
  unfold checkSettings at h
  dsimp only at h
  split_ifs at h <;> cases h

/-- Ranges refer to no segment. -/
theorem TreeEntry.checkRanges_ne_missingSegment {earlier records : List RangeEntry} :
    t.checkRanges earlier records ≠ .error (.missingSegment well referrer n) := by
  induction records generalizing earlier with
  | nil => exact fun h => by cases h
  | cons r rest ih =>
    intro h
    rw [checkRanges] at h
    split at h
    · exact ih h
    · split at h
      · cases h
      · split_ifs at h
        · cases h
        · cases h
        · exact ih h

namespace WellEntry

/-- A reference is refused for a number that the well does not define, and for nothing else. -/
theorem checkReference_eq_error {e : ValidationError}
    (h : w.checkReference referrer n = .error e) :
    e = .missingSegment w.name referrer n ∧ ¬ w.tree.Defines n := by
  rw [checkReference] at h
  split_ifs at h with hdefines
  exact ⟨(Except.error.inj h).symm, mt TreeEntry.defines_iff.2 hdefines⟩

/-- A missing segment of a device is refused for the list of the device. -/
theorem referrer_mem_of_checkDevices {earlier : List Int} {devices : List (Referrer × Int)}
    (h : w.checkDevices earlier devices = .error (.missingSegment well referrer n)) :
    referrer ∈ devices.map Prod.fst := by
  induction devices generalizing earlier with
  | nil => cases h
  | cons device rest ih =>
    obtain ⟨first, m⟩ := device
    obtain hreference | ⟨_, -, h⟩ := bind_eq_error.1 h
    · obtain ⟨heq, -⟩ := checkReference_eq_error hreference
      obtain ⟨-, rfl, -⟩ := ValidationError.missingSegment.inj heq
      exact List.mem_cons_self
    · split_ifs at h
      · cases h
      · exact List.mem_cons_of_mem first (ih h)

/-- Connections are not among the devices. -/
theorem connections_not_mem_deviceSegments (w : WellEntry) :
    Referrer.connections ∉ w.deviceSegments.map Prod.fst := by
  simp [deviceSegments]

/-- A connection that is refused for its segment names one that the well does not define. -/
theorem checkConnection_eq_missingSegment
    (h : w.checkConnection c = .error (.missingSegment well referrer n)) :
    well = w.name ∧ c.segment = some n ∧ ¬ w.tree.Defines n := by
  have hvalues : (if c.branch < 1 then .error (.invalidValue (.branchTooLow c.branch))
      else if c.finish < c.start then .error (.invalidValue (.endsBeforeStart c.finish))
      else .ok () : Except ValidationError Unit) ≠ .error (.missingSegment well referrer n) := by
    split_ifs <;> exact fun hvalue => by cases hvalue
  rw [checkConnection] at h
  split at h
  · rename_i m hm
    obtain hreference | ⟨_, -, h⟩ := bind_eq_error.1 h
    · obtain ⟨heq, hdefines⟩ := checkReference_eq_error hreference
      obtain ⟨rfl, -, rfl⟩ := ValidationError.missingSegment.inj heq
      exact ⟨rfl, hm, hdefines⟩
    · exact absurd h hvalues
  · exact absurd h hvalues

/-- **What a missing segment of connections says of the well.** -/
theorem exists_connection_of_check
    (h : w.check = .error (.missingSegment well .connections n)) :
    well = w.name ∧ ¬ w.tree.Defines n ∧ ∃ c ∈ w.connections, c.segment = some n := by
  obtain hsettings | ⟨_, -, h⟩ := bind_eq_error.1 h
  · exact absurd hsettings TreeEntry.checkSettings_ne_missingSegment
  obtain hranges | ⟨_, -, h⟩ := bind_eq_error.1 h
  · exact absurd hranges TreeEntry.checkRanges_ne_missingSegment
  obtain hdevices | ⟨_, -, h⟩ := bind_eq_error.1 h
  · exact absurd (referrer_mem_of_checkDevices hdevices) w.connections_not_mem_deviceSegments
  obtain ⟨c, hc, hfails⟩ := exists_of_forM_eq_error h
  obtain ⟨hwell, hsegment, hdefines⟩ := checkConnection_eq_missingSegment hfails
  exact ⟨hwell, hdefines, c, hc, hsegment⟩

end WellEntry

/-- The well that is refused for a missing segment is the first one with its name. -/
theorem exists_find?_of_checkWells {earlier : List String} {wells : List WellEntry}
    (h : checkWells earlier wells = .error (.missingSegment well .connections n)) :
    well ∉ earlier ∧ ∃ w, (wells.find? fun w => w.name == well) = some w ∧
      w.check = .error (.missingSegment well .connections n) := by
  induction wells generalizing earlier with
  | nil => cases h
  | cons w rest ih =>
    rw [checkWells] at h
    split_ifs at h with hblank hearlier
    · cases h
    · cases h
    obtain hcheck | ⟨_, -, hrest⟩ := bind_eq_error.1 h
    · obtain ⟨rfl, -⟩ := WellEntry.exists_connection_of_check hcheck
      rw [List.contains_iff_mem] at hearlier
      exact ⟨hearlier, w, List.find?_cons_of_pos (beq_self_eq_true w.name), hcheck⟩
    · obtain ⟨hnew, v, hv, hcheck⟩ := ih hrest
      rw [List.mem_cons, not_or] at hnew
      have hother : (w.name == well) = false := beq_false_of_ne (Ne.symm hnew.1)
      exact ⟨hnew.2, v, by rw [List.find?_cons, hother]; exact hv, hcheck⟩

end Refusing

/-- A tree loaded from the records of a well has defined segments only. -/
theorem TreeEntry.defines_of_mem_numbers [UnitConversions] {units : UnitSystem}
    {definition : TreeDefinition} {options : Options} {s r : SegmentSet} (hdefinition : t.toDefinition units = .ok definition)
    (hload : (s.load definition options).outcome = .ok r) (hn : n ∈ r.numbers) : t.Defines n := by
  obtain rfl | ⟨record, hrecord, hfirst, hlast⟩ := ((expands_of_load hload).mem_numbers n).1 hn
  · exact .inl rfl
  · have htop := RangeRecord.top_lt_first_of_check ((load_eq_ok.1 hload).2.1 record hrecord)
    rw [(well_and_records_of_toDefinition hdefinition).2] at hrecord
    obtain ⟨entry, hentry, rfl⟩ := List.mem_map.1 hrecord
    have hwell : entry.WellFormed := ⟨htop, Int.le_trans hfirst hlast⟩
    exact .inr ⟨entry, hentry, hwell, mem_numbersBetween.2 ⟨hfirst, hlast⟩⟩

/-- **A connection is refused for a missing segment** by validation where allocation would
refuse it as well, unless its number is 0.  The deck is refused at the first well of the name
that is reported, and a connection of that well names the number that is reported. If the
number is not 0, then on every tree that is loaded from the records of the well, in any units
and with any options, each connection with this number fails for an unknown segment with this
number. If it is 0, each such connection is allocated, on any set, as if it named no segment. -/
theorem unknownSegment_of_missingSegment [UnitConversions] (d : Deck) (well : String) (n : Int)
    (h : d.validate = .error (.missingSegment well .connections n)) :
    ∃ w, (d.wells.find? fun w => w.name == well) = some w ∧
      (∃ c ∈ w.connections, c.segment = some n) ∧
      (n ≠ 0 → ∀ units definition, w.tree.toDefinition units = .ok definition →
        ∀ (s : SegmentSet) options r, (s.load definition options).outcome = .ok r →
          ∀ c ∈ w.connections, c.segment = some n →
            r.allocate [c.toPerforation units] = .error (.unknownSegment well n)) ∧
      (n = 0 → ∀ units (r : SegmentSet), ∀ c ∈ w.connections, c.segment = some n →
        r.allocate [c.toPerforation units]
          = r.allocate [{ c with segment := none }.toPerforation units]) := by
  have hwells : checkWells [] d.wells = .error (.missingSegment well .connections n) := by
    rw [validate] at h
    split_ifs at h
    · exact h
    · cases h
  obtain ⟨-, w, hw, hcheck⟩ := exists_find?_of_checkWells hwells
  obtain ⟨rfl, hundefined, hconnection⟩ := WellEntry.exists_connection_of_check hcheck
  refine ⟨w, hw, hconnection, fun hn units definition hdefinition s options r hload c _ hc => ?_,
    fun hn units r c _ hc => allocate_of_zero (hn ▸ hc)⟩
  have hmissing : n ∉ r.numbers :=
    fun hmem => hundefined (TreeEntry.defines_of_mem_numbers hdefinition hload hmem)
  have hwell : r.well = w.name :=
    (well_of_load hload).trans (TreeEntry.well_and_records_of_toDefinition hdefinition).1
  rw [← hwell]
  exact (settled_of_load hload).indexed.allocate_of_not_mem (resolved_of_load hload) hc hn hmissing

/-- A perforation near the end of the only segment behind the top one, with a number given for
its segment. -/
def referringConnection (n : Int) : ConnectionEntry where
  start := 106.0
  finish := 110.0
  segment := some n

/-- A well with that perforation. -/
def referringWell (n : Int) : WellEntry where
  tree := {
    well := "W", topDepth := 1000.0, topLength := 100.0, volume := 1.0, mode := "INC"
    records := [{
      first := 2, last := 2, branch := 1, join := 1, length := 10.0, depth := 5.0, diameter := 0.2
      roughness := 1.0e-4 }] }
  connections := [referringConnection n]

/-- A deck with that well only. -/
def referringDeck (n : Int) : Deck where
  version := 1
  wells := [referringWell n]

/-- Validation refuses the connection on segment 7, and on the tree of the well it cannot be
allocated. -/
theorem unknownSegment_of_missingSegment_undefined :
    (referringDeck 7).validate = .error (.missingSegment "W" .connections 7) ∧
      ∃ definition r, (referringWell 7).tree.toDefinition .metric = .ok definition ∧
        (({} : SegmentSet).load definition {}).outcome = .ok r ∧
        r.allocate [(referringConnection 7).toPerforation .metric]
          = .error (.unknownSegment "W" 7) := by
  have hrefused : (referringDeck 7).validate = .error (.missingSegment "W" .connections 7) := by
    decide
  have hbuilt : ((referringWell 7).tree.toDefinition .metric >>= fun definition =>
      (({} : SegmentSet).load definition {}).outcome).isOk = true := by
    decide
  obtain ⟨r, hr⟩ := exists_of_isOk hbuilt
  obtain ⟨definition, hdefinition, hload⟩ := bind_eq_ok.1 hr
  obtain ⟨w, hw, -, hunknown, -⟩ := unknownSegment_of_missingSegment _ _ _ hrefused
  obtain rfl : referringWell 7 = w := Option.some.inj hw
  exact ⟨hrefused, definition, r, hdefinition, hload,
    hunknown (by decide) .metric definition hdefinition {} {} r hload _
      (List.mem_singleton_self _) rfl⟩

/-- **Validation refuses a connection that can be placed.**  The connection gives 0 for its
segment. On the tree of the well it is allocated to segment 2, whose node is closest to its
middle. -/
theorem allocate_of_missingSegment :
    (referringDeck 0).validate = .error (.missingSegment "W" .connections 0) ∧
      ∃ definition r, (referringWell 0).tree.toDefinition .metric = .ok definition ∧
        (({} : SegmentSet).load definition {}).outcome = .ok r ∧
        r.allocate [(referringConnection 0).toPerforation .metric]
          = .ok [⟨2, 106.0, 110.0, some 1004.0⟩] := by
  have hplaced : ((referringWell 0).tree.toDefinition .metric >>= fun definition =>
      (({} : SegmentSet).load definition {}).outcome >>= fun r =>
        r.allocate [(referringConnection 0).toPerforation .metric])
      = .ok [⟨2, 106.0, 110.0, some 1004.0⟩] := by
    decide
  obtain ⟨definition, hdefinition, hplaced⟩ := bind_eq_ok.1 hplaced
  obtain ⟨r, hload, hplaced⟩ := bind_eq_ok.1 hplaced
  exact ⟨by decide, definition, r, hdefinition, hload, hplaced⟩

end Deck
end MultiSegmentWell
