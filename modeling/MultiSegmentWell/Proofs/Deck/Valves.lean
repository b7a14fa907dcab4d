/-
# Which data of a built valve are known

SPEC_FULL.md, 4.1: defaults of a valve; 3: the invalid sentinel.

A valve takes what it does not give from its segment, so its data are known as far as those of
the segment are. In a validated deck whose numbers are known, that depends on the place of the
segment (`knownBy_of_buildNamed`).

The top segment has the length of the header and no pipe: what a valve on it does not give of a
pipe stays unknown (`KnownOnTop`). Behind it, diameter and area come from a record with a positive
diameter. The length is a difference of two lengths, which is refused if it is not positive, so
it is known unless it is no number; the roughness is what the record gives, limited by its
diameter (`KnownBehindTop`).
-/

import MultiSegmentWell.Proofs.Deck.RoundTrip
import MultiSegmentWell.Proofs.Deck.Validated
import MultiSegmentWell.Proofs.Number.Known
import MultiSegmentWell.Proofs.Tree.Divisors
import MultiSegmentWell.Proofs.Tree.Valves

namespace MultiSegmentWell

open Quantity (isKnown)

namespace SegmentSet

variable {s r : SegmentSet} {d : TreeDefinition} {options : Options} {t u : Segment} {v : Valve}
variable {devices : List (Int × Device)} {connections : List Connection}

/-- Loading attaches no devices. -/
theorem device_of_load (h : (s.load d options).outcome = .ok r) (hu : u ∈ r.segments) :
    u.device = .regular := by
  obtain ⟨w, hw, heq, -⟩ := (exists_described_of_load h).2 u hu
  have hdevice : u.device = w.device := by rw [heq]
  rw [hdevice]
  obtain rfl | ⟨-, record, -, hsegment⟩ := cases_of_mem_described (load_eq_ok.1 h).2.1 hw
  · rfl
  · rw [hsegment]
    rfl

/-- The top segment has no pipe of its own. -/
theorem pipe_top_of_load (h : (s.load d options).outcome = .ok r) (hu : u ∈ r.segments)
    (hn : u.number = topNumber) : u.pipe = Pipe.unknown := by
  obtain ⟨w, hw, heq, -⟩ := (exists_described_of_load h).2 u hu
  have hpipe : u.pipe = w.pipe := by rw [heq]
  have hnumber : w.number = u.number := by rw [heq]
  rw [hpipe]
  obtain rfl | ⟨hne, -⟩ := cases_of_mem_described (load_eq_ok.1 h).2.1 hw
  · rfl
  · exact absurd (hnumber.trans hn) hne

/-- **A valve comes from a device that is attached.** -/
theorem Indexed.exists_attachValve_of_attachScaledDevices (hs : s.Indexed)
    (h : s.attachScaledDevices devices connections = .ok r) (ht : t ∈ r.segments)
    (hv : t.device = .valve v) (hnone : ∀ u ∈ s.segments, u.device = .regular) :
    ∃ u ∈ s.segments, ∃ given length, (u.number, Device.valve given) ∈ devices ∧
      s.segmentLength u.number = .ok length ∧ t = u.attachValve given length := by
  obtain ⟨scaled, hscaled, h⟩ := attachScaledDevices_eq_ok_iff.1 h
  obtain ⟨hattachable, rfl⟩ := hs.attachDevices_eq_ok_iff.1 h
  obtain ⟨u, hu, rfl⟩ := List.mem_map.1 ht
  have hrel := hscaled.rel_lastDevice? u.number
  rw [withLastDevice] at hv ⊢
  generalize hlast : lastDevice? devices u.number = last at hrel
  generalize hlast' : lastDevice? scaled u.number = last' at hrel hv ⊢
  cases hrel with
  | none =>
    rw [hnone u hu] at hv
    cases hv
  | @some device device' hdevice =>
    have hkind := hdevice.kind_eq
    cases device' with
    | regular | spiralIcd | autonomousIcd => cases hv
    | valve given =>
      have hgiven : device = .valve given := by
        cases device with
        | regular | spiralIcd | autonomousIcd => cases hkind
        | valve =>
          cases hdevice with
          | other => rfl
          | icd hicd => cases hicd
      obtain ⟨length, hlength⟩ :=
        hattachable.measured _ (mem_of_lastDevice? hlast') given rfl
      refine ⟨u, hu, given, length, mem_of_lastDevice? (hgiven ▸ hlast), hlength, ?_⟩
      show u.attachValve given (s.lengthOrZero u.number) = _
      rw [lengthOrZero, hlength]
      rfl

/-- The length of a segment behind the top one is what its node and that of its outlet are
apart. -/
theorem Indexed.exists_sub_eq_segmentLength (hs : s.Indexed) (ht : t ∈ s.segments)
    (hn : t.number ≠ topNumber) {length : Float} (h : s.segmentLength t.number = .ok length) :
    ∃ o ∈ s.segments, o.number = t.outlet ∧ length = t.node.length - o.node.length := by
  obtain ⟨t', ht', h⟩ := bind_eq_ok.1 h
  obtain ⟨hmem, hnumber⟩ := hs.get?_eq_some_iff.1 (get_eq_ok.1 ht')
  obtain rfl : t' = t := List.inj_on_of_nodup_map hs.nodup hmem ht hnumber
  rw [if_neg hn] at h
  obtain ⟨o, ho, h⟩ := bind_eq_ok.1 h
  obtain ⟨homem, honumber⟩ := hs.get?_eq_some_iff.1 (get_eq_ok.1 ho)
  dsimp only at h
  split_ifs at h
  exact ⟨o, homem, honumber, (Except.ok.inj h).symm⟩

/-- **A length is known unless it is no number.** -/
theorem Indexed.isKnown_length_iff (hs : s.Indexed) (ht : t ∈ s.segments)
    (hn : t.number ≠ topNumber) {length : Float} (h : s.segmentLength t.number = .ok length) :
    isKnown length = true ↔
      ∃ o ∈ s.segments, o.number = t.outlet ∧ ¬ NoDifference t.node.length o.node.length := by
  obtain ⟨o, ho, hnumber, hlength⟩ := hs.exists_sub_eq_segmentLength ht hn h
  rw [Quantity.isKnown_iff_of_not_le_zero (not_le_zero_of_segmentLength h hn), hlength,
    ← Bool.not_eq_true, Double.isNaN_sub_iff]
  refine ⟨fun hdifference => ⟨o, ho, hnumber, hdifference⟩, ?_⟩
  rintro ⟨o', ho', hnumber', hdifference⟩
  obtain rfl : o' = o := List.inj_on_of_nodup_map hs.nodup ho' ho (hnumber'.trans hnumber.symm)
  exact hdifference

/-- What is built from an input has its tree, with a valve from its devices where there is one. -/
theorem exists_attachValve_of_build {input : WellInput} {b : BuiltWell}
    (h : (input.build options).outcome = .ok b) (ht : t ∈ b.segments.segments)
    (hv : t.device = .valve v) : b.segments.Indexed ∧ ∃ q,
      (({} : SegmentSet).load input.definition options).outcome = .ok q ∧
      (∀ n, b.segments.segmentLength n = q.segmentLength n) ∧
      ∃ u ∈ q.segments, ∃ perfLength given length, (u.number, Device.valve given) ∈ input.devices ∧
        q.segmentLength u.number = .ok length ∧
        t = (u.withPerfLength perfLength).attachValve given length := by
  obtain ⟨q, hload, h⟩ := Reported.bind_eq_ok.1 h
  obtain ⟨connections, -, h⟩ := bind_eq_ok.1 h
  obtain ⟨equipped, hequip, h⟩ := bind_eq_ok.1 h
  obtain rfl := Except.ok.inj h
  have hq := (settled_of_load hload).indexed
  have hassigned := hq.assignPerfLengths connections
  have hregular : ∀ u ∈ (q.assignPerfLengths connections).segments, u.device = .regular := by
    intro u hu
    obtain ⟨loaded, hloaded, rfl⟩ := List.mem_map.1 hu
    show loaded.device = .regular
    exact device_of_load hload hloaded
  have hlength : ∀ n, (q.assignPerfLengths connections).segmentLength n = q.segmentLength n :=
    segmentLength_congr hq hassigned rfl (layouts_assignPerfLengths q connections)
  rw [equip] at hequip
  split_ifs at hequip
  · obtain rfl := Except.ok.inj hequip
    rw [hregular t ht] at hv
    cases hv
  · obtain ⟨hindexed, hwell, hlayouts⟩ := hassigned.attachScaledDevices hequip
    obtain ⟨u, hu, given, length, hmem, hmeasured, rfl⟩ :=
      hassigned.exists_attachValve_of_attachScaledDevices hequip ht hv hregular
    obtain ⟨loaded, hloaded, rfl⟩ := List.mem_map.1 hu
    rw [hlength] at hmeasured
    refine ⟨hindexed, q, hload, fun n => ?_, loaded, hloaded, _, given, length, hmem, hmeasured,
      rfl⟩
    exact (segmentLength_congr hassigned hindexed hwell hlayouts n).trans (hlength n)

end SegmentSet

namespace Deck

open SegmentSet

variable {d : Deck} {w : WellEntry} {units : UnitSystem} {definition : TreeDefinition}
variable {v : Valve} {n : Int}

section Given

variable {x : Float}

/-- The numbers of the tree are among those of the well. -/
theorem WellEntry.mem_reals_of_tree (hx : x ∈ w.tree.reals) : x ∈ w.reals := by
  simp only [WellEntry.reals, List.mem_append, hx, true_or]

/-- The numbers of a valve are among those of the well. -/
theorem WellEntry.mem_reals_of_valve {entry : ValveEntry} (hentry : entry ∈ w.valves)
    (hx : x ∈ entry.reals) : x ∈ w.reals := by
  have hmem : x ∈ w.valves.flatMap ValveEntry.reals := List.mem_flatMap.2 ⟨entry, hentry, hx⟩
  simp only [WellEntry.reals, List.mem_append, hmem, or_true, true_or]

/-- The numbers of a range are among those of the tree. -/
theorem TreeEntry.mem_reals_of_record {t : TreeEntry} {entry : RangeEntry}
    (hentry : entry ∈ t.records) (hx : x ∈ entry.reals) : x ∈ t.reals :=
  List.mem_append_right _ (List.mem_flatMap.2 ⟨entry, hentry, hx⟩)

/-- A given number stays known where conversion keeps known numbers known. -/
theorem isKnown_of_mem_map {given : List Float} (hgiven : ∀ x ∈ given, isKnown x = true)
    {o : Option Float} (ho : ∀ x ∈ o.toList, x ∈ given) {convert : Float → Float}
    (hconvert : ∀ {x}, isKnown x = true → isKnown (convert x) = true) :
    ∀ y ∈ o.map convert, isKnown y = true := by
  intro y hy
  obtain ⟨x, hx, rfl⟩ := Option.map_eq_some_iff.1 hy
  exact hconvert (hgiven x (ho x (Option.mem_toList.2 hx)))

variable [UnitConversions]

/-- The valves among the devices of a well are its valves. -/
theorem WellEntry.exists_valve_of_mem_devices (h : (n, Device.valve v) ∈ w.devices units) :
    ∃ entry ∈ w.valves, entry.segment = n ∧ v = entry.toValve units := by
  simp only [devices, List.mem_append, List.mem_map, Prod.mk.injEq] at h
  obtain (⟨_, -, -, hdevice⟩ | ⟨_, -, -, hdevice⟩) | ⟨entry, hentry, hn, hdevice⟩ := h
  · cases hdevice
  · cases hdevice
  · exact ⟨entry, hentry, hn, (Device.valve.inj hdevice).symm⟩

variable (hconversions : UnitConversions.Lawful)
include hconversions

/-- The numbers of a valve stay known in SI units. -/
theorem ValveEntry.givesKnown_toValve {entry : ValveEntry}
    (h : ∀ x ∈ entry.reals, isKnown x = true) : (entry.toValve units).GivesKnown where
  maxCrossArea := by
    refine isKnown_of_mem_map h (fun x hx => ?_) (UnitSystem.isKnown_areaToSI hconversions)
    simp only [reals, List.mem_append, hx, or_true]
  additionalLength := by
    refine isKnown_of_mem_map h (fun x hx => ?_) (UnitSystem.isKnown_lengthToSI hconversions)
    simp only [reals, List.mem_append, hx, or_true, true_or]
  pipeDiameter := by
    refine isKnown_of_mem_map h (fun x hx => ?_) (UnitSystem.isKnown_lengthToSI hconversions)
    simp only [reals, List.mem_append, hx, or_true, true_or]
  pipeRoughness := by
    refine isKnown_of_mem_map h (fun x hx => ?_) (UnitSystem.isKnown_lengthToSI hconversions)
    simp only [reals, List.mem_append, hx, or_true, true_or]
  pipeCrossArea := by
    refine isKnown_of_mem_map h (fun x hx => ?_) (UnitSystem.isKnown_areaToSI hconversions)
    simp only [reals, List.mem_append, hx, or_true, true_or]

/-- Diameter and area of a record are known in SI units. -/
theorem RangeEntry.isKnown_pipe {entry : RangeEntry} (h : ∀ x ∈ entry.reals, isKnown x = true)
    (hpositive : ¬ entry.diameter ≤ 0.0) : isKnown (entry.toRecord units).diameter = true ∧
      isKnown (entry.toRecord units).crossArea = true := by
  have hdiameter : isKnown entry.diameter = true := h _ (by simp [reals])
  refine ⟨UnitSystem.isKnown_lengthToSI hconversions hdiameter, ?_⟩
  rw [RangeRecord.crossArea]
  show isKnown ((entry.area.map units.areaToSI).getD _) = true
  cases harea : entry.area with
  | some a => exact UnitSystem.isKnown_areaToSI hconversions (h a (by simp [reals, harea]))
  | none =>
    have hzero := Quantity.zero_le_of_not_le_zero (Quantity.isNaN_eq_false_of_isKnown hdiameter)
      hpositive
    exact Quantity.isKnown_of_zero_le
      (RangeRecord.zero_le_circle (UnitSystem.zero_le_lengthToSI hconversions hzero))

end Given

/-- What is known of a valve on the top segment: the length of the header, and of the pipe what
the valve gives. -/
structure KnownOnTop (given : ValveEntry) (v : Valve) : Prop where
  additionalLength : v.additionalLength.any isKnown = true
  pipeDiameter : v.pipeDiameter.any isKnown = true ↔ given.pipeDiameter.isSome = true
  pipeRoughness : v.pipeRoughness.any isKnown = true ↔ given.pipeRoughness.isSome = true
  pipeCrossArea : v.pipeCrossArea.any isKnown = true ↔ given.pipeCrossArea.isSome = true
  maxCrossArea : v.maxCrossArea.any isKnown = true ↔
    given.maxCrossArea.isSome = true ∨ given.pipeCrossArea.isSome = true

/-- What is known of a valve on another segment of a set, which comes from a record. -/
structure KnownBehindTop (s : SegmentSet) (t : Segment) (record : RangeRecord)
    (given : ValveEntry) (v : Valve) : Prop where
  pipeDiameter : v.pipeDiameter.any isKnown = true
  pipeCrossArea : v.pipeCrossArea.any isKnown = true
  maxCrossArea : v.maxCrossArea.any isKnown = true
  /-- The length is missing only where it is no number. -/
  additionalLength : v.additionalLength.any isKnown = true ↔ given.additionalLength.isSome = true ∨
    ∃ o ∈ s.segments, o.number = t.outlet ∧ ¬ NoDifference t.node.length o.node.length
  pipeRoughness : v.pipeRoughness.any isKnown = true ↔
    given.pipeRoughness.isSome = true ∨ isKnown record.segmentRoughness = true
  /-- A roughness that is zero or more is known in a pipe of a finite diameter. -/
  pipeRoughness_of_finite : record.diameter.isFinite = true → record.diameter > 0.0 →
    0.0 ≤ record.roughness → v.pipeRoughness.any isKnown = true

section Building

variable [UnitConversions] (hconversions : UnitConversions.Lawful)
include hconversions

variable {b : BuiltWell} {t u : Segment} {q : SegmentSet} {options : Options} {given : ValveEntry}

/-- A valve on the top segment is completed from the header and from no pipe. -/
theorem knownOnTop (hdefinition : w.tree.toDefinition units = .ok definition)
    (hload : (({} : SegmentSet).load definition options).outcome = .ok q) (hu : u ∈ q.segments)
    (hn : u.number = topNumber) {length : Float} (hlength : q.segmentLength u.number = .ok length)
    (htop : isKnown w.tree.topLength = true)
    (hv : v.KnownBy (given.toValve units) length u.pipe) : KnownOnTop given v := by
  have hknown : isKnown length = true := by
    rw [hn, segmentLength_top_of_load hload] at hlength
    obtain ⟨mode, -, h⟩ := bind_eq_ok.1 hdefinition
    obtain ⟨pressureDrop, -, h⟩ := bind_eq_ok.1 h
    obtain ⟨flowModel, -, h⟩ := bind_eq_ok.1 h
    obtain rfl := Except.ok.inj h
    obtain rfl := Except.ok.inj hlength
    exact UnitSystem.isKnown_lengthToSI hconversions htop
  rw [pipe_top_of_load hload hu hn] at hv
  obtain ⟨hadditional, hdiameter, hroughness, harea, hmax⟩ := hv
  simp only [Pipe.unknown, Quantity.isKnown_unknown, ValveEntry.toValve, Option.isSome_map,
    Bool.false_eq_true, or_false] at hdiameter hroughness harea hmax
  exact ⟨hadditional.2 (.inr hknown), hdiameter, hroughness, harea, hmax⟩

/-- A valve on another segment is completed from its record. -/
theorem knownBehindTop (hs : b.segments.Indexed) (ht : t ∈ b.segments.segments)
    (hn : t.number ≠ topNumber) {length : Float}
    (hlength : b.segments.segmentLength t.number = .ok length) {entry : RangeEntry}
    (hentry : ∀ x ∈ entry.reals, isKnown x = true) (hpositive : ¬ entry.diameter ≤ 0.0)
    {pipe : Pipe} (hpipe : pipe = ⟨(entry.toRecord units).diameter,
      (entry.toRecord units).segmentRoughness, (entry.toRecord units).crossArea⟩)
    (hv : v.KnownBy (given.toValve units) length pipe) :
    KnownBehindTop b.segments t (entry.toRecord units) given v := by
  obtain ⟨hknownDiameter, hknownArea⟩ : isKnown (entry.toRecord units).diameter = true ∧
      isKnown (entry.toRecord units).crossArea = true := entry.isKnown_pipe hconversions hentry hpositive
  rw [hpipe] at hv
  obtain ⟨hadditional, hdiameter, hroughness, harea, hmax⟩ := hv
  simp only [ValveEntry.toValve, Option.isSome_map] at hadditional hroughness
  refine ⟨hdiameter.2 (.inr hknownDiameter), harea.2 (.inr hknownArea),
    hmax.2 (.inr (.inr hknownArea)), ?_, hroughness, fun hfinite hpos hzero => ?_⟩
  · rw [hadditional, hs.isKnown_length_iff ht hn hlength]
  · exact hroughness.2 (.inr (Quantity.isKnown_of_zero_le
      (Quantity.zero_le_limitRoughness hfinite hpos hzero)))

/-- **What is known of the valves of a built well.**  In a validated deck whose numbers are known,
every valve of a well that is built by its name has all optional data, and those of its pipe are
those of its segment. It comes from a valve of the deck for this segment. On the top segment the
data of the pipe are known exactly if that valve gives them. On every other segment they are
known, except for a length that is no number and for a roughness that is not known of the
record. This holds of all lawful conversions between units. -/
theorem knownBy_of_buildNamed (d : Deck) (hvalidate : d.validate = .ok ())
    (hknown : ∀ x ∈ d.reals, isKnown x = true) (w : WellEntry) (hw : w ∈ d.wells) (b : BuiltWell)
    (hbuild : (d.buildNamed w.name).outcome = .ok b) :
    ∀ t ∈ b.segments.segments, ∀ v, t.device = .valve v →
      v.CompleteFor t.pipe ∧ ∃ given ∈ w.valves, given.segment = t.number ∧
        (t.number = topNumber → KnownOnTop given v) ∧
        (t.number ≠ topNumber → ∃ entry ∈ w.tree.records, t.number ∈ entry.numbers ∧
          KnownBehindTop b.segments t (entry.toRecord d.units) given v) := by
  intro t ht v hv
  have hacceptable := acceptable_of_validate hvalidate hw
  have hreals : ∀ x ∈ w.reals, isKnown x = true :=
    fun x hx => hknown x (List.mem_flatMap.2 ⟨w, hw, hx⟩)
  rw [buildNamed_eq_buildWell (nodup_names_of_validate hvalidate) hw] at hbuild
  obtain ⟨input, hinput, hbuild⟩ := buildWell_eq_ok.1 hbuild
  obtain ⟨definition, hdefinition, rfl⟩ := WellEntry.toInput_eq_ok.1 hinput
  obtain ⟨hindexed, q, hload, hlengths, u, hu, perfLength, valve, length, hmem, hlength, rfl⟩ :=
    exists_attachValve_of_build hbuild ht hv
  obtain ⟨given, hgiven, hsegment, rfl⟩ := WellEntry.exists_valve_of_mem_devices hmem
  obtain rfl := Device.valve.inj hv
  have hgives : (given.toValve d.units).GivesKnown := ValveEntry.givesKnown_toValve hconversions fun x hx =>
    hreals x (WellEntry.mem_reals_of_valve hgiven hx)
  have hby := Segment.knownBy_completeValve hgives u length
  refine ⟨Segment.completeFor_completeValve _ _ _, given, hgiven, hsegment, fun hn => ?_,
    fun hn => ?_⟩
  · have htop : isKnown w.tree.topLength = true :=
      hreals _ (WellEntry.mem_reals_of_tree (by simp [TreeEntry.reals]))
    exact knownOnTop hconversions hdefinition hload hu hn hlength htop hby
  · obtain ⟨record, hrecord, hpipe⟩ := exists_givenBy_of_load hload hu hn
    obtain ⟨hmem, hfirst, hlast⟩ := TreeDefinition.mem_and_covers_of_recordOf? hrecord
    have hlow := RangeRecord.top_lt_first_of_check ((load_eq_ok.1 hload).2.1 record hmem)
    rw [(TreeEntry.well_and_records_of_toDefinition hdefinition).2] at hmem
    obtain ⟨entry, hentry, rfl⟩ := List.mem_map.1 hmem
    have hpositive := hacceptable.diameter entry hentry ⟨hlow, Int.le_trans hfirst hlast⟩
    refine ⟨entry, hentry, mem_numbersBetween.2 ⟨hfirst, hlast⟩, ?_⟩
    exact knownBehindTop hconversions hindexed ht hn ((hlengths _).trans hlength)
      (fun x hx => hreals x (WellEntry.mem_reals_of_tree (TreeEntry.mem_reals_of_record hentry hx)))
      hpositive hpipe.pipe hby

end Building

/-- A well of two segments with a valve that gives nothing of its pipe. -/
def valveWell (segment : Int) : WellEntry where
  tree := {
    well := "W", topDepth := 1000.0, topLength := 100.0, volume := 1.0, mode := "INC"
    records := [{
      first := 2, last := 2, branch := 1, join := 1, length := 10.0, depth := 5.0, diameter := 0.2
      roughness := 1.0e-4 }] }
  valves := [{ segment, flowCoefficient := 0.7, crossArea := 0.01 }]

/-- A deck with that well only. -/
def valveDeck (segment : Int) : Deck where
  version := 1
  wells := [valveWell segment]

/-- The valve on segment 2 of the deck, with the conversions by the sizes of units. -/
theorem knownBy_of_buildNamed_second :
    UnitConversions.Lawful ∧ (valveDeck 2).validate = .ok () ∧ (∀ x ∈ (valveDeck 2).reals, isKnown x = true) ∧
      valveWell 2 ∈ (valveDeck 2).wells ∧
      ∃ b, ((valveDeck 2).buildNamed (valveWell 2).name).outcome = .ok b ∧
        ∃ t ∈ b.segments.segments, ∃ v, t.number = 2 ∧ t.device = .valve v ∧
          v.CompleteFor t.pipe ∧
          ∃ entry ∈ (valveWell 2).tree.records, ∃ given ∈ (valveWell 2).valves,
            KnownBehindTop b.segments t (entry.toRecord .metric) given v := by
  have hvalidate : (valveDeck 2).validate = .ok () := by decide
  have hknown : ∀ x ∈ (valveDeck 2).reals, isKnown x = true := by decide +kernel
  have hmem : valveWell 2 ∈ (valveDeck 2).wells := List.mem_singleton_self _
  have hok : ((valveDeck 2).buildNamed (valveWell 2).name).outcome.map (fun b =>
      decide (∃ t ∈ b.segments.segments, t.number = 2 ∧ t.device.kind = .valve)) = .ok true := by
    decide
  obtain ⟨b, hbuild, hdecide⟩ := map_eq_ok.1 hok
  obtain ⟨t, ht, hn, hkind⟩ := of_decide_eq_true hdecide
  obtain ⟨v, hv⟩ : ∃ v, t.device = .valve v := by
    cases hdevice : t.device with
    | valve v => exact ⟨v, rfl⟩
    | regular | spiralIcd | autonomousIcd =>
      rw [hdevice] at hkind
      cases hkind
  have hbehind : t.number ≠ topNumber := by
    rw [hn]
    decide
  obtain ⟨hcomplete, given, hgiven, -, -, hother⟩ :=
    knownBy_of_buildNamed UnitConversions.lawful_bySize (valveDeck 2) hvalidate hknown
      (valveWell 2) hmem b hbuild t ht v hv
  obtain ⟨entry, hentry, -, hentryKnown⟩ := hother hbehind
  exact ⟨UnitConversions.lawful_bySize, hvalidate, hknown, hmem, b, hbuild, t, ht, v, hn, hv,
    hcomplete, entry, hentry, given, hgiven, hentryKnown⟩

/-- **A valve on the top segment stays without a pipe.**  The deck is validated and its numbers
are known, and the well is built; the valve has the marker for what is not known in four of its
five data. -/
theorem unknown_pipe_of_top_valve :
    (valveDeck 1).validate = .ok () ∧ (∀ x ∈ (valveDeck 1).reals, isKnown x = true) ∧
      ∃ b, ((valveDeck 1).buildNamed "W").outcome = .ok b ∧
        ∃ t ∈ b.segments.segments, t.number = 1 ∧ t.device = .valve {
          flowCoefficient := 0.7, crossArea := 0.01, additionalLength := some 100.0
          pipeDiameter := some Quantity.unknown, pipeRoughness := some Quantity.unknown
          pipeCrossArea := some Quantity.unknown, maxCrossArea := some Quantity.unknown } := by
  have hok : ((valveDeck 1).buildNamed "W").outcome.map (fun b =>
      decide (∃ t ∈ b.segments.segments, t.number = 1 ∧ t.device = .valve {
        flowCoefficient := 0.7, crossArea := 0.01, additionalLength := some 100.0
        pipeDiameter := some Quantity.unknown, pipeRoughness := some Quantity.unknown
        pipeCrossArea := some Quantity.unknown, maxCrossArea := some Quantity.unknown }))
      = .ok true := by
    decide +kernel
  obtain ⟨b, hbuild, hdecide⟩ := map_eq_ok.1 hok
  exact ⟨by decide, by decide +kernel, b, hbuild, of_decide_eq_true hdecide⟩

end Deck
end MultiSegmentWell
