/-
# Which decks are accepted

SPEC_FULL.md, 6: what validation rejects.

Validation goes through a deck once and stops at the first fault. A deck that it lets
through is one of the supported version in which all wells have names of their own and
each well is `Acceptable` (`validate_eq_ok_iff`).

Every check comes down to a statement about all entries of its list
(`TreeEntry.checkRanges_eq_ok`, `WellEntry.checkDevices_eq_ok`,
`WellEntry.checkConnection_eq_ok`): what is carried along the list are the entries that
stand in front, so pairs of entries are compared in list order.

The length of a record is only looked at where the word for the mode is the one for
changes, whatever the case of its letters. A word in another case, or with blanks around it,
is either refused before that or not compared at all, so the test is for the very word
(`TreeEntry.isIncremental_iff`).
-/

import MultiSegmentWell.Deck.Validation
import MultiSegmentWell.Proofs.Outcome
import Mathlib.Data.List.TakeWhile

namespace MultiSegmentWell

namespace Text

/-- Leaving blanks out at the ends leaves a part of the text. -/
theorem trimChars_sublist (cs : List Char) : (trimChars cs).Sublist cs := by
  have hend := (List.dropWhile_sublist isBlank (l := (cs.dropWhile isBlank).reverse)).reverse
  rw [List.reverse_reverse] at hend
  exact hend.trans (List.dropWhile_sublist isBlank)

/-- Nothing is left of blanks only. -/
theorem trimChars_eq_nil_iff {cs : List Char} :
    trimChars cs = [] ↔ ∀ c ∈ cs, isBlank c = true := by
  rw [trimChars, List.reverse_eq_nil_iff, List.dropWhile_eq_nil_iff]
  simp only [List.mem_reverse]
  refine ⟨fun h => ?_, fun h c hc => h c (List.dropWhile_sublist isBlank |>.subset hc)⟩
  -- What is left in front of the blanks would start with a character that is not blank.
  cases hrest : cs.dropWhile isBlank with
  | nil => exact List.dropWhile_eq_nil_iff.1 hrest
  | cons c rest =>
    have hc : isBlank c = true := h c (by rw [hrest]; exact List.mem_cons_self)
    have hfirst := List.head?_dropWhile_not isBlank cs
    rw [hrest] at hfirst
    simp [hc] at hfirst

/-- A text that is no longer than without the blanks at its ends has none there. -/
theorem trim_eq_self {text : String} (h : (trim text).toList.length = text.toList.length) :
    trim text = text := by
  have hlist : (trim text).toList = trimChars text.toList := String.toList_ofList
  have hsame := (trimChars_sublist text.toList).eq_of_length (hlist ▸ h)
  rw [trim, hsame, String.ofList_toList]

/-- A text keeps its length in upper case. -/
theorem length_toAsciiUpper (text : String) :
    (toAsciiUpper text).toList.length = text.toList.length := by
  rw [toAsciiUpper, String.toList_ofList, List.length_map]

end Text

/-- A word for a mode is its name, with blanks around it or without. -/
theorem GeometryMode.name_of_ofText? {text : String} {mode : GeometryMode}
    (h : ofText? text = some mode) : mode.name = Text.trim text := by
  unfold ofText? at h
  have hname := List.find?_some h
  exact beq_iff_eq.1 hname

namespace Deck

section Fresh

variable {α : Type} {earlier keys : List α} {k : α}

/-- Keys that are all different, none of them one of those in front. -/
def Fresh (earlier keys : List α) : Prop := keys.Nodup ∧ ∀ k ∈ keys, k ∉ earlier

/-- Without keys there is nothing to repeat. -/
theorem fresh_nil : Fresh earlier [] := ⟨List.nodup_nil, by simp⟩

/-- A key that is met stands in front of those behind it. -/
theorem fresh_cons : Fresh earlier (k :: keys) ↔ k ∉ earlier ∧ Fresh (k :: earlier) keys := by
  rw [Fresh, Fresh, List.nodup_cons, List.forall_mem_cons]
  constructor
  · rintro ⟨⟨hk, hnodup⟩, hnew, hall⟩
    refine ⟨hnew, hnodup, fun q hq hmem => ?_⟩
    obtain rfl | hmem := List.mem_cons.1 hmem
    · exact hk hq
    · exact hall q hq hmem
  · rintro ⟨hnew, hnodup, hall⟩
    exact ⟨⟨fun hk => hall k hk List.mem_cons_self, hnodup⟩, hnew,
      fun q hq hmem => hall q hq (List.mem_cons_of_mem k hmem)⟩

/-- With nothing in front, keys are fresh if they are all different. -/
theorem fresh_nil_iff : Fresh [] keys ↔ keys.Nodup := by simp [Fresh]

end Fresh

namespace RangeEntry

/-- Ranges without a common number. -/
def Apart (a b : RangeEntry) : Prop := ∀ n ∈ a.numbers, n ∉ b.numbers

/-- A range of numbers behind that of the top segment, given from its first one on. -/
def WellFormed (r : RangeEntry) : Prop := 2 ≤ r.first ∧ r.first ≤ r.last

variable {a b r : RangeEntry} {n : Int}

/-- The test for a range that can be expanded is exact. -/
theorem isWellFormed_iff : r.isWellFormed = true ↔ r.WellFormed := by
  rw [isWellFormed, Bool.and_eq_true, decide_eq_true_iff, decide_eq_true_iff, WellFormed]

/-- The test for a number in a range is exact. -/
theorem covers_iff : r.covers n = true ↔ n ∈ r.numbers := by
  rw [covers, Bool.and_eq_true, decide_eq_true_iff, decide_eq_true_iff, numbers, mem_numbersBetween]

end RangeEntry

namespace TreeEntry

variable {t : TreeEntry} {earlier records : List RangeEntry} {n : Int}

/-- The number belongs to the top segment or to a well-formed range. -/
def Defines (t : TreeEntry) (n : Int) : Prop :=
  n = 1 ∨ ∃ r ∈ t.records, r.WellFormed ∧ n ∈ r.numbers

/-- The test for a number that a well defines is exact. -/
theorem defines_iff : t.defines n = true ↔ t.Defines n := by
  simp only [defines, Defines, Bool.or_eq_true, beq_iff_eq, List.any_eq_true, Bool.and_eq_true,
    RangeEntry.isWellFormed_iff, RangeEntry.covers_iff]

/-- **Of the words that can be read as a mode, the test for changes holds of one.** -/
theorem isIncremental_iff (h : (GeometryMode.ofText? t.mode).isSome) :
    t.isIncremental = true ↔ t.mode = "INC" := by
  obtain ⟨mode, hmode⟩ := Option.isSome_iff_exists.1 h
  have hname := GeometryMode.name_of_ofText? hmode
  rw [isIncremental, beq_iff_eq]
  constructor
  · intro hupper
    have hlength : t.mode.toList.length = 3 := by
      rw [← Text.length_toAsciiUpper, hupper]
      decide
    have htrim : Text.trim t.mode = t.mode := by
      refine Text.trim_eq_self ?_
      rw [← hname, hlength]
      cases mode <;> decide
    rw [htrim] at hname
    cases mode with
    | incremental => exact hname.symm
    | absolute =>
      rw [← hname] at hupper
      exact absurd hupper (by decide)
  · intro hword
    rw [hword]
    decide

/-- The settings pass if each word is one of those that can be read. -/
theorem checkSettings_eq_ok : t.checkSettings = .ok () ↔
    (GeometryMode.ofText? t.mode).isSome ∧ (PressureDrop.ofText? t.pressureDrop).isSome ∧
      (FlowModel.ofText? t.flowModel).isSome := by
  unfold checkSettings
  cases GeometryMode.ofText? t.mode <;> cases PressureDrop.ofText? t.pressureDrop <;>
    cases FlowModel.ofText? t.flowModel <;> simp

/-- Ranges in front of a range are apart from it when no number of it is covered. -/
theorem find?_covered_eq_none_iff {r : RangeEntry} :
    (r.numbers.find? fun n => earlier.any fun e => e.covers n) = none ↔
      ∀ e ∈ earlier, e.Apart r := by
  simp only [List.find?_eq_none, List.any_eq_true, RangeEntry.covers_iff, not_exists, not_and]
  exact ⟨fun h e he n hn hr => h n hr e he hn, fun h n hr e he hn => h e he n hn hr⟩

/-- **Ranges pass the check** when those that can be expanded have no number in common, with
each other and with the ones in front, and no dimension that has to be positive is not. -/
theorem checkRanges_eq_ok : t.checkRanges earlier records = .ok () ↔
    records.Pairwise (fun a b => a.WellFormed → b.WellFormed → a.Apart b) ∧
      ∀ r ∈ records, r.WellFormed → (∀ e ∈ earlier, e.Apart r) ∧ ¬ r.diameter ≤ 0.0 ∧
        (t.isIncremental = true → ¬ r.length ≤ 0.0) := by
  induction records generalizing earlier with
  | nil => simp [checkRanges]
  | cons r rest ih =>
    rw [checkRanges, List.pairwise_cons, List.forall_mem_cons]
    by_cases hwell : r.WellFormed
    · rw [RangeEntry.isWellFormed_iff.2 hwell, Bool.not_true, if_neg Bool.false_ne_true]
      cases hfound : r.numbers.find? fun n => earlier.any fun e => e.covers n with
      | some n =>
        have hnone : ¬ ∀ e ∈ earlier, e.Apart r := by
          rw [← find?_covered_eq_none_iff, hfound]
          simp
        exact iff_of_false (fun h => by cases h) fun h => hnone (h.2.1 hwell).1
      | none =>
        have happart := find?_covered_eq_none_iff.1 hfound
        dsimp only
        split_ifs with hlength hdiameter
        · rw [Bool.and_eq_true, decide_eq_true_iff] at hlength
          exact iff_of_false (fun h => by cases h) fun h =>
            (h.2.1 hwell).2.2 hlength.2 hlength.1
        · exact iff_of_false (fun h => by cases h) fun h => (h.2.1 hwell).2.1 hdiameter
        · rw [ih]
          constructor
          · rintro ⟨hpairs, hall⟩
            refine ⟨⟨fun q hq _ hqwell => (hall q hq hqwell).1 r List.mem_cons_self, hpairs⟩,
              fun _ => ⟨happart, hdiameter, fun hchanges hle => hlength ?_⟩, fun q hq hqwell => ?_⟩
            · rw [hchanges, Bool.and_true]
              exact decide_eq_true hle
            · obtain ⟨hearlier, hpositive⟩ := hall q hq hqwell
              exact ⟨fun e he => hearlier e (List.mem_cons_of_mem r he), hpositive⟩
          · rintro ⟨⟨hfirst, hpairs⟩, -, hall⟩
            refine ⟨hpairs, fun q hq hqwell => ?_⟩
            obtain ⟨hearlier, hpositive⟩ := hall q hq hqwell
            exact ⟨List.forall_mem_cons.2 ⟨hfirst q hq hwell hqwell, hearlier⟩, hpositive⟩
    · have hskipped : r.isWellFormed = false :=
        Bool.eq_false_iff.2 fun h => hwell (RangeEntry.isWellFormed_iff.1 h)
      rw [hskipped, Bool.not_false, if_pos rfl, ih]
      simp [hwell]

end TreeEntry

namespace WellEntry

variable {w : WellEntry} {c : ConnectionEntry} {referrer : Referrer} {n : Int}

/-- The numbers of the segments with devices, list by list. -/
def deviceNumbers (w : WellEntry) : List Int :=
  w.spiralIcds.map (·.segment) ++ w.autonomousIcds.map (·.icd.segment) ++ w.valves.map (·.segment)

/-- What validation asks of a well. -/
structure Acceptable (w : WellEntry) : Prop where
  /-- The name is not blank. -/
  named : ∃ c ∈ w.name.toList, Text.isBlank c = false
  mode : (GeometryMode.ofText? w.tree.mode).isSome
  pressureDrop : (PressureDrop.ofText? w.tree.pressureDrop).isSome
  flowModel : (FlowModel.ofText? w.tree.flowModel).isSome
  /-- Well-formed ranges have no number in common. -/
  apart : w.tree.records.Pairwise fun a b => a.WellFormed → b.WellFormed → a.Apart b
  diameter : ∀ r ∈ w.tree.records, r.WellFormed → ¬ r.diameter ≤ 0.0
  /-- Changes of length are positive. -/
  length : w.tree.mode = "INC" → ∀ r ∈ w.tree.records, r.WellFormed → ¬ r.length ≤ 0.0
  /-- Devices are on defined segments. -/
  defined : ∀ n ∈ w.deviceNumbers, w.tree.Defines n
  /-- No segment has two devices. -/
  nodup : w.deviceNumbers.Nodup
  connection : ∀ c ∈ w.connections, 1 ≤ c.branch ∧ ¬ c.finish < c.start ∧
    ∀ n, c.segment = some n → w.tree.Defines n

/-- The numbers of all devices, without the lists that they stand in. -/
theorem map_snd_deviceSegments (w : WellEntry) :
    w.deviceSegments.map Prod.snd = w.deviceNumbers := by
  simp only [deviceSegments, deviceNumbers, List.map_append, List.map_map]
  rfl

/-- A reference passes if the well defines the number. -/
theorem checkReference_eq_ok : w.checkReference referrer n = .ok () ↔ w.tree.Defines n := by
  rw [checkReference, ← TreeEntry.defines_iff]
  split_ifs with h
  · exact iff_of_true rfl h
  · exact iff_of_false (fun hok => by cases hok) h

/-- **Devices pass the check** when they are on defined segments, all different and none of
them one of those in front. -/
theorem checkDevices_eq_ok {earlier : List Int} {devices : List (Referrer × Int)} :
    w.checkDevices earlier devices = .ok () ↔
      (∀ d ∈ devices, w.tree.Defines d.2) ∧ Fresh earlier (devices.map Prod.snd) := by
  induction devices generalizing earlier with
  | nil => simp [checkDevices, fresh_nil]
  | cons d rest ih =>
    obtain ⟨referrer, n⟩ := d
    rw [checkDevices, check_bind_eq_ok, checkReference_eq_ok, List.forall_mem_cons, List.map_cons,
      fresh_cons]
    split_ifs with hearlier
    · rw [List.contains_iff_mem] at hearlier
      exact iff_of_false (fun h => by cases h.2) fun h => h.2.1 hearlier
    · rw [List.contains_iff_mem] at hearlier
      rw [ih, and_assoc, and_iff_right hearlier]

/-- A connection passes if its branch is counted from one, it does not end before it starts, and the
well defines its segment. -/
theorem checkConnection_eq_ok : w.checkConnection c = .ok () ↔
    1 ≤ c.branch ∧ ¬ c.finish < c.start ∧ ∀ n, c.segment = some n → w.tree.Defines n := by
  have hvalues : (if c.branch < 1 then .error (.invalidValue (.branchTooLow c.branch))
      else if c.finish < c.start then .error (.invalidValue (.endsBeforeStart c.finish))
      else .ok () : Except ValidationError Unit) = .ok () ↔ 1 ≤ c.branch ∧ ¬ c.finish < c.start := by
    split_ifs with hbranch hfinish
    · exact iff_of_false (fun h => by cases h) fun h => by omega
    · exact iff_of_false (fun h => by cases h) fun h => h.2 hfinish
    · exact iff_of_true rfl ⟨by omega, hfinish⟩
  rw [checkConnection]
  cases c.segment with
  | none => simp [check_bind_eq_ok, hvalues]
  | some n =>
    rw [check_bind_eq_ok, checkReference_eq_ok, hvalues]
    constructor
    · rintro ⟨hdefined, hbranch, hfinish⟩
      exact ⟨hbranch, hfinish, fun m hm => Option.some.inj hm ▸ hdefined⟩
    · rintro ⟨hbranch, hfinish, hdefined⟩
      exact ⟨hdefined n rfl, hbranch, hfinish⟩

/-- A name is not blank exactly if it has a character that is not. -/
theorem isNameBlank_eq_false : w.isNameBlank = false ↔
    ∃ c ∈ w.name.toList, Text.isBlank c = false := by
  rw [isNameBlank, Bool.eq_false_iff, Ne, String.isEmpty_iff, Text.trim,
    ← String.toList_eq_nil_iff, String.toList_ofList, Text.trimChars_eq_nil_iff]
  simp

/-- A well passes if its settings, ranges, devices and connections do. -/
theorem check_eq_ok : w.check = .ok () ↔ w.tree.checkSettings = .ok () ∧
    w.tree.checkRanges [] w.tree.records = .ok () ∧ w.checkDevices [] w.deviceSegments = .ok () ∧
      ∀ c ∈ w.connections, w.checkConnection c = .ok () := by
  simp only [check, check_bind_eq_ok, forM_eq_ok]

/-- **A well that has a name passes its check** when it is acceptable. -/
theorem acceptable_iff : w.Acceptable ↔ w.isNameBlank = false ∧ w.check = .ok () := by
  rw [check_eq_ok, isNameBlank_eq_false, TreeEntry.checkSettings_eq_ok,
    TreeEntry.checkRanges_eq_ok, checkDevices_eq_ok, map_snd_deviceSegments, fresh_nil_iff]
  have hdevices : (∀ d ∈ w.deviceSegments, w.tree.Defines d.2) ↔
      ∀ n ∈ w.deviceNumbers, w.tree.Defines n := by
    rw [← map_snd_deviceSegments, List.forall_mem_map]
  rw [hdevices]
  simp only [checkConnection_eq_ok]
  constructor
  · rintro ⟨hnamed, hmode, hdrop, hflow, hapart, hdiameter, hlength, hdefined, hnodup, hconnection⟩
    exact ⟨hnamed, ⟨hmode, hdrop, hflow⟩, ⟨hapart, fun r hr hwell => ⟨by simp, hdiameter r hr hwell,
      fun hchanges => hlength ((TreeEntry.isIncremental_iff hmode).1 hchanges) r hr hwell⟩⟩,
      ⟨hdefined, hnodup⟩, hconnection⟩
  · rintro ⟨hnamed, ⟨hmode, hdrop, hflow⟩, ⟨hapart, hranges⟩, ⟨hdefined, hnodup⟩, hconnection⟩
    exact ⟨hnamed, hmode, hdrop, hflow, hapart, fun r hr hwell => (hranges r hr hwell).2.1,
      fun hword r hr hwell =>
        (hranges r hr hwell).2.2 ((TreeEntry.isIncremental_iff hmode).2 hword),
      hdefined, hnodup, hconnection⟩

end WellEntry

variable {d : Deck} {w : WellEntry}

/-- **Wells pass the check** when all are acceptable and have names of their own, none of them
one of those in front. -/
theorem checkWells_eq_ok {earlier : List String} {wells : List WellEntry} :
    checkWells earlier wells = .ok () ↔
      (∀ w ∈ wells, w.Acceptable) ∧ Fresh earlier (wells.map WellEntry.name) := by
  induction wells generalizing earlier with
  | nil => simp [checkWells, fresh_nil]
  | cons w rest ih =>
    rw [checkWells, List.map_cons, fresh_cons, List.forall_mem_cons, WellEntry.acceptable_iff]
    split_ifs with hblank hearlier
    · exact iff_of_false (fun h => by cases h) fun h => by simp [hblank] at h
    · rw [List.contains_iff_mem] at hearlier
      exact iff_of_false (fun h => by cases h) fun h => h.2.1 hearlier
    · rw [List.contains_iff_mem] at hearlier
      rw [check_bind_eq_ok, ih, Bool.eq_false_iff, and_iff_right hblank, and_iff_right hearlier,
        and_assoc]

/-- A deck passes if its version is supported and its wells pass in turn. -/
theorem validate_eq_ok : d.validate = .ok () ↔ d.version = latestVersion ∧
    checkWells [] d.wells = .ok () := by
  rw [validate]
  split_ifs with h
  · simp [h]
  · exact iff_of_false (fun hok => by cases hok) fun hok => h hok.1

/-- Wells of a validated deck are acceptable. -/
theorem acceptable_of_validate (h : d.validate = .ok ()) (hw : w ∈ d.wells) : w.Acceptable :=
  (checkWells_eq_ok.1 (validate_eq_ok.1 h).2).1 w hw

/-- Wells of a validated deck have names of their own. -/
theorem nodup_names_of_validate (h : d.validate = .ok ()) : (d.wells.map WellEntry.name).Nodup :=
  fresh_nil_iff.1 (checkWells_eq_ok.1 (validate_eq_ok.1 h).2).2

/-- **A deck is accepted exactly when** it is of the first version and has acceptable wells with
names of their own. -/
theorem validate_eq_ok_iff (d : Deck) : d.validate = .ok () ↔
    d.version = 1 ∧ (d.wells.map WellEntry.name).Nodup ∧ ∀ w ∈ d.wells, w.Acceptable := by
  rw [validate_eq_ok, checkWells_eq_ok, fresh_nil_iff, latestVersion, and_comm (a := ∀ w ∈ _, _)]

end Deck
end MultiSegmentWell
