/-
# How lengths grow along a well

SPEC_FULL.md, 3 and 8, P3: lengths grow from outlet to segment.

The check refuses a segment whose length, as the difference to its outlet, is zero or less.
That test is exact for doubles that have a difference: it lets a segment pass exactly if
its node lies further along the well than that of its outlet (`lengthPasses_iff`). But what
is no number is neither zero nor less, so lengths without a difference pass as well.

A well is loaded exactly if all its segments pass (`check_cases`). Lengths that grow beyond
the largest double are infinite, and from there on they have no difference
(`load_of_overflowing`).
-/

import MultiSegmentWell.Proofs.Number.Differences
import MultiSegmentWell.Proofs.Tree.Acceptance

namespace MultiSegmentWell
namespace SegmentSet

variable {s r built : SegmentSet} {d : TreeDefinition} {t outlet : Segment}
variable {options : Options} {e : SegmentError}

/-- The node of a segment lies further along the well than that of its outlet, or the two
lengths have no difference. -/
def LengthPasses (segments : List Segment) (t : Segment) : Prop :=
  ∃ outlet ∈ segments, outlet.number = t.outlet ∧
    (outlet.node.length < t.node.length ∨ NoDifference t.node.length outlet.node.length)

section Outlet

variable (hs : s.Indexed) (ht : t ∈ s.segments) (hn : t.number ≠ topNumber)
variable (ho : outlet ∈ s.segments) (hon : outlet.number = t.outlet)
include hs ho hon

/-- **What passes is what the test for zero or less lets through.** -/
theorem lengthPasses_iff :
    LengthPasses s.segments t ↔ ¬ t.node.length - outlet.node.length ≤ 0.0 := by
  rw [Double.not_sub_le_zero_iff]
  constructor
  · rintro ⟨other, hother, hno, hpasses⟩
    rwa [← List.inj_on_of_nodup_map hs.nodup hother ho (hno.trans hon.symm)]
  · exact fun hpasses => ⟨outlet, ho, hon, hpasses⟩

include ht hn

/-- The length and the change of depth of a segment, or why it is refused. -/
theorem extent_eq : s.extent t.number =
    if t.node.length - outlet.node.length ≤ 0.0 then
      .error (.nonPositiveLength s.well t.number (t.node.length - outlet.node.length))
    else .ok (t.node.length - outlet.node.length, t.node.depth - outlet.node.depth) := by
  have hget : s.get t.number = .ok t := get_eq_ok.2 (hs.get?_eq_some_iff.2 ⟨ht, rfl⟩)
  have hgetOutlet : s.get t.outlet = .ok outlet :=
    get_eq_ok.2 (hs.get?_eq_some_iff.2 ⟨ho, hon⟩)
  rw [extent, segmentLength, depthChange, hget]
  simp only [bind, Except.bind, if_neg hn, hgetOutlet]
  split_ifs <;> rfl

end Outlet

/-- A check that fails does so at a segment whose length is refused. -/
theorem exists_extent_eq_error {segments : List Segment}
    (h : (s.checkSegments options segments).outcome = .error e) :
    ∃ t ∈ segments, t.number ≠ topNumber ∧ s.extent t.number = .error e := by
  induction segments with
  | nil => cases h
  | cons t rest ih =>
    rw [checkSegments] at h
    split_ifs at h with hn
    · obtain ⟨u, hu, hun, hue⟩ := ih h
      exact ⟨u, List.mem_cons_of_mem t hu, hun, hue⟩
    · split at h
      · rename_i e' he'
        obtain rfl := Except.error.inj h
        exact ⟨t, List.mem_cons_self, hn, he'⟩
      · obtain ⟨u, hu, hun, hue⟩ := ih h
        exact ⟨u, List.mem_cons_of_mem t hu, hun, hue⟩

/-- **How the check ends**: every segment behind the top one passes, or one that does not is
named with its length. -/
theorem check_cases (hs : s.Indexed) (hv : InOrder s.segments) (options : Options) :
    ((s.check options).outcome = .ok () ∧
      ∀ t ∈ s.segments, t.number ≠ topNumber → LengthPasses s.segments t) ∨
    ∃ t ∈ s.segments, t.number ≠ topNumber ∧ ¬ LengthPasses s.segments t ∧
      ∃ outlet ∈ s.segments, outlet.number = t.outlet ∧ (s.check options).outcome
        = .error (.nonPositiveLength s.well t.number (t.node.length - outlet.node.length)) := by
  cases hcheck : (s.check options).outcome with
  | ok =>
    refine .inl ⟨rfl, fun t ht hn => ?_⟩
    obtain ⟨outlet, ho, hon⟩ := hv.outlet_mem ht hn
    obtain ⟨extent, hextent⟩ := exists_extent_of_check hcheck t ht hn
    rw [extent_eq hs ht hn ho hon] at hextent
    rw [lengthPasses_iff hs ho hon]
    intro hrefused
    rw [if_pos hrefused] at hextent
    cases hextent
  | error e =>
    obtain ⟨t, ht, hn, hextent⟩ := exists_extent_eq_error hcheck
    obtain ⟨outlet, ho, hon⟩ := hv.outlet_mem ht hn
    rw [extent_eq hs ht hn ho hon] at hextent
    split_ifs at hextent with hrefused
    refine .inr ⟨t, ht, hn, fun hpasses => ?_, outlet, ho, hon, ?_⟩
    · exact (lengthPasses_iff hs ho hon).1 hpasses hrefused
    · rw [Except.error.inj hextent]

/-- **Lengths grow wherever they have a difference.**  After every successful load the node of
each segment behind the top one lies further along the well than that of its outlet, or the
two lengths have no difference: one is no number, or both are the same infinity. Where
neither holds of a segment that is built of the definition, the load fails and names such a
segment with its length. -/
theorem lengths_of_load (s : SegmentSet) (d : TreeDefinition) (options : Options) :
    (∀ r, (s.load d options).outcome = .ok r →
      ∀ t ∈ r.segments, t.number ≠ topNumber → LengthPasses r.segments t) ∧
    ∀ built, BuiltOf d built →
      (∀ record ∈ d.records, record.check d.header.well d.header.mode = .ok ()) →
      s.resolved = false → s.isEmpty = true →
      (∃ t ∈ built.segments, t.number ≠ topNumber ∧ ¬ LengthPasses built.segments t) →
        ∃ t ∈ built.segments, t.number ≠ topNumber ∧ ¬ LengthPasses built.segments t ∧
          ∃ outlet ∈ built.segments, outlet.number = t.outlet ∧ (s.load d options).outcome
            = .error (.nonPositiveLength d.header.well t.number
                (t.node.length - outlet.node.length)) := by
  refine ⟨fun r h => ?_, fun built hbuilt hcheck hnew hempty hrefused => ?_⟩
  · obtain ⟨built, hbuilt, hpassed, rfl⟩ := exists_builtOf_of_load h
    rcases check_cases hbuilt.indexed hbuilt.inOrder options with ⟨-, hall⟩ | hfails
    · exact hall
    · obtain ⟨_, -, -, -, _, -, -, hfailed⟩ := hfails
      rw [hpassed] at hfailed
      cases hfailed
  · rcases check_cases hbuilt.indexed hbuilt.inOrder options with ⟨-, hall⟩ | hfails
    · obtain ⟨t, ht, hn, hnot⟩ := hrefused
      exact absurd (hall t ht hn) hnot
    · obtain ⟨t, ht, hn, hnot, outlet, ho, hon, hfailed⟩ := hfails
      refine ⟨t, ht, hn, hnot, outlet, ho, hon, ?_⟩
      rw [hbuilt.well_eq] at hfailed
      obtain ⟨linked, hlink, hbuild⟩ := hbuilt
      rw [outcome_load_of_linkInlets hnew hempty hcheck hlink, process_of_build hbuild]
      exact Reported.outcome_bind_of_error hfailed

/-- A main bore whose second segment leads back. -/
def shrinking : TreeDefinition where
  header := { well := "W", top := ⟨100.0, 1000.0, 0.0, 0.0⟩, volume := 1.0, mode := .absolute }
  records := [
    { first := 2, last := 2, branch := 1, join := 1, node := ⟨120.0, 1010.0, 0.0, 0.0⟩,
      diameter := 0.2, roughness := 1.0e-4 },
    { first := 3, last := 3, branch := 1, join := 2, node := ⟨110.0, 1010.0, 0.0, 0.0⟩,
      diameter := 0.2, roughness := 1.0e-4 }]

/-- The shrinking bore is built, up to the check that refuses it. -/
theorem exists_builtOf_shrinking : ∃ built, BuiltOf shrinking built ∧
    ∃ t ∈ built.segments, t.number ≠ topNumber ∧ ¬ LengthPasses built.segments t := by
  have h : ((described shrinking).linkInlets.bind (·.build .absolute 1000.0 100.0)).map
      (fun built => decide (∃ t ∈ built.segments, t.number ≠ topNumber ∧
        ∃ outlet ∈ built.segments, outlet.number = t.outlet ∧
          t.node.length - outlet.node.length ≤ 0.0)) = .ok true := by
    decide +kernel
  obtain ⟨built, hbind, hdecide⟩ := map_eq_ok.1 h
  obtain ⟨linked, hlink, hbuild⟩ := bind_eq_ok.1 hbind
  obtain ⟨t, ht, hn, outlet, ho, hon, hrefused⟩ := of_decide_eq_true hdecide
  have hbuilt : BuiltOf shrinking built := ⟨linked, hlink, hbuild⟩
  exact ⟨built, hbuilt, t, ht, hn,
    fun hpasses => (lengthPasses_iff hbuilt.indexed ho hon).1 hpasses hrefused⟩

/-- A well that is loaded, with all lengths passing, and the shrinking bore, which is refused at a
length that does not. -/
theorem lengths_of_load_scrambled :
    (∃ r, (({} : SegmentSet).load scrambled {}).outcome = .ok r ∧
      ∀ t ∈ r.segments, t.number ≠ topNumber → LengthPasses r.segments t) ∧
    (∀ record ∈ shrinking.records,
      record.check shrinking.header.well shrinking.header.mode = .ok ()) ∧
    ∃ built, BuiltOf shrinking built ∧
      (∃ t ∈ built.segments, t.number ≠ topNumber ∧ ¬ LengthPasses built.segments t) ∧
      ∃ t ∈ built.segments, t.number ≠ topNumber ∧ ¬ LengthPasses built.segments t ∧
        ∃ outlet ∈ built.segments, outlet.number = t.outlet ∧
          (({} : SegmentSet).load shrinking {}).outcome
            = .error (.nonPositiveLength "W" t.number (t.node.length - outlet.node.length)) := by
  have hcheck : ∀ record ∈ shrinking.records,
      record.check shrinking.header.well shrinking.header.mode = .ok () := by
    decide +kernel
  obtain ⟨r, hr⟩ := exists_of_isOk
    (show (({} : SegmentSet).load scrambled {}).outcome.isOk = true by decide +kernel)
  obtain ⟨built, hbuilt, hrefused⟩ := exists_builtOf_shrinking
  exact ⟨⟨r, hr, (lengths_of_load {} scrambled {}).1 r hr⟩, hcheck, built, hbuilt, hrefused,
    (lengths_of_load {} shrinking {}).2 built hbuilt hcheck rfl rfl hrefused⟩

/-- Lengths that leave the range of doubles within two segments. -/
def overflowing : TreeDefinition where
  header := { well := "W", top := ⟨1.0e308, 0.0, 0.0, 0.0⟩, volume := 1.0, mode := .incremental }
  records := [
    { first := 2, last := 3, branch := 1, join := 1, node := ⟨1.0e308, 0.0, 0.0, 0.0⟩,
      diameter := 0.2, roughness := 1.0e-4 }]

/-- **A segment may be loaded that does not lie further along the well than its outlet.**
Both lengths are infinite, so their difference is no number and passes the test. -/
theorem load_of_overflowing :
    ∃ r, (({} : SegmentSet).load overflowing {}).outcome = .ok r ∧ ∃ t ∈ r.segments,
      t.number ≠ topNumber ∧ ∃ outlet ∈ r.segments, outlet.number = t.outlet ∧
        ¬ outlet.node.length < t.node.length := by
  have h : (({} : SegmentSet).load overflowing {}).outcome.map (fun r =>
      decide (∃ t ∈ r.segments, t.number ≠ topNumber ∧ ∃ outlet ∈ r.segments,
        outlet.number = t.outlet ∧ ¬ outlet.node.length < t.node.length)) = .ok true := by
    decide +kernel
  obtain ⟨r, hr, hdecide⟩ := map_eq_ok.1 h
  exact ⟨r, hr, of_decide_eq_true hdecide⟩

end SegmentSet
end MultiSegmentWell
