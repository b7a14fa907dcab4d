/-
# What scaling divides by

SPEC_FULL.md, 4.6: the methods of `update_scaling_factor`.

Two methods divide the length of a device by the length of the outlet of its segment, and one
divides it by the length of the connections on the segment (`Icd.divisor?`). The latter refuses
a length of zero. For the others the tree answers: the length of a segment behind the top one
is refused if it is zero or less (`not_le_zero_of_segmentLength`).

The length of the top segment is the one in the header, and nothing looks at that
(`node_of_load`). So scaling on a loaded tree divides by zero for devices on the segments that
flow into the top one, if the header begins at zero, and nowhere else
(`divisor_eq_zero_iff_of_load`).
-/

import MultiSegmentWell.Proofs.Tree.Scaling

namespace MultiSegmentWell

namespace Icd

variable {icd : Icd} {outletLength connectionLength f : Float}

/-- What the length of a device is divided by, if its factor is a quotient. -/
def divisor? (icd : Icd) (outletLength connectionLength : Float) : Option Float :=
  if icd.method = -1 ∧ icd.length > 0.0 ∨ icd.method = 0 then some outletLength
  else if icd.method = 2 then some connectionLength
  else none

/-- A factor is a quotient, or the absolute length of the device. -/
theorem HasFactor.eq_elim (h : icd.HasFactor outletLength connectionLength f) :
    f = (icd.divisor? outletLength connectionLength).elim icd.length.abs (icd.length / ·) := by
  cases h with
  | joints hm hl | outlet hm hl | connections hm hl => simp [divisor?, hm, hl]
  | given hm hl => simp [divisor?, hm, Double.not_gt_of_lt hl]
  | absolute hm => simp [divisor?, hm]

/-- **Division by zero is left to the outlet.** -/
theorem Scalable.divisor_eq_zero_iff (h : icd.Scalable connectionLength) {divisor : Float}
    (hdivisor : icd.divisor? outletLength connectionLength = some divisor) :
    (divisor == 0.0) = true ↔ icd.method ≠ 2 ∧ (outletLength == 0.0) = true := by
  unfold divisor? at hdivisor
  split_ifs at hdivisor with houtlet hconnections
  · obtain rfl := Option.some.inj hdivisor
    have hmethod : icd.method ≠ 2 := by
      obtain ⟨hm, -⟩ | hm := houtlet <;> rw [hm] <;> decide
    rw [and_iff_right hmethod]
  · obtain rfl := Option.some.inj hdivisor
    exact iff_of_false (h.connected hconnections) fun hother => hother.1 hconnections

end Icd

namespace SegmentSet

variable {s r q : SegmentSet} {d : TreeDefinition} {options : Options} {n : Int} {length : Float}

/-- A segment behind the top one that has a length has one that is not zero or less. -/
theorem not_le_zero_of_segmentLength (h : s.segmentLength n = .ok length) (hn : n ≠ topNumber) :
    ¬ length ≤ 0.0 := by
  obtain ⟨t, -, h⟩ := bind_eq_ok.1 h
  rw [if_neg hn] at h
  obtain ⟨outlet, -, h⟩ := bind_eq_ok.1 h
  dsimp only at h
  split_ifs at h with hrefused
  exact Except.ok.inj h ▸ hrefused

/-- In either mode the top segment is settled where the header puts it. -/
theorem node_settledFirst (header : Header) : (header.topSegment.settledFirst header.mode
    header.top.depth header.top.length).node = header.top := by
  unfold Header.topSegment Segment.settledFirst
  cases header.mode <;> rfl

/-- **The top segment is where the header puts it.** -/
theorem node_of_load (h : (s.load d options).outcome = .ok r) {u : Segment} (hu : u ∈ r.segments)
    (hn : u.number = topNumber) : u.node = d.header.top := by
  obtain ⟨built, hbuilt, -, rfl⟩ := exists_builtOf_of_load h
  have hcheck := (load_eq_ok.1 h).2.1
  obtain ⟨t, ht, htn, heq⟩ := (hbuilt.treeSettled hcheck).top u hu hn
  obtain rfl | ⟨hne, -⟩ := cases_of_mem_described hcheck ht
  · rw [heq]
    exact node_settledFirst d.header
  · exact absurd (htn.trans hn) hne

/-- The top segment is as long as the header says. -/
theorem segmentLength_top_of_load (h : (s.load d options).outcome = .ok r) :
    r.segmentLength topNumber = .ok d.header.top.length := by
  have hsettled := settled_of_load h
  obtain ⟨t, ht, hn, hget⟩ := hsettled.indexed.exists_get (mem_numbers_of_load h (.inl rfl))
  rw [segmentLength, hget, ← node_of_load h ht hn]
  rfl

/-- **The length of an outlet in a loaded tree is zero for the top segment only**, if the header
begins at zero. -/
theorem outletLength_eq_zero_iff (h : (s.load d options).outcome = .ok r)
    (hlength : r.segmentLength n = .ok length) :
    (length == 0.0) = true ↔ n = topNumber ∧ (d.header.top.length == 0.0) = true := by
  by_cases hn : n = topNumber
  · rw [hn, segmentLength_top_of_load h] at hlength
    obtain rfl := Except.ok.inj hlength
    exact (and_iff_right hn).symm
  · refine iff_of_false (fun hzero => ?_) fun htop => hn htop.1
    exact not_le_zero_of_segmentLength hlength hn (Double.le_zero_of_beq_zero hzero)

/-- **Where scaling divides by zero.**  After every load and for all devices that are scaled on
the loaded tree, a factor that is a quotient has the divisor zero exactly if it divides by the
length of the top segment and the header begins at length zero. The length of no other outlet
is zero, and a length of connections that is zero is refused. -/
theorem divisor_eq_zero_iff_of_load {devices : List (Int × Device)} {connections : List Connection}
    (h : (s.load d options).outcome = .ok r)
    (hq : r.attachScaledDevices devices connections = .ok q) :
    ∀ a ∈ devices, ∀ icd, a.2.icd? = some icd →
      ∃ t ∈ r.segments, t.number = a.1 ∧ ∃ outletLength f,
        r.segmentLength t.outlet = .ok outletLength ∧
        icd.factor outletLength (Connection.perfLength connections a.1) = .ok f ∧
        ∀ divisor, icd.divisor? outletLength (Connection.perfLength connections a.1)
            = some divisor →
          f = icd.length / divisor ∧ ((divisor == 0.0) = true ↔
            icd.method ≠ 2 ∧ t.outlet = topNumber ∧ (d.header.top.length == 0.0) = true) := by
  intro a ha icd hicd
  obtain ⟨-, hscalable⟩ := exists_attachScaledDevices_iff.1 ⟨q, hq⟩
  obtain ⟨⟨t, ht, outletLength, hlength⟩, hscale⟩ := hscalable a ha icd hicd
  obtain ⟨f, hf⟩ := Icd.exists_hasFactor_iff.2 hscale
  obtain ⟨hmem, hn⟩ := (settled_of_load h).indexed.get?_eq_some_iff.1 ht
  refine ⟨t, hmem, hn, outletLength, f, hlength, Icd.factor_eq_ok_iff.2 hf, ?_⟩
  intro divisor hdivisor
  constructor
  · rw [hf.eq_elim, hdivisor]
    rfl
  · rw [hscale.divisor_eq_zero_iff hdivisor, outletLength_eq_zero_iff h hlength]

/-- A well that begins at length zero. -/
def surfaced : TreeDefinition where
  header := { well := "W", top := ⟨0.0, 1000.0, 0.0, 0.0⟩, volume := 1.0, mode := .incremental }
  records := [
    { first := 2, last := 3, branch := 1, join := 1, node := ⟨10.0, 5.0, 0.0, 0.0⟩,
      diameter := 0.2, roughness := 1.0e-4 }]

/-- An inflow control device for joints of twelve metres. -/
def jointed : Icd := { strength := 1.0e-5, length := 12.0 }

/-- A joint on segment 3 is divided by the length of segment 2, which would be zero only if that
were the top one. -/
theorem divisor_eq_zero_iff_of_load_surfaced : ∃ r q,
    (({} : SegmentSet).load surfaced {}).outcome = .ok r ∧
      r.attachScaledDevices [(3, .spiralIcd jointed)] [] = .ok q ∧
      ∃ t ∈ r.segments, t.number = 3 ∧ ∃ outletLength,
        r.segmentLength t.outlet = .ok outletLength ∧
        jointed.factor outletLength (Connection.perfLength [] 3)
          = .ok (jointed.length / outletLength) ∧
        ((outletLength == 0.0) = true ↔ t.outlet = topNumber) := by
  have hok : ((({} : SegmentSet).load surfaced {}).outcome.bind
      (·.attachScaledDevices [(3, .spiralIcd jointed)] [])).isOk = true := by
    decide +kernel
  obtain ⟨q, hq⟩ := exists_of_isOk hok
  obtain ⟨r, hr, hq⟩ := bind_eq_ok.1 hq
  obtain ⟨t, ht, hn, outletLength, f, hlength, hf, hdivisor⟩ :=
    divisor_eq_zero_iff_of_load hr hq _ List.mem_cons_self jointed rfl
  obtain ⟨rfl, hzero⟩ := hdivisor outletLength rfl
  have hmethod : jointed.method ≠ 2 := by decide
  have hbegins : (surfaced.header.top.length == 0.0) = true := by decide +kernel
  rw [and_iff_right hmethod, and_iff_left hbegins] at hzero
  exact ⟨r, q, hr, hq, t, ht, hn, outletLength, hlength, hf, hzero⟩

/-- **Scaling can divide by zero.**  The outlet of the segment with the device is the top
segment, which begins at length zero. -/
theorem divided_by_zero : ∃ r q,
    (({} : SegmentSet).load surfaced {}).outcome = .ok r ∧
      r.attachScaledDevices [(2, .spiralIcd jointed)] [] = .ok q ∧
      ∃ t ∈ r.segments, t.number = 2 ∧ r.segmentLength t.outlet = .ok 0.0 ∧
        jointed.divisor? 0.0 (Connection.perfLength [] 2) = some 0.0 ∧
        { t with device := .spiralIcd { jointed with scalingFactor := some (1.0 / 0.0) } }
          ∈ q.segments := by
  have h : ((({} : SegmentSet).load surfaced {}).outcome.bind fun r =>
      (r.attachScaledDevices [(2, .spiralIcd jointed)] []).map fun q =>
        decide (∃ t ∈ r.segments, t.number = 2 ∧ r.segmentLength t.outlet = .ok 0.0 ∧
          { t with device := .spiralIcd { jointed with scalingFactor := some (1.0 / 0.0) } }
            ∈ q.segments)) = .ok true := by
    decide +kernel
  obtain ⟨r, hr, hattach⟩ := bind_eq_ok.1 h
  obtain ⟨q, hq, hdecide⟩ := map_eq_ok.1 hattach
  obtain ⟨t, ht, hn, hlength, hmem⟩ := of_decide_eq_true hdecide
  exact ⟨r, q, hr, hq, t, ht, hn, hlength, by decide +kernel, hmem⟩

end SegmentSet
end MultiSegmentWell
