/-
# What processing and loading do

A processed set is a resolved and linked one that passed the check
(`process_eq_ok`), and passing the check means that every segment but the top one has
a length (`exists_extent_of_check`). Loading processes the set that the records
build up (`exists_process_of_load`). Both keep the position map exact, and both leave
the segments in order (`inOrder_of_build`).
-/

import MultiSegmentWell.SegmentSet.Processing
import MultiSegmentWell.Proofs.Tree.Resolution

namespace MultiSegmentWell
namespace SegmentSet

variable {s r : SegmentSet} {options : Options}

/-- The extent of a segment is its length with its change of depth. -/
theorem extent_eq_ok {n : Int} {length change : Float} :
    s.extent n = .ok (length, change) ↔
      s.segmentLength n = .ok length ∧ s.depthChange n = .ok change := by
  rw [extent, bind_eq_ok]
  simp only [bind_eq_ok, Except.ok.injEq, Prod.mk.injEq]
  constructor
  · rintro ⟨l, hl, c, hc, rfl, rfl⟩
    exact ⟨hl, hc⟩
  · rintro ⟨hl, hc⟩
    exact ⟨length, hl, change, hc, rfl, rfl⟩

/-- Segments pass the check when every one but the top one has a length. -/
theorem checkSegments_eq_ok {segments : List Segment} :
    (s.checkSegments options segments).outcome = .ok () ↔
      ∀ t ∈ segments, t.number ≠ topNumber → ∃ e, s.extent t.number = .ok e := by
  induction segments with
  | nil => simp [checkSegments]
  | cons t rest ih =>
    rw [checkSegments, List.forall_mem_cons]
    split_ifs with hn
    · rw [ih]
      exact (and_iff_right fun h => absurd hn h).symm
    · split
      · rename_i e he
        refine iff_of_false (fun h => by cases h) fun h => ?_
        obtain ⟨_, hok⟩ := h.1 hn
        rw [he] at hok
        cases hok
      · rename_i l c he
        show (Reported.bind _ _).outcome = _ ↔ _
        rw [Reported.bind, ih]
        exact (and_iff_right fun _ => ⟨_, he⟩).symm

/-- After a check that is passed, every segment but the top one has an extent. -/
theorem exists_extent_of_check (h : (s.check options).outcome = .ok ()) :
    ∀ t ∈ s.segments, t.number ≠ topNumber → ∃ e, s.extent t.number = .ok e :=
  checkSegments_eq_ok.1 h

/-- Building is resolving and linking. -/
theorem build_eq_ok {mode : GeometryMode} {topDepth topLength : Float} :
    s.build mode topDepth topLength = .ok r ↔
      ∃ q, s.resolve mode topDepth topLength = .ok q ∧ q.linkInlets = .ok r :=
  bind_eq_ok

/-- **A processed set** is a built one that passes the check, marked as resolved. -/
theorem process_eq_ok {mode : GeometryMode} {topDepth topLength : Float} :
    (s.process mode topDepth topLength options).outcome = .ok r ↔
      ∃ built, s.build mode topDepth topLength = .ok built ∧
        (built.check options).outcome = .ok () ∧ r = { built with resolved := true } := by
  rw [process, Reported.bind_eq_ok]
  refine exists_congr fun built => and_congr_right fun _ => ?_
  simp only [Reported.bind_eq_ok, Reported.outcome_tell, Reported.outcome_pure, exists_const,
    Except.ok.injEq, true_and, eq_comm (a := r)]
  exact ⟨fun ⟨_, h⟩ => h, fun h => ⟨(), h⟩⟩

namespace Indexed

/-- Ordering keeps the position map exact. -/
theorem order (hs : s.Indexed) (h : s.order = .ok r) : r.Indexed := by
  obtain ⟨_, _, hperm, heq⟩ := exists_placement_of_order hs h
  rw [heq]
  exact indexed_withSegments s ((hperm.map Segment.number).nodup_iff.1 hs.nodup)

/-- Resolving keeps the position map exact. -/
theorem resolve (hs : s.Indexed) {mode : GeometryMode} {topDepth topLength : Float}
    (h : s.resolve mode topDepth topLength = .ok r) : r.Indexed := by
  obtain ⟨q, ordered, hq, hordered, hlinks, heq⟩ := links_of_resolve hs h
  rw [heq]
  refine indexed_withSegments ordered ?_
  rw [numbers_eq_of_links hlinks]
  exact (hq.order hordered).nodup

/-- Linking keeps the position map exact. -/
theorem linkInlets (hs : s.Indexed) (h : s.linkInlets = .ok r) : r.Indexed :=
  let ⟨hlinks, hindex⟩ := links_of_linkInlets h
  hs.congr hindex (numbers_eq_of_links hlinks)

/-- Building keeps the position map exact. -/
theorem build (hs : s.Indexed) {mode : GeometryMode} {topDepth topLength : Float}
    (h : s.build mode topDepth topLength = .ok r) : r.Indexed := by
  obtain ⟨q, hq, hr⟩ := build_eq_ok.1 h
  exact (hs.resolve hq).linkInlets hr

/-- **Processing keeps the position map exact.** -/
theorem process (hs : s.Indexed) {mode : GeometryMode} {topDepth topLength : Float}
    (h : (s.process mode topDepth topLength options).outcome = .ok r) : r.Indexed := by
  obtain ⟨built, hbuilt, -, rfl⟩ := process_eq_ok.1 h
  exact (hs.build hbuilt).congr rfl rfl

end Indexed

/-- **Built segments are in order.** -/
theorem inOrder_of_build (hs : s.Indexed) {mode : GeometryMode} {topDepth topLength : Float}
    (h : s.build mode topDepth topLength = .ok r) : InOrder r.segments := by
  obtain ⟨q, hq, hr⟩ := build_eq_ok.1 h
  obtain ⟨_, ordered, hp, hordered, hlinks, -⟩ := links_of_resolve hs hq
  refine (inOrder_of_order hp hordered).congr ?_
  rw [← hlinks, (links_of_linkInlets hr).1]

/-- **Records add segments one after the other.** -/
theorem Indexed.addRecords (hs : s.Indexed) {mode : GeometryMode} {records : List RangeRecord}
    (h : (s.addRecords mode records).outcome = .ok r) : r.Indexed := by
  induction records generalizing s with
  | nil =>
    obtain rfl := Except.ok.inj h
    exact hs
  | cons record records ih =>
    obtain ⟨segments, -, h⟩ := Reported.bind_eq_ok.1 h
    exact ih (hs.addAll segments) h

/-- The set that a header gives has an exact position map. -/
theorem indexed_ofHeader (header : Header) : (ofHeader header).Indexed :=
  (indexed_empty _ _ _).add _

/-- **A loaded set is a processed one**, of the set that the definition describes. -/
theorem exists_process_of_load {d : TreeDefinition} (h : (s.load d options).outcome = .ok r) :
    ∃ linked : SegmentSet, linked.Indexed ∧
      (linked.process d.header.mode d.header.top.depth d.header.top.length options).outcome
        = .ok r := by
  unfold load at h
  split_ifs at h
  · cases h
  · obtain ⟨full, hfull, h⟩ := Reported.bind_eq_ok.1 h
    obtain ⟨linked, hlinked, h⟩ := Reported.bind_eq_ok.1 h
    exact ⟨linked, ((indexed_ofHeader d.header).addRecords hfull).linkInlets hlinked, h⟩

end SegmentSet
end MultiSegmentWell
