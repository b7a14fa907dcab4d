/-
# Inlets

SPEC_FULL.md, 4.2: the linking pass; glossary: inlet segment.

Processing appends to the inlets of a segment whatever flows into it and is not there
yet, and takes nothing out. So all segments that flow in are in the list, and what else
is in it was there before: the list is exact if and only if everything that the segment
held before flows into it (`InletsAppended.inletsExact_iff`).

As long as no stored segment is given another outlet, every number in an inlet list is
that of a segment that flows in (`Unmoved.inletsFlowIn`), and processing makes all lists
exact. A segment that is moved to another outlet remains an inlet of the one that it
flowed into.
-/

import MultiSegmentWell.SegmentSet.Allocation
import MultiSegmentWell.Proofs.Tree.Processed

namespace MultiSegmentWell

/-- Attaching a device leaves the inlets alone. -/
@[simp] theorem Segment.attach_inlets (s : Segment) (d : Device) (l : Float) :
    (s.attach d l).inlets = s.inlets := by
  cases d <;> rfl

namespace SegmentSet

variable {s r : SegmentSet} {segments xs ys : List Segment} {t u : Segment} {n : Int}
variable {mode : GeometryMode} {topDepth topLength : Float} {options : Options}

/-- A stored segment with this number has the segment as its outlet. -/
def FlowsInto (segments : List Segment) (n : Int) (t : Segment) : Prop :=
  ∃ v ∈ segments, v.number = n ∧ v.outlet = t.number

/-- The inlets of a segment are the numbers of the segments that flow into it, each once. -/
structure InletsExact (segments : List Segment) (t : Segment) : Prop where
  nodup : t.inlets.Nodup
  mem_iff : ∀ n, n ∈ t.inlets ↔ FlowsInto segments n t

/-- What is linked to a segment flows into it. -/
theorem flowsInto_of_mem_inletNumbers (h : n ∈ inletNumbers segments t) :
    FlowsInto segments n t := by
  obtain ⟨v, hv, hn⟩ := List.mem_map.1 h
  obtain ⟨hmem, hflow⟩ := List.mem_filter.1 hv
  rw [Bool.and_eq_true, beq_iff_eq] at hflow
  exact ⟨v, hmem, hn, hflow.2⟩

/-- Behind a positive number, what is linked to a segment is what flows into it. -/
theorem mem_inletNumbers_iff (hpos : 0 < t.number) :
    n ∈ inletNumbers segments t ↔ FlowsInto segments n t := by
  refine ⟨flowsInto_of_mem_inletNumbers, fun ⟨v, hv, hn, ho⟩ => ?_⟩
  exact List.mem_map.2 ⟨v, List.mem_filter.2 ⟨hv, by simp [hpos, ho]⟩, hn⟩

/-- What flows into a segment still does where every segment has kept its outlet. -/
theorem FlowsInto.of_kept (h : FlowsInto xs n t) (hu : u.number = t.number)
    (hkept : ∀ v ∈ xs, ∃ w ∈ ys, w.number = v.number ∧ w.outlet = v.outlet) :
    FlowsInto ys n u := by
  obtain ⟨v, hv, hn, ho⟩ := h
  obtain ⟨w, hw, hwn, hwo⟩ := hkept v hv
  exact ⟨w, hw, hwn.trans hn, by rw [hwo, ho, hu]⟩

namespace InletsAppended

variable {held : List Int}

/-- After linking, an inlet is one from before or a segment that flows in. -/
theorem mem_iff (h : InletsAppended segments held u) (hpos : 0 < u.number) :
    n ∈ u.inlets ↔ n ∈ held ∨ FlowsInto segments n u := by
  rw [h, List.mem_append, List.mem_filter, mem_inletNumbers_iff hpos, decide_eq_true_iff]
  tauto

/-- Whatever its number, an inlet of a linked segment is one from before or flows in. -/
theorem mem_or_flowsInto (h : InletsAppended segments held u) (hn : n ∈ u.inlets) :
    n ∈ held ∨ FlowsInto segments n u := by
  rw [h, List.mem_append] at hn
  exact hn.imp_right fun hnew => flowsInto_of_mem_inletNumbers (List.mem_filter.1 hnew).1

/-- Linking repeats no inlet, if none was repeated before. -/
theorem nodup (h : InletsAppended segments held u) (hnd : (segments.map Segment.number).Nodup)
    (hheld : held.Nodup) : u.inlets.Nodup := by
  rw [h]
  refine hheld.append ((nodup_inletNumbers hnd u).filter _) fun n hn hmem => ?_
  simpa [hn] using (List.mem_filter.1 hmem).2

/-- **When inlets are exact:** everything that was held flows in. -/
theorem inletsExact_iff (h : InletsAppended segments held u)
    (hnd : (segments.map Segment.number).Nodup) (hpos : 0 < u.number) :
    InletsExact segments u ↔ held.Nodup ∧ ∀ n ∈ held, FlowsInto segments n u := by
  constructor
  · intro hexact
    refine ⟨?_, fun n hn => (hexact.mem_iff n).1 ((h.mem_iff hpos).2 (.inl hn))⟩
    have hnodup := hexact.nodup
    rw [h] at hnodup
    exact hnodup.of_append_left
  · rintro ⟨hheld, hflow⟩
    refine ⟨h.nodup hnd hheld, fun n => ?_⟩
    rw [h.mem_iff hpos]
    exact or_iff_right_of_imp (hflow n)

end InletsAppended

/-- A described segment has no inlets yet. -/
theorem inlets_of_mem_described {d : TreeDefinition}
    (hcheck : ∀ record ∈ d.records, record.check d.header.well d.header.mode = .ok ())
    (ht : t ∈ (described d).segments) : t.inlets = [] := by
  rcases cases_of_mem_described hcheck ht with rfl | ⟨-, record, -, heq⟩
  · rfl
  · rw [heq]
    rfl

/-- Every number in an inlet list is that of a segment that flows in, and stands there
once. -/
def InletsFlowIn (s : SegmentSet) : Prop :=
  ∀ t ∈ s.segments, t.inlets.Nodup ∧ ∀ n ∈ t.inlets, FlowsInto s.segments n t

/-- The sets that operations can lead to while no stored segment is given another outlet
and the segments that are added come without inlets. -/
inductive Unmoved : SegmentSet → Prop where
  | empty (well : String) (pressureDrop : PressureDrop) (flowModel : FlowModel) :
    Unmoved { well, pressureDrop, flowModel }
  | add {s : SegmentSet} {a : Segment} (before : Unmoved s) (bare : a.inlets = [])
    (outlet : ∀ t ∈ s.segments, t.number = a.number → t.outlet = a.outlet) : Unmoved (s.add a)
  | after {s : SegmentSet} (op : Operation) (noAdd : ∀ segments, op ≠ .add segments)
    (before : Unmoved s) : Unmoved (s.after op)

/-- A set without moved segments is a reachable one. -/
theorem Unmoved.reachable (h : Unmoved s) : Reachable s := by
  induction h with
  | empty well pressureDrop flowModel => exact .empty well pressureDrop flowModel
  | @add s a _ _ _ ih => exact ih.after (.add [a])
  | after op _ _ ih => exact ih.after op

namespace InletsFlowIn

/-- Where segments keep their outlets, new lists are true that hold nothing but old
entries and what flows in. -/
theorem of_kept (h : InletsFlowIn s)
    (hkept : ∀ v ∈ s.segments, ∃ w ∈ r.segments, w.number = v.number ∧ w.outlet = v.outlet)
    (hfrom : ∀ u ∈ r.segments, ∃ t ∈ s.segments, u.number = t.number ∧
      (t.inlets.Nodup → u.inlets.Nodup) ∧
        ∀ n ∈ u.inlets, n ∈ t.inlets ∨ FlowsInto r.segments n u) : InletsFlowIn r := by
  intro u hu
  obtain ⟨t, ht, hn, hnodup, hmem⟩ := hfrom u hu
  obtain ⟨htn, htf⟩ := h t ht
  refine ⟨hnodup htn, fun n hnu => ?_⟩
  rcases hmem n hnu with hheld | hflow
  · exact (htf n hheld).of_kept hn hkept
  · exact hflow

/-- A segment without inlets can be added if no other outlet is given to a stored one. -/
theorem add (h : InletsFlowIn s) (hs : s.Indexed) {a : Segment} (hbare : a.inlets = [])
    (houtlet : ∀ t ∈ s.segments, t.number = a.number → t.outlet = a.outlet) :
    InletsFlowIn (s.add a) := by
  have hkept : ∀ v ∈ s.segments, ∃ w ∈ (s.add a).segments,
      w.number = v.number ∧ w.outlet = v.outlet := by
    intro v hv
    by_cases hn : v.number = a.number
    · exact ⟨a, hs.mem_add_iff.2 (.inl rfl), hn.symm, (houtlet v hv hn).symm⟩
    · exact ⟨v, hs.mem_add_iff.2 (.inr ⟨hn, hv⟩), rfl, rfl⟩
  intro u hu
  rcases hs.mem_add_iff.1 hu with rfl | ⟨-, hold⟩
  · simp [hbare]
  · obtain ⟨hnodup, hflow⟩ := h u hold
    exact ⟨hnodup, fun n hn => (hflow n hn).of_kept rfl hkept⟩

/-- Linking enters only segments that flow in. -/
theorem linkInlets (h : InletsFlowIn s) (hs : s.Indexed) (hr : s.linkInlets = .ok r) :
    InletsFlowIn r := by
  have hlinked := forall₂_inletsAppended_of_linkInlets hs hr
  refine h.of_kept (fun v hv => ?_) fun u hu => ?_
  · obtain ⟨w, hw, heq, -⟩ := exists_of_forall₂ hlinked hv
    exact ⟨w, hw, by rw [heq], by rw [heq]⟩
  · obtain ⟨t, ht, heq, hinlets⟩ := exists_of_forall₂ hlinked.flip hu
    exact ⟨t, ht, by rw [heq], hinlets.nodup (hs.linkInlets hr).nodup,
      fun n => hinlets.mem_or_flowsInto⟩

/-- Processing enters only segments that flow in. -/
theorem process (h : InletsFlowIn s) (hs : s.Indexed)
    (hr : (s.process mode topDepth topLength options).outcome = .ok r) : InletsFlowIn r := by
  obtain ⟨-, hprocessed⟩ := exists_processedFrom_of_process hs hr
  refine h.of_kept (fun v hv => ?_) fun u hu => ?_
  · obtain ⟨w, hw, hvw⟩ := hprocessed v hv
    exact ⟨w, hw, hvw.number_eq, hvw.outlet_eq⟩
  · obtain ⟨t, ht, htu⟩ := exists_source_of_process hs hr hu
    exact ⟨t, ht, htu.number_eq, htu.inlets.nodup (hs.process hr).nodup,
      fun n => htu.inlets.mem_or_flowsInto⟩

/-- Loading starts from segments that have no inlets. -/
theorem load {d : TreeDefinition} (hr : (s.load d options).outcome = .ok r) : InletsFlowIn r := by
  obtain ⟨-, hcheck, linked, hlink, hprocess⟩ := load_eq_ok.1 hr
  have hs := indexed_described d
  have hdescribed : InletsFlowIn (described d) := fun t ht => by
    simp [inlets_of_mem_described hcheck ht]
  exact (hdescribed.linkInlets hs hlink).process (hs.linkInlets hlink) hprocess

/-- Where links stay and no list is touched, all lists stay true. -/
theorem of_links (h : InletsFlowIn s)
    (hlinks : r.segments.map Segment.link = s.segments.map Segment.link)
    (hfrom : ∀ u ∈ r.segments, ∃ t ∈ s.segments, u.number = t.number ∧ u.inlets = t.inlets) :
    InletsFlowIn r := by
  refine h.of_kept (fun v hv => ?_) fun u hu => ?_
  · obtain ⟨i, hi⟩ := List.getElem?_of_mem hv
    obtain ⟨w, hw, hl⟩ := exists_link_eq hlinks hi
    exact ⟨w, List.mem_of_getElem? hw, congrArg Prod.fst hl, congrArg (fun l => l.2.2) hl⟩
  · obtain ⟨t, ht, hn, heq⟩ := hfrom u hu
    exact ⟨t, ht, hn, by rw [heq]; exact id, fun n hmem => .inl (heq ▸ hmem)⟩

/-- Attaching devices keeps all inlets flowing in. -/
theorem attachDevices (h : InletsFlowIn s) (hs : s.Indexed) {devices : List (Int × Device)}
    (hr : s.attachDevices devices = .ok r) : InletsFlowIn r := by
  obtain ⟨-, -, hl⟩ := hs.attachDevices hr
  obtain ⟨-, equipped, hall, rfl⟩ := attachDevices_eq_ok.1 hr
  refine h.of_links (links_eq_of_layouts hl) fun u hu => ?_
  rcases hs.mem_or_mem_of_mem_addAll hu with hnew | hold
  · obtain ⟨⟨m, device⟩, -, hequip⟩ := exists_of_forall₂ hall.flip hnew
    obtain ⟨t, ht, hequip⟩ := bind_eq_ok.1 hequip
    obtain ⟨l, -, hequip⟩ := bind_eq_ok.1 hequip
    obtain rfl := Except.ok.inj hequip
    exact ⟨t, (hs.get?_eq_some_iff.1 (get_eq_ok.1 ht)).1, t.attach_number device l,
      t.attach_inlets device l⟩
  · exact ⟨u, hold, rfl, rfl⟩

/-- Segments put into another order keep their inlets. -/
theorem of_perm (h : InletsFlowIn s) (hperm : r.segments.Perm s.segments) : InletsFlowIn r :=
  h.of_kept (fun v hv => ⟨v, hperm.mem_iff.2 hv, rfl, rfl⟩) fun u hu =>
    ⟨u, hperm.mem_iff.1 hu, rfl, id, fun _ => .inl⟩

/-- So does every operation that succeeds and adds no segments. -/
theorem perform (h : InletsFlowIn s) (hs : s.Indexed) {op : Operation}
    (hop : ∀ segments, op ≠ .add segments) (hr : (s.perform op).outcome = .ok r) :
    InletsFlowIn r := by
  cases op with
  | add segments => exact absurd rfl (hop segments)
  | load d options => exact load hr
  | process mode topDepth topLength options => exact h.process hs hr
  | order =>
    obtain ⟨_, -, hperm, -⟩ := exists_placement_of_order hs hr
    exact h.of_perm hperm.symm
  | attachDevices devices => exact h.attachDevices hs hr
  | attachScaledDevices devices connections =>
    obtain ⟨-, scaled, -, hr⟩ := attachScaledDevices_eq_ok.1 hr
    exact h.attachDevices hs hr
  | assignPerfLengths connections =>
    obtain rfl := Except.ok.inj hr
    refine h.of_links (links_eq_of_layouts (layouts_assignPerfLengths s connections)) fun u hu => ?_
    obtain ⟨t, ht, rfl⟩ := List.mem_map.1 hu
    exact ⟨t, ht, rfl, rfl⟩

/-- And so does every operation, whether it succeeds or fails, that adds no segments. -/
theorem after (h : InletsFlowIn s) (hs : s.Indexed) {op : Operation}
    (hop : ∀ segments, op ≠ .add segments) : InletsFlowIn (s.after op) := by
  obtain ⟨r, hr, hafter⟩ | ⟨-, hafter⟩ := s.after_cases op
  · rw [hafter]
    exact h.perform hs hop hr
  · rw [hafter]
    cases op with
    | order => exact h.of_perm hs.perm_rearranged
    | _ => exact h

end InletsFlowIn

/-- **Where no segment was moved, inlets are those of segments that flow in.** -/
theorem Unmoved.inletsFlowIn (h : Unmoved s) : InletsFlowIn s := by
  induction h with
  | empty => exact fun t ht => absurd ht List.not_mem_nil
  | add before hbare houtlet ih => exact ih.add before.reachable.indexed hbare houtlet
  | after op hop before ih => exact ih.after before.reachable.indexed hop

/-- **When inlet lists invert the outlets.**  After a successful processing the list of a
segment holds what it held before and all segments that flow into it; it is exact if
and only if everything that it held before flows in. Where no stored segment was ever
given another outlet, all lists are exact. -/
theorem inletsExact_iff_and_of_unmoved (hs : Reachable s)
    (h : (s.process mode topDepth topLength options).outcome = .ok r) :
    (∀ u ∈ r.segments, 0 < u.number → ∃ t ∈ s.segments, t.number = u.number ∧
      (∀ n, n ∈ u.inlets ↔ n ∈ t.inlets ∨ FlowsInto r.segments n u) ∧
      (InletsExact r.segments u ↔ t.inlets.Nodup ∧ ∀ n ∈ t.inlets, FlowsInto r.segments n u)) ∧
      (Unmoved s → ∀ u ∈ r.segments, 0 < u.number → InletsExact r.segments u) := by
  have hindexed := hs.indexed
  refine ⟨fun u hu hpos => ?_, fun hunmoved u hu hpos => ?_⟩
  · obtain ⟨t, ht, htu⟩ := exists_source_of_process hindexed h hu
    exact ⟨t, ht, htu.number_eq.symm, fun n => htu.inlets.mem_iff hpos,
      htu.inlets.inletsExact_iff (hindexed.process h).nodup hpos⟩
  · obtain ⟨hnodup, hflow⟩ := hunmoved.inletsFlowIn.process hindexed h u hu
    obtain ⟨t, -, htu⟩ := exists_source_of_process hindexed h hu
    exact ⟨hnodup, fun n => ⟨hflow n, fun hn => (htu.inlets.mem_iff hpos).2 (.inr hn)⟩⟩

/-- A main bore of two segments below the top one. -/
def straight : TreeDefinition where
  header := { well := "W", top := ⟨100.0, 1000.0, 0.0, 0.0⟩, volume := 1.0, mode := .incremental }
  records := [
    { first := 2, last := 3, branch := 1, join := 1, node := ⟨10.0, 5.0, 0.0, 0.0⟩,
      diameter := 0.2, roughness := 1.0e-4 }]

/-- The last segment of it, as a side branch at the top segment. -/
def moved : Segment :=
  { Segment.ofLink 3 2 1 with node := ⟨30.0, 20.0, 0.0, 0.0⟩ }

/-- A load, and the move of a segment after it. -/
def beforeMove : SegmentSet := SegmentSet.after {} (.load straight {})

def afterMove : SegmentSet := beforeMove.add moved

/-- The tree with the move, processed. -/
def reprocessed : SegmentSet := afterMove.after (.process .incremental 1000.0 100.0 {})

/-- The tree without the move, processed once more. -/
def unmoved : SegmentSet := beforeMove.after (.process .incremental 1000.0 100.0 {})

/-- The tree with the move shows what the lists hold then, and the tree without it has exact lists
after it is processed once more. -/
theorem inletsExact_iff_and_of_unmoved_straight :
    (∀ u ∈ reprocessed.segments, 0 < u.number → ∃ t ∈ afterMove.segments, t.number = u.number ∧
      (∀ n, n ∈ u.inlets ↔ n ∈ t.inlets ∨ FlowsInto reprocessed.segments n u) ∧
      (InletsExact reprocessed.segments u ↔
        t.inlets.Nodup ∧ ∀ n ∈ t.inlets, FlowsInto reprocessed.segments n u)) ∧
      ∀ u ∈ unmoved.segments, 0 < u.number → InletsExact unmoved.segments u := by
  have hbefore : Reachable beforeMove :=
    (Reachable.empty "" .acceleration .homogeneous).after (.load straight {})
  have hunmoved : Unmoved beforeMove := .after (.load straight {}) nofun (.empty ..)
  have hmoved : (afterMove.process .incremental 1000.0 100.0 {}).outcome = .ok reprocessed := by
    decide +kernel
  have hagain : (beforeMove.process .incremental 1000.0 100.0 {}).outcome = .ok unmoved := by
    decide +kernel
  exact ⟨(inletsExact_iff_and_of_unmoved (hbefore.after (.add [moved])) hmoved).1,
    (inletsExact_iff_and_of_unmoved hbefore hagain).2 hunmoved⟩

/-- **A moved segment remains an inlet where it was.**  Segment 3 flows into segment 1
and is an inlet of segment 2 as well, so a connection past the node of segment 2 gets a
depth on a line between two segments that are not next to each other. -/
theorem inlets_of_moved_segment :
    Reachable afterMove ∧
      (afterMove.process .incremental 1000.0 100.0 {}).outcome = .ok reprocessed ∧
      reprocessed.segments.map (fun t => (t.number, t.outlet, t.inlets))
        = [(1, 0, [2, 3]), (2, 1, [3]), (3, 1, [])] ∧
      (∃ u ∈ reprocessed.segments, 0 < u.number ∧ ¬ InletsExact reprocessed.segments u) ∧
      reprocessed.centerDepth 2 2 120.0 = .ok (some 1012.5) := by
  have hreachable : Reachable afterMove :=
    ((Reachable.empty "" .acceleration .homogeneous).after (.load straight {})).after (.add [moved])
  have hlisted : ∃ u ∈ reprocessed.segments, u.number = 2 ∧ 3 ∈ u.inlets := by decide +kernel
  have houtlet : ∀ v ∈ reprocessed.segments, v.number = 3 → v.outlet ≠ 2 := by decide +kernel
  refine ⟨hreachable, by decide +kernel, by decide +kernel, ?_, by decide +kernel⟩
  obtain ⟨u, hu, hn, hmem⟩ := hlisted
  refine ⟨u, hu, by omega, fun hexact => ?_⟩
  obtain ⟨v, hv, hvn, hvo⟩ := (hexact.mem_iff 3).1 hmem
  exact houtlet v hv hvn (hvo.trans hn)

end SegmentSet
end MultiSegmentWell
