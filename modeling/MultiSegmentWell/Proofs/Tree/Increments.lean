/-
# Incremental nodes are sums of changes

SPEC_FULL.md, 4.4 and 8, P7: prefix sums.

Processing a set with incremental records adds to every node the node of its outlet,
once and in the final form of that outlet (`ChangesAdded`). The loop that does this
walks through the ordered segments, so the outlet of each is among those it has done
(`forall₂_of_settleAllChanges`).

Along the outlet chain of a segment the additions make up one sum, taken from the top
segment downwards. In a loaded well the changes are those of the last records that
cover the segments on the chain (`IsPathSum`).
-/

import MultiSegmentWell.Proofs.Order.Verdict
import MultiSegmentWell.Proofs.Tree.Records
import MultiSegmentWell.Proofs.Tree.Resolved

namespace MultiSegmentWell
namespace SegmentSet

/-- What becomes of a segment when changes are added up, given the settled segments. -/
inductive ChangeSettled (settled : List Segment) (t : Segment) : Segment → Prop where
  | kept (ready : t.ready = true) : ChangeSettled settled t t
  | added {outlet : Segment} (ready : t.ready = false) (mem : outlet ∈ settled)
    (number : outlet.number = t.outlet) :
    ChangeSettled settled t (t.settle (outlet.node.add t.node))

namespace ChangeSettled

variable {settled more : List Segment} {t u : Segment}

/-- A settled segment stays settled among more segments. -/
theorem mono (h : ChangeSettled settled t u) (hsub : settled ⊆ more) : ChangeSettled more t u := by
  cases h with
  | kept hready => exact .kept hready
  | added hready hmem hn => exact .added hready (hsub hmem) hn

/-- A settled segment is ready. -/
theorem ready_eq (h : ChangeSettled settled t u) : u.ready = true := by
  cases h with
  | kept hready => exact hready
  | added => rfl

/-- A settled segment keeps its number. -/
theorem number_eq (h : ChangeSettled settled t u) : u.number = t.number := by
  cases h <;> rfl

end ChangeSettled

/-- Settled segments keep their numbers. -/
theorem numbers_of_forall₂ {settled rest later : List Segment}
    (h : List.Forall₂ (ChangeSettled settled) rest later) :
    later.map Segment.number = rest.map Segment.number := by
  induction h with
  | nil => rfl
  | cons hu _ ih => rw [List.map_cons, List.map_cons, hu.number_eq, ih]

/-- One step of the loop settles a segment behind the outlet that it has done. -/
theorem changeSettled_of_settleChanges {well : String} {done : List Segment} {t u : Segment}
    (h : settleChanges well done t = .ok u) : ChangeSettled done t u := by
  unfold settleChanges at h
  split at h
  · rename_i hready
    obtain rfl := Except.ok.inj h
    exact .kept hready
  · rename_i hready
    obtain ⟨outlet, houtlet, rfl⟩ := map_eq_ok.1 h
    obtain ⟨hmem, hn⟩ := mem_of_outletAmong houtlet
    exact .added (Bool.eq_false_iff.2 hready) hmem hn

/-- **The loop adds to each segment its outlet in the form in which it ends.**  What is
done is not touched again, so an outlet found among the done segments is a settled one. -/
theorem forall₂_of_settleAllChanges {well : String} {done rest settled : List Segment}
    (h : settleAllChanges well done rest = .ok settled) :
    ∃ later, settled = done ++ later ∧ List.Forall₂ (ChangeSettled settled) rest later := by
  induction rest generalizing done with
  | nil =>
    obtain rfl := Except.ok.inj h
    exact ⟨[], (List.append_nil _).symm, .nil⟩
  | cons t rest ih =>
    obtain ⟨u, hu, h⟩ := bind_eq_ok.1 h
    obtain ⟨later, rfl, hlater⟩ := ih h
    have hsub : done ⊆ done ++ [u] ++ later := fun a ha =>
      List.mem_append_left _ (List.mem_append_left _ ha)
    exact ⟨u :: later, by rw [List.append_assoc]; rfl,
      .cons ((changeSettled_of_settleChanges hu).mono hsub) hlater⟩

variable {s r : SegmentSet}

/-- The segment with a settled top node. -/
def settledTop (t : Segment) (topDepth topLength : Float) : Segment :=
  t.settle { t.node with length := topLength, depth := topDepth }

/-- Incremental nodes are resolved from the settled top segment on, in an order of the
segments that starts with it. -/
theorem exists_later_of_resolveIncremental (hs : s.Indexed) {topDepth topLength : Float}
    (h : s.resolveIncremental topDepth topLength = .ok r) :
    ∃ t ∈ s.segments, t.number = topNumber ∧ ∃ rest later,
      r.segments = settledTop t topDepth topLength :: later ∧
        (s.add (settledTop t topDepth topLength)).segments.Perm
          (settledTop t topDepth topLength :: rest) ∧
        List.Forall₂ (ChangeSettled r.segments) rest later := by
  obtain ⟨t, ordered, ht, hordered, h⟩ := resolveIncremental_eq_ok.1 h
  obtain ⟨hmem, hn⟩ := hs.get?_eq_some_iff.1 (get_eq_ok.1 ht)
  refine ⟨t, hmem, hn, ?_⟩
  have hadd := hs.add (settledTop t topDepth topLength)
  obtain ⟨_, -, hperm, -⟩ := exists_placement_of_order hadd hordered
  have htop := (inOrder_of_order hadd hordered).top
  split at h
  · rename_i hnil
    rw [hnil] at htop
    cases htop
  · rename_i first rest hsegs
    obtain ⟨settled, hsettled, rfl⟩ := h
    rw [hsegs] at hperm htop
    -- The segment placed first has the number of the top one, which is stored once.
    have hfirst : first = settledTop t topDepth topLength := by
      refine (hs.mem_add_iff.1 (hperm.mem_iff.2 List.mem_cons_self)).resolve_right fun hne => ?_
      exact hne.1 ((Option.some.inj htop).trans hn.symm)
    subst hfirst
    obtain ⟨later, hlater, hall⟩ := forall₂_of_settleAllChanges hsettled
    exact ⟨rest, later, hlater, hperm, hall⟩

/-- A set whose nodes are resolved, before its inlets are linked. -/
structure NodesSettled (s q : SegmentSet) (topDepth topLength : Float) : Prop where
  numbers : q.numbers.Perm s.numbers
  ready : ∀ u ∈ q.segments, u.ready = true
  top : ∃ t ∈ s.segments, t.number = topNumber ∧ settledTop t topDepth topLength ∈ q.segments
  other : ∀ t ∈ s.segments, t.number ≠ topNumber → ∃ u ∈ q.segments, ChangeSettled q.segments t u

/-- **Resolving incremental records settles every node** behind that of its outlet. -/
theorem nodesSettled_of_resolveIncremental (hs : s.Indexed) {topDepth topLength : Float}
    (h : s.resolveIncremental topDepth topLength = .ok r) :
    NodesSettled s r topDepth topLength := by
  obtain ⟨t, ht, hn, rest, later, hsegs, hperm, hall⟩ := exists_later_of_resolveIncremental hs h
  generalize hfirst : settledTop t topDepth topLength = first at hsegs hperm
  have hnumber : first.number = t.number := by rw [← hfirst]; rfl
  have hstored : first.number ∈ s.numbers := by
    rw [hnumber]
    exact List.mem_map_of_mem ht
  have hmem : ∀ u, u ∈ r.segments ↔ u = first ∨ u ∈ later := by simp [hsegs]
  refine ⟨?_, fun u hu => ?_, ⟨t, ht, hn, ?_⟩, fun u hu hun => ?_⟩
  · rw [← hs.numbers_add hstored]
    show (r.segments.map Segment.number).Perm _
    rw [hsegs, List.map_cons, numbers_of_forall₂ hall, ← List.map_cons]
    exact (hperm.map Segment.number).symm
  · rcases (hmem u).1 hu with rfl | hu
    · rw [← hfirst]
      rfl
    · obtain ⟨_, -, hsettled⟩ := exists_of_forall₂ hall.flip hu
      exact hsettled.ready_eq
  · exact (hmem _).2 (.inl hfirst)
  · have hne : u.number ≠ first.number := fun h => hun (h.trans (hnumber.trans hn))
    have hrest : u ∈ rest := by
      refine (List.mem_cons.1 (hperm.mem_iff.1 (hs.mem_add_iff.2 (.inr ⟨hne, hu⟩)))).resolve_left ?_
      rintro rfl
      exact hne rfl
    obtain ⟨v, hv, huv⟩ := exists_of_forall₂ hall hrest
    exact ⟨v, (hmem v).2 (.inr hv), huv⟩

/-- A set in which changes were added up from the top: `r` holds what became of the
segments of `s`. Only nodes, marks and inlets differ. -/
structure ChangesAdded (s r : SegmentSet) (topDepth topLength : Float) : Prop where
  /-- The same numbers are stored. -/
  numbers : r.numbers.Perm s.numbers
  /-- All segments have nodes of their own. -/
  ready : ∀ u ∈ r.segments, u.ready = true
  /-- The top segment lies at the given depth and length. -/
  top : ∃ t ∈ s.segments, t.number = topNumber ∧ ∃ u ∈ r.segments,
    u = { t with
      node := { t.node with length := topLength, depth := topDepth }
      ready := true
      inlets := u.inlets }
  /-- A segment that held a change has it added to the node of its outlet. -/
  added : ∀ t ∈ s.segments, t.number ≠ topNumber → t.ready = false →
    ∃ outlet ∈ r.segments, outlet.number = t.outlet ∧ ∃ u ∈ r.segments,
      u = { t with
        node := {
          length := outlet.node.length + t.node.length
          depth := outlet.node.depth + t.node.depth
          x := outlet.node.x + t.node.x
          y := outlet.node.y + t.node.y }
        ready := true
        inlets := u.inlets }
  /-- A segment that had a node of its own keeps it. -/
  kept : ∀ t ∈ s.segments, t.number ≠ topNumber → t.ready = true →
    ∃ u ∈ r.segments, u = { t with inlets := u.inlets }

/-- **Building adds every change once.** -/
theorem changesAdded_of_build (hs : s.Indexed) {topDepth topLength : Float}
    (h : s.build .incremental topDepth topLength = .ok r) :
    ChangesAdded s r topDepth topLength := by
  obtain ⟨q, hq, hlink⟩ := build_eq_ok.1 h
  have hsettled := nodesSettled_of_resolveIncremental hs hq
  have hlinked := forall₂_of_linkInlets hlink
  refine ⟨?_, fun u hu => ?_, ?_, fun t ht hn hready => ?_, fun t ht hn hready => ?_⟩
  · rw [numbers, numbers_eq_of_links (links_of_linkInlets hlink).1]
    exact hsettled.numbers
  · obtain ⟨v, hv, huv⟩ := exists_of_forall₂ hlinked.flip hu
    rw [huv]
    exact hsettled.ready v hv
  · obtain ⟨t, ht, hn, htop⟩ := hsettled.top
    exact ⟨t, ht, hn, exists_of_forall₂ hlinked htop⟩
  · obtain ⟨v, hv, hvs⟩ := hsettled.other t ht hn
    obtain ⟨u, hu, huv⟩ := exists_of_forall₂ hlinked hv
    cases hvs with
    | kept hkept => exact absurd (hready.symm.trans hkept) Bool.false_ne_true
    | added _ hmem hon =>
      obtain ⟨outlet, houtlet, heq⟩ := exists_of_forall₂ hlinked hmem
      refine ⟨outlet, houtlet, by rw [heq, ← hon], u, hu, ?_⟩
      rw [heq]
      exact huv
  · obtain ⟨v, hv, hvs⟩ := hsettled.other t ht hn
    cases hvs with
    | kept => exact exists_of_forall₂ hlinked hv
    | added hheld => exact absurd (hheld.symm.trans hready) Bool.false_ne_true

variable {d : TreeDefinition} {options : Options}

/-- A segment of the described set is the top segment or that of the last record that
covers its number. -/
theorem cases_of_mem_described
    (hcheck : ∀ record ∈ d.records, record.check d.header.well d.header.mode = .ok ())
    {t : Segment} (ht : t ∈ (described d).segments) :
    t = d.header.topSegment ∨
      t.number ≠ topNumber ∧ ∃ record, d.recordOf? t.number = some record ∧
        t = record.segment d.header.mode t.number := by
  have hget := (indexed_described d).get?_eq_some_iff.2 ⟨ht, rfl⟩
  rw [get?_described] at hget
  by_cases hn : t.number = topNumber
  · rw [hn, recordOf?_top hcheck, if_pos rfl] at hget
    exact .inl (Option.some.inj hget).symm
  · rw [if_neg hn, Option.or_none] at hget
    obtain ⟨record, hrecord, heq⟩ := Option.map_eq_some_iff.1 hget
    exact .inr ⟨hn, record, hrecord, heq.symm⟩

/-- The nodes of loaded segments, one from the other: the top node is that of the header,
and every other one adds the change of the last record for its number. -/
structure NodesOfRecords (d : TreeDefinition) (segments : List Segment) : Prop where
  top : ∀ u ∈ segments, u.number = topNumber → u.node = d.header.top
  other : ∀ u ∈ segments, u.number ≠ topNumber → ∃ outlet ∈ segments, outlet.number = u.outlet ∧
    ∃ record, d.recordOf? u.number = some record ∧ u.node = outlet.node.add record.node

/-- In a loaded set the settled nodes are those of the records. -/
theorem nodesOfRecords_of_load (hmode : d.header.mode = .incremental)
    (h : (s.load d options).outcome = .ok r) : NodesOfRecords d r.segments := by
  obtain ⟨-, hcheck, linked, hlink, hprocess⟩ := load_eq_ok.1 h
  have hindexed := (indexed_described d).linkInlets hlink
  have hr := hindexed.process hprocess
  obtain ⟨built, hbuilt, -, rfl⟩ := process_eq_ok.1 hprocess
  rw [hmode] at hbuilt
  have hadded := changesAdded_of_build hindexed hbuilt
  have hsame : ∀ u ∈ built.segments, ∀ v ∈ built.segments, v.number = u.number → v = u :=
    fun u hu v hv hn => List.inj_on_of_nodup_map hr.nodup hv hu hn
  have hsource : ∀ t ∈ linked.segments, ∃ t₀ ∈ (described d).segments,
      t = { t₀ with inlets := t.inlets } := fun t ht =>
    exists_of_forall₂ (forall₂_of_linkInlets hlink).flip ht
  refine ⟨fun u hu hn => ?_, fun u hu hn => ?_⟩
  · obtain ⟨t, ht, htn, v, hv, heq⟩ := hadded.top
    obtain rfl : v = u := hsame u hu v hv (by rw [heq, hn, ← htn])
    obtain ⟨t₀, ht₀, ht⟩ := hsource t ht
    rcases cases_of_mem_described hcheck ht₀ with rfl | ⟨hne, -⟩
    · rw [heq, ht]
      simp [Header.topSegment, hmode]
    · rw [ht] at htn
      exact absurd htn hne
  · obtain ⟨t, ht, htn⟩ := List.mem_map.1 (hadded.numbers.mem_iff.1 (List.mem_map_of_mem hu))
    obtain ⟨t₀, ht₀, htt⟩ := hsource t ht
    have htn₀ : t₀.number = u.number := by rw [← htn, htt]
    rcases cases_of_mem_described hcheck ht₀ with rfl | ⟨-, record, hrecord, hseg⟩
    · exact absurd htn₀.symm hn
    · have hready : t.ready = false := by
        rw [htt, hseg, hmode]
        rfl
      obtain ⟨outlet, houtlet, hon, v, hv, heq⟩ := hadded.added t ht (htn ▸ hn) hready
      obtain rfl : v = u := hsame u hu v hv (by rw [heq, ← htn])
      refine ⟨outlet, houtlet, by rw [hon, heq], record, htn₀ ▸ hrecord, ?_⟩
      rw [heq, htt, hseg]
      rfl

/-- The node of a segment is the sum of the changes along the path to it from the top
segment, added to the top node one after the other. -/
def IsPathSum (d : TreeDefinition) (segments : List Segment) (u : Segment) : Prop :=
  ∃ chain top path records, OutletChain segments u chain ∧ chain.reverse = top :: path ∧
    List.Forall₂ (fun t record => d.recordOf? t.number = some record) path records ∧
      u.node.length = (records.map (·.node.length)).foldl (· + ·) d.header.top.length ∧
      u.node.depth = (records.map (·.node.depth)).foldl (· + ·) d.header.top.depth ∧
      u.node.x = (records.map (·.node.x)).foldl (· + ·) d.header.top.x ∧
      u.node.y = (records.map (·.node.y)).foldl (· + ·) d.header.top.y

/-- A coordinate of a sum of nodes is the sum of that coordinate. -/
theorem coordinate_foldl_add {coordinate : Node → Float}
    (hadd : ∀ a c : Node, coordinate (a.add c) = coordinate a + coordinate c)
    (records : List RangeRecord) (top : Node) :
    coordinate ((records.map RangeRecord.node).foldl Node.add top) =
      (records.map fun record => coordinate record.node).foldl (· + ·) (coordinate top) := by
  rw [List.foldl_map, List.foldl_map]
  exact (List.foldl_hom coordinate fun a record => (hadd a record.node).symm).symm

/-- **Along an outlet chain the changes add up.** -/
theorem NodesOfRecords.isPathSum {segments chain : List Segment} {u : Segment}
    (h : NodesOfRecords d segments) (hnd : (segments.map Segment.number).Nodup)
    (hchain : OutletChain segments u chain) : IsPathSum d segments u := by
  suffices hsum : ∃ top path records, chain.reverse = top :: path ∧
      List.Forall₂ (fun t record => d.recordOf? t.number = some record) path records ∧
        u.node = (records.map RangeRecord.node).foldl Node.add d.header.top by
    obtain ⟨top, path, records, hpath, hrecords, hnode⟩ := hsum
    refine ⟨chain, top, path, records, hchain, hpath, hrecords, ?_⟩
    rw [hnode]
    exact ⟨coordinate_foldl_add (fun _ _ => rfl) .., coordinate_foldl_add (fun _ _ => rfl) ..,
      coordinate_foldl_add (fun _ _ => rfl) .., coordinate_foldl_add (fun _ _ => rfl) ..⟩
  induction hchain with
  | @top t hmem hn => exact ⟨t, [], [], rfl, .nil, h.top t hmem hn⟩
  | @step t v chain hmem hn hvo hrest ih =>
    obtain ⟨top, path, records, hpath, hrecords, hnode⟩ := ih
    obtain ⟨outlet, houtlet, hon, record, hrecord, hadd⟩ := h.other t hmem hn
    obtain rfl : outlet = v :=
      List.inj_on_of_nodup_map hnd houtlet hrest.mem (hon.trans hvo.symm)
    refine ⟨top, path ++ [t], records ++ [record], ?_, ?_, ?_⟩
    · rw [List.reverse_cons, hpath, List.cons_append]
    · exact List.rel_append hrecords (.cons hrecord .nil)
    · rw [hadd, hnode, List.map_append, List.foldl_append]
      rfl

/-- **Incremental resolution is exact.**  Processing a set with incremental records puts
the top segment at the given depth and length and adds to every node that held a change
the final node of its own outlet; nodes that were ready stay, all are ready in the end,
and nothing else of a segment changes but its inlets. In a well loaded with incremental
records the node of every segment is the sum, from left to right, of the changes on its
path from the top. -/
theorem changesAdded_and_isPathSum :
    (∀ (s r : SegmentSet) (topDepth topLength : Float) (options : Options), Reachable s →
      (s.process .incremental topDepth topLength options).outcome = .ok r →
        ChangesAdded s r topDepth topLength) ∧
      ∀ (s r : SegmentSet) (d : TreeDefinition) (options : Options),
        d.header.mode = .incremental → (s.load d options).outcome = .ok r →
          ∀ u ∈ r.segments, IsPathSum d r.segments u := by
  refine ⟨fun s r topDepth topLength options hs h => ?_, fun s r d options hmode h u hu => ?_⟩
  · obtain ⟨built, hbuilt, -, rfl⟩ := process_eq_ok.1 h
    have hadded := changesAdded_of_build hs.indexed hbuilt
    exact ⟨hadded.numbers, hadded.ready, hadded.top, hadded.added, hadded.kept⟩
  · have hr := settled_of_load h
    obtain ⟨chain, hchain, -⟩ := hr.outletsFirst.chain u hu
    exact (nodesOfRecords_of_load hmode h).isPathSum hr.indexed.nodup hchain

/-- Changes on two branches and a node of its own between them, stored from the far end. -/
def partlyReady : SegmentSet :=
  ofSegments "W" .friction
    [{ Segment.ofLink 5 2 4 with node := ⟨5.0, 1.0, 0.5, 0.0⟩ },
      { Segment.ofLink 4 2 2 with node := ⟨130.0, 1012.0, 0.0, 0.0⟩, ready := true },
      { Segment.ofLink 3 1 2 with node := ⟨10.0, 4.0, 0.0, 0.0⟩ },
      { Segment.ofLink 2 1 1 with node := ⟨10.0, 4.0, 0.0, 0.0⟩ },
      .ofLink 1 1 0]

/-- The nodes that come out: segment 5 adds its change to the node that segment 4 had from the
start, and in the loaded well the paths to segments 4 and 6 part at segment 3. -/
theorem changesAdded_and_isPathSum_scrambled :
    (Reachable partlyReady ∧ ∃ r, (partlyReady.process .incremental 1000.0 100.0 {}).outcome = .ok r ∧
        r.segments.map (fun t => (t.number, t.node)) =
          [(1, ⟨100.0, 1000.0, 0.0, 0.0⟩), (2, ⟨110.0, 1004.0, 0.0, 0.0⟩),
            (3, ⟨120.0, 1008.0, 0.0, 0.0⟩), (4, ⟨130.0, 1012.0, 0.0, 0.0⟩),
            (5, ⟨135.0, 1013.0, 0.5, 0.0⟩)] ∧
        ChangesAdded partlyReady r 1000.0 100.0) ∧
      scrambled.header.mode = .incremental ∧
        ∃ r, (({} : SegmentSet).load scrambled {}).outcome = .ok r ∧
          r.segments.map (fun t => (t.number, t.node)) =
            [(1, ⟨10.0, 1000.0, 0.0, 0.0⟩), (2, ⟨20.0, 1004.0, 0.0, 0.0⟩),
              (3, ⟨30.0, 1008.0, 0.0, 0.0⟩), (4, ⟨42.0, 1012.0, 0.0, 0.0⟩),
              (5, ⟨35.0, 1009.0, 0.0, 0.0⟩), (6, ⟨40.0, 1010.0, 0.0, 0.0⟩)] ∧
          ∀ u ∈ r.segments, IsPathSum scrambled r.segments u := by
  have hreach : Reachable partlyReady := reachable_ofSegments ..
  obtain ⟨hprocess, hload⟩ := changesAdded_and_isPathSum
  refine ⟨⟨hreach, exists_ok_and ?_ fun r hr => hprocess partlyReady r 1000.0 100.0 {} hreach hr⟩,
    rfl, exists_ok_and ?_ fun r hr => hload {} r scrambled {} rfl hr⟩
  · decide +kernel
  · decide +kernel

end SegmentSet
end MultiSegmentWell
