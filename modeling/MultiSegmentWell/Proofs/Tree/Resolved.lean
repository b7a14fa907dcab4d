/-
# What stands after resolving

SPEC_FULL.md, 3 and 8, P1 to P3: what holds of a resolved set.

Once a tree is loaded or processed, the top segment is at position 0, every other
segment is stored after its outlet, every outlet chain comes to the top segment
without repeating a segment, and every segment has a length (`OutletsFirst`).

This follows from three facts: the position map is exact, the segments are in order,
and all lengths exist (`Settled`). They depend on the layouts of the segments alone
(`Settled.congr`), so equipping segments keeps them; and ordering once more changes
nothing, because the segments are in order already.
-/

import MultiSegmentWell.Proofs.Tree.History

namespace MultiSegmentWell

/-- The operations that equip or order segments: they neither add nor settle any. -/
def Operation.KeepsTree : Operation → Prop
  | .order | .attachDevices _ | .attachScaledDevices _ _ | .assignPerfLengths _ => True
  | .add _ | .load _ _ | .process _ _ _ _ => False

namespace SegmentSet

/-- A tree that is stored outlet first and whose segments all have a length. -/
structure OutletsFirst (s : SegmentSet) : Prop where
  /-- Position 0 holds the top segment. -/
  top : s.numbers[0]? = some topNumber
  /-- The outlet of every other segment is stored at a smaller position. -/
  outlet : ∀ (i : Nat) (t : Segment), s.segments[i]? = some t → t.number ≠ topNumber →
    ∃ j < i, s.numbers[j]? = some t.outlet
  /-- Every outlet chain comes to the top segment and repeats no segment. -/
  chain : ∀ t ∈ s.segments, ∃ chain, OutletChain s.segments t chain ∧ chain.Nodup
  length : ∀ n ∈ s.numbers, ∃ l, s.segmentLength n = .ok l

/-- What a resolved set keeps as long as its tree is not touched. -/
structure Settled (s : SegmentSet) : Prop where
  indexed : s.Indexed
  inOrder : InOrder s.segments
  length : ∀ n ∈ s.numbers, ∃ l, s.segmentLength n = .ok l

variable {s r : SegmentSet}

/-- In segments that are in order every one but the top one has its outlet before it. -/
theorem InOrder.exists_outlet {v : List Segment} (h : InOrder v) {i : Nat} {t : Segment}
    (ht : v[i]? = some t) (hn : t.number ≠ topNumber) :
    ∃ j < i, ∃ u, v[j]? = some u ∧ u.number = t.outlet := by
  have hi : i ≠ 0 := by
    rintro rfl
    have htop := h.top
    rw [List.getElem?_map, ht] at htop
    exact hn (Option.some.inj htop)
  obtain ⟨u, hu, huo⟩ := List.mem_map.1 (h.outlet i t ht hi)
  obtain ⟨j, hj⟩ := List.getElem?_of_mem hu
  rw [List.getElem?_take] at hj
  split_ifs at hj with hji
  exact ⟨j, hji, u, hj, huo⟩

/-- In segments that are in order the chain of each one leads to smaller positions. -/
theorem InOrder.exists_chain {v : List Segment} (h : InOrder v) (hnd : v.Nodup) {i : Nat}
    {t : Segment} (ht : v[i]? = some t) :
    ∃ chain, OutletChain v t chain ∧ chain.Nodup ∧ ∀ u ∈ chain, ∃ j ≤ i, v[j]? = some u := by
  induction i using Nat.strongRecOn generalizing t with
  | ind i ih =>
    by_cases hn : t.number = topNumber
    · refine ⟨[t], .top (List.mem_of_getElem? ht) hn, List.nodup_singleton t, ?_⟩
      intro u hu
      rw [List.mem_singleton.1 hu]
      exact ⟨i, Nat.le_refl i, ht⟩
    · obtain ⟨j, hji, u, hj, huo⟩ := h.exists_outlet ht hn
      obtain ⟨chain, hchain, hcn, hbefore⟩ := ih j hji hj
      -- The chain of the outlet stays at positions up to `j`, so `t` is not on it.
      have hnot : t ∉ chain := by
        intro hmem
        obtain ⟨k, hkj, hk⟩ := hbefore t hmem
        have hik : i = k :=
          (List.getElem?_inj (List.getElem?_eq_some_iff.1 ht).1 hnd).1 (ht.trans hk.symm)
        omega
      refine ⟨t :: chain, .step (List.mem_of_getElem? ht) hn huo hchain,
        List.nodup_cons.2 ⟨hnot, hcn⟩, List.forall_mem_cons.2 ⟨⟨i, Nat.le_refl i, ht⟩, ?_⟩⟩
      intro w hw
      obtain ⟨k, hkj, hk⟩ := hbefore w hw
      exact ⟨k, by omega, hk⟩

/-- **Outlets come first in a settled set.** -/
theorem Settled.outletsFirst (h : Settled s) : OutletsFirst s where
  top := h.inOrder.top
  outlet i t ht hn := by
    obtain ⟨j, hji, u, hj, huo⟩ := h.inOrder.exists_outlet ht hn
    exact ⟨j, hji, by rw [numbers, List.getElem?_map, hj, Option.map_some, huo]⟩
  chain t ht := by
    obtain ⟨i, hi⟩ := List.getElem?_of_mem ht
    obtain ⟨chain, hchain, hcn, -⟩ := h.inOrder.exists_chain h.indexed.segments_nodup hi
    exact ⟨chain, hchain, hcn⟩
  length := h.length

/-- A settled set stays settled when its segments are replaced by others of the same
layout. -/
theorem Settled.congr (h : Settled s) (hr : r.Indexed) (hw : r.well = s.well)
    (hl : r.segments.map Segment.layout = s.segments.map Segment.layout) : Settled r where
  indexed := hr
  inOrder := h.inOrder.congr (links_eq_of_layouts hl).symm
  length n hn := by
    have hnum : r.numbers = s.numbers := numbers_eq_of_links (links_eq_of_layouts hl)
    rw [segmentLength_congr h.indexed hr hw hl]
    exact h.length n (hnum ▸ hn)

/-- A stored top segment has a length. -/
theorem segmentLength_top (hs : s.Indexed) (h : topNumber ∈ s.numbers) :
    ∃ l, s.segmentLength topNumber = .ok l := by
  obtain ⟨t, -, -, hget⟩ := hs.exists_get h
  exact ⟨t.node.length, by rw [segmentLength, hget]; rfl⟩

/-- **Processing settles a set.** -/
theorem settled_of_process (hs : s.Indexed) {mode : GeometryMode} {topDepth topLength : Float}
    {options : Options} (h : (s.process mode topDepth topLength options).outcome = .ok r) :
    Settled r := by
  obtain ⟨built, hbuilt, hcheck, rfl⟩ := process_eq_ok.1 h
  have hb := hs.build hbuilt
  have horder := inOrder_of_build hs hbuilt
  have hlength : ∀ n ∈ built.numbers, ∃ l, built.segmentLength n = .ok l := by
    intro n hn
    obtain ⟨t, ht, rfl⟩ := List.mem_map.1 hn
    by_cases htop : t.number = topNumber
    · rw [htop] at hn ⊢
      exact segmentLength_top hb hn
    · obtain ⟨⟨l, c⟩, he⟩ := exists_extent_of_check hcheck t ht htop
      exact ⟨l, (extent_eq_ok.1 he).1⟩
  exact ⟨hb.congr rfl rfl, horder, hlength⟩

/-- **A loaded set is settled.** -/
theorem settled_of_load {d : TreeDefinition} {options : Options}
    (h : (s.load d options).outcome = .ok r) : Settled r := by
  obtain ⟨_, hlinked, hprocess⟩ := exists_process_of_load h
  exact settled_of_process hlinked hprocess

/-- **Equipping and ordering keep a set settled**, whether they succeed or fail. -/
theorem Settled.after (h : Settled s) {op : Operation} (hop : op.KeepsTree) :
    Settled (s.after op) := by
  have horder := order_of_inOrder h.indexed h.inOrder
  obtain ⟨r, hr, hafter⟩ | ⟨⟨e, he⟩, hafter⟩ := s.after_cases op
  · rw [hafter]
    cases op with
    | order =>
      obtain rfl := Except.ok.inj (horder.symm.trans hr)
      exact h.congr (indexed_withSegments s h.indexed.nodup) rfl rfl
    | attachDevices devices =>
      obtain ⟨hi, hw, hl⟩ := h.indexed.attachDevices hr
      exact h.congr hi hw hl
    | attachScaledDevices devices connections =>
      obtain ⟨hi, hw, hl⟩ := h.indexed.attachScaledDevices hr
      exact h.congr hi hw hl
    | assignPerfLengths connections =>
      obtain rfl := Except.ok.inj hr
      exact h.congr (h.indexed.assignPerfLengths connections) rfl
        (layouts_assignPerfLengths s connections)
    | add | load | process => exact hop.elim
  · rw [hafter]
    cases op with
    | order =>
      cases horder.symm.trans he
    | _ => exact h

/-- Operations that keep the tree keep the set settled. -/
theorem Settled.foldl_after (h : Settled s) {ops : List Operation}
    (hops : ∀ op ∈ ops, op.KeepsTree) : Settled (ops.foldl SegmentSet.after s) := by
  induction ops generalizing s with
  | nil => exact h
  | cons op ops ih =>
    obtain ⟨hop, hops⟩ := List.forall_mem_cons.1 hops
    exact ih (h.after hop) hops

/-- **A resolved tree is stored outlet first, and stays so.**  After a successful load
or a successful processing of a reachable set, and after any operations on the result that
equip or order segments, successful or not, position 0 holds the top segment, every
other segment is stored after its outlet, every outlet chain comes to the top segment
without repeating one, and every stored segment has a length. -/
theorem outletsFirst_of_resolved
    (h : (∃ d options, (s.load d options).outcome = .ok r) ∨
      Reachable s ∧ ∃ mode topDepth topLength options,
        (s.process mode topDepth topLength options).outcome = .ok r)
    (ops : List Operation) (hops : ∀ op ∈ ops, op.KeepsTree) :
    OutletsFirst (ops.foldl SegmentSet.after r) := by
  have hr : Settled r := by
    obtain ⟨d, options, h⟩ | ⟨hs, mode, topDepth, topLength, options, h⟩ := h
    · exact settled_of_load h
    · exact settled_of_process hs.indexed h
  exact (hr.foldl_after hops).outletsFirst

/-- Records of a side branch before those of the main bore it hangs off, with the end
of the main bore given twice. -/
def scrambled : TreeDefinition where
  header := { well := "W", top := ⟨10.0, 1000.0, 0.0, 0.0⟩, volume := 1.0, mode := .incremental }
  records := [
    { first := 5, last := 6, branch := 2, join := 3, node := ⟨5.0, 1.0, 0.0, 0.0⟩,
      diameter := 0.1, roughness := 1.0e-5 },
    { first := 2, last := 4, branch := 1, join := 1, node := ⟨10.0, 4.0, 0.0, 0.0⟩,
      diameter := 0.2, roughness := 1.0e-5 },
    { first := 4, last := 4, branch := 1, join := 3, node := ⟨12.0, 4.0, 0.0, 0.0⟩,
      diameter := 0.2, roughness := 1.0e-5 }]

/-- Ordering, an attachment to a segment that is not stored, and one that is possible. -/
def equipment : List Operation :=
  [.order, .attachDevices [(9, .regular)], .attachDevices [(4, .valve ⟨0.7, 0.01, none, none, none,
    none, none, .opened⟩)], .assignPerfLengths [⟨6, 30.0, 35.0, none⟩]]

/-- Outlets come first in the loaded well, and still do when it is ordered again and equipped, a
failing attachment in between. -/
theorem outletsFirst_of_resolved_scrambled :
    ∃ r, (({} : SegmentSet).load scrambled {}).outcome = .ok r ∧
      (∀ op ∈ equipment, op.KeepsTree) ∧ OutletsFirst (equipment.foldl SegmentSet.after r) := by
  have hops : ∀ op ∈ equipment, op.KeepsTree := by simp [equipment, Operation.KeepsTree]
  have hok : (({} : SegmentSet).load scrambled {}).outcome.isOk = true := by decide +kernel
  obtain ⟨r, hr⟩ : ∃ r, (({} : SegmentSet).load scrambled {}).outcome = .ok r := by
    cases h : (({} : SegmentSet).load scrambled {}).outcome with
    | ok r => exact ⟨r, rfl⟩
    | error e =>
      rw [h] at hok
      cases hok
  exact ⟨r, hr, hops, outletsFirst_of_resolved (.inl ⟨scrambled, {}, hr⟩) equipment hops⟩

end SegmentSet
end MultiSegmentWell
