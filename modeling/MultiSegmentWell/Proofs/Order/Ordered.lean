/-
# Segments in order

SPEC_FULL.md, 8, P2: topological order.

`InOrder` says of segments in storage order what ordering is for: the top segment is
first, every other one comes after its outlet, and a branch is continued where it can
be. It is a statement about numbers, branches and outlets alone (`InOrder.congr`).

A complete placement is in order (`Placement.inOrder`), and segments that are in order
stay as they are when they are ordered again (`arrange_of_inOrder`): at each position
the first of the pending segments is the one chosen.
-/

import MultiSegmentWell.Proofs.Order.Arrangement

namespace MultiSegmentWell

/-- What ties a segment into the tree: its number, its branch and its outlet. -/
def Segment.link (s : Segment) : Int × Int × Int := (s.number, s.branch, s.outlet)

/-- Segments with the same links have the same numbers. -/
theorem numbers_eq_of_links {xs ys : List Segment} (h : xs.map Segment.link = ys.map Segment.link) :
    xs.map Segment.number = ys.map Segment.number := by
  have hfst := congrArg (List.map Prod.fst) h
  rw [List.map_map, List.map_map] at hfst
  exact hfst

namespace SegmentSet

/-- The segment at position `j` comes after the one at position `k`, lies on its
branch and has its outlet at a position up to `k`. -/
def ContinuesBranch (segments : List Segment) (k j : Nat) : Prop :=
  k < j ∧ ∃ p t, segments[k]? = some p ∧ segments[j]? = some t ∧ t.branch = p.branch ∧
    OutletPlaced (segments.take (k + 1)) t

/-- Segments stored outlet first, with branches continued. -/
structure InOrder (segments : List Segment) : Prop where
  top : (segments.map Segment.number)[0]? = some topNumber
  outlet : ∀ i t, segments[i]? = some t → i ≠ 0 → OutletPlaced (segments.take i) t
  continued : ∀ k j, ContinuesBranch segments k j → j = k + 1

variable {segments xs ys : List Segment}

/-- Where links are the same, so are they at each position. -/
theorem exists_link_eq (h : xs.map Segment.link = ys.map Segment.link) {i : Nat} {t : Segment}
    (ht : ys[i]? = some t) : ∃ u, xs[i]? = some u ∧ u.link = t.link := by
  have hi := congrArg (fun l => l[i]?) h
  simp only [List.getElem?_map, ht, Option.map_some] at hi
  exact Option.map_eq_some_iff.1 hi

/-- Whether an outlet is placed depends on links alone. -/
theorem outletPlaced_congr (h : xs.map Segment.link = ys.map Segment.link) {t u : Segment}
    (hl : u.link = t.link) : OutletPlaced xs u ↔ OutletPlaced ys t := by
  have ho : u.outlet = t.outlet := congrArg (fun l => l.2.2) hl
  rw [OutletPlaced, OutletPlaced, numbers_eq_of_links h, ho]

/-- Whether a branch is continued depends on links alone. -/
theorem ContinuesBranch.congr (h : xs.map Segment.link = ys.map Segment.link) {k j : Nat}
    (hy : ContinuesBranch ys k j) : ContinuesBranch xs k j := by
  obtain ⟨hlt, p, t, hp, ht, hb, ho⟩ := hy
  obtain ⟨p', hp', hpl⟩ := exists_link_eq h hp
  obtain ⟨t', ht', htl⟩ := exists_link_eq h ht
  have htake : (xs.take (k + 1)).map Segment.link = (ys.take (k + 1)).map Segment.link := by
    rw [List.map_take, List.map_take, h]
  refine ⟨hlt, p', t', hp', ht', ?_, (outletPlaced_congr htake htl).2 ho⟩
  have htb : t'.branch = t.branch := congrArg (fun l => l.2.1) htl
  have hpb : p'.branch = p.branch := congrArg (fun l => l.2.1) hpl
  rw [htb, hpb, hb]

/-- Whether segments are in order depends on their links alone. -/
theorem InOrder.congr (hx : InOrder xs) (h : xs.map Segment.link = ys.map Segment.link) :
    InOrder ys where
  top := by rw [← numbers_eq_of_links h]; exact hx.top
  outlet i t ht hi := by
    obtain ⟨u, hu, hl⟩ := exists_link_eq h ht
    have htake : (xs.take i).map Segment.link = (ys.take i).map Segment.link := by
      rw [List.map_take, List.map_take, h]
    exact (outletPlaced_congr htake hl).1 (hx.outlet i u hu hi)
  continued k j hy := hx.continued k j (hy.congr h)

/-- The list around one of its items. -/
theorem eq_take_append_cons_drop {i : Nat} {t : Segment} (h : segments[i]? = some t) :
    segments = segments.take i ++ t :: segments.drop (i + 1) := by
  obtain ⟨hi, rfl⟩ := List.getElem?_eq_some_iff.1 h
  rw [← List.drop_eq_getElem_cons hi, List.take_append_drop]

/-- What stands at a position of a list without repetitions is not before it. -/
theorem not_mem_take_of_getElem? (hnd : segments.Nodup) {i k : Nat} {t : Segment}
    (h : segments[i]? = some t) (hk : k ≤ i) : t ∉ segments.take k := by
  intro hmem
  obtain ⟨j, hj⟩ := List.getElem?_of_mem hmem
  rw [List.getElem?_take] at hj
  split_ifs at hj with hjk
  have hij := (List.getElem?_inj (List.getElem?_eq_some_iff.1 h).1 hnd).1 (h.trans hj.symm)
  omega

/-- **A complete placement is in order.** -/
theorem Placement.inOrder {last : Segment} (h : Placement segments xs last)
    (hperm : segments.Perm xs) : InOrder xs where
  top := by
    obtain ⟨t, ht, -, hn⟩ := h.head?_eq
    rw [List.getElem?_map, ← List.head?_eq_getElem?, ht, Option.map_some, hn]
  outlet i t ht hi := by
    have hne : xs.take i ≠ [] := by
      rw [ne_eq, List.take_eq_nil_iff]
      rintro (h0 | rfl)
      · exact hi h0
      · cases ht
    rw [eq_take_append_cons_drop ht] at h
    obtain ⟨_, -, hf⟩ := h.split hne
    exact hf.outlet
  continued k j hc := by
    obtain ⟨hlt, p, t, hp, ht, hb, ho⟩ := hc
    obtain ⟨hj, htj⟩ := List.getElem?_eq_some_iff.1 ht
    have hnext : xs[k + 1]? = some xs[k + 1] := List.getElem?_eq_getElem (by omega)
    have hne : xs.take (k + 1) ≠ [] := by
      rw [ne_eq, List.take_eq_nil_iff]
      rintro (h0 | rfl)
      · omega
      · cases ht
    have hnot : t ∉ xs.take (k + 1) := not_mem_take_of_getElem? h.nodup ht hlt
    have hsplit := h
    rw [eq_take_append_cons_drop hnext] at hsplit
    obtain ⟨l, hl, hf⟩ := hsplit.split hne
    have hlast : l = p := by
      have hg := hl.getLast?_eq
      rw [List.getLast?_take, if_neg (by omega), Nat.add_sub_cancel, hp] at hg
      exact (Option.some.inj hg).symm
    subst hlast
    have hts := hf.alone t (hperm.mem_iff.2 (List.mem_of_getElem? ht)) hnot ho hb
    exact (List.getElem?_inj hj h.nodup).1 (by rw [ht, hnext, hts])

/-- **Segments in order are arranged as they are**, from any position on. -/
theorem arrangeFrom_of_inOrder {v : List Segment} (hv : InOrder v) (well : String)
    {before after : List Segment} {p : Segment} (h : v = before ++ p :: after) :
    arrangeFrom well after.length (before ++ [p]) p.branch after = ⟨v, [], none⟩ := by
  induction after generalizing before p with
  | nil => rw [List.length_nil, arrangeFrom, h]
  | cons s rest ih =>
    have hp : v[before.length]? = some p := by simp [h]
    have htake : v.take (before.length + 1) = before ++ [p] := by
      rw [h, List.take_append, List.take_of_length_le (by omega), Nat.add_sub_cancel_left]
      rfl
    have hs : OutletPlaced (before ++ [p]) s := by
      rw [← htake]
      exact hv.outlet (before.length + 1) s (by simp [h]) (by omega)
    have hrest : ∀ t ∈ rest, OutletPlaced (before ++ [p]) t → t.branch ≠ p.branch := by
      intro t ht ho hb
      obtain ⟨i, hi⟩ := List.getElem?_of_mem ht
      have hpos : v[before.length + 2 + i]? = some t := by
        rw [h, List.getElem?_append_right (by omega),
          show before.length + 2 + i - before.length = i + 1 + 1 by omega,
          List.getElem?_cons_succ, List.getElem?_cons_succ, hi]
      have := hv.continued before.length (before.length + 2 + i)
        ⟨by omega, p, t, hp, hpos, hb, by rw [htake]; exact ho⟩
      omega
    rw [List.length_cons, arrangeFrom, choose_head hs hrest]
    have hv' : v = (before ++ [p]) ++ s :: rest := by rw [h, List.append_assoc]; rfl
    exact ih hv'

variable {s t : SegmentSet}

/-- **Ordering leaves segments alone that are in order.** -/
theorem arrange_of_inOrder (hs : s.Indexed) (h : InOrder s.segments) :
    s.arrange = ⟨s.segments, [], none⟩ := by
  have htop : s.index.get? topNumber = some 0 := (hs.get? _ _).2 h.top
  obtain ⟨p, rest, hp⟩ : ∃ p rest, s.segments = p :: rest := by
    cases hsegs : s.segments with
    | nil =>
      have := h.top
      rw [hsegs] at this
      cases this
    | cons p rest => exact ⟨p, rest, rfl⟩
  have hall : s.segments = [] ++ p :: rest := hp
  rw [arrange, htop, Option.bind_some]
  nth_rewrite 1 [hp]
  exact arrangeFrom_of_inOrder h s.well hall

/-- **Segments in order are ordered as they are.** -/
theorem order_of_inOrder (hs : s.Indexed) (h : InOrder s.segments) :
    s.order = .ok (s.withSegments s.segments) := by
  rw [order, rearranged, arrange_of_inOrder hs h]
  simp [Arrangement.segments]

/-- **What ordering gives** is a complete placement of the segments, with their
positions entered anew. -/
theorem exists_placement_of_order (hs : s.Indexed) (h : s.order = .ok t) :
    ∃ l, Placement s.segments t.segments l ∧ s.segments.Perm t.segments ∧
      t = s.withSegments t.segments := by
  by_cases htop : topNumber ∈ s.numbers
  · obtain ⟨l, hl, hperm, hends⟩ := exists_placement_arrange hs htop
    rw [order] at h
    split at h
    · cases h
    · rename_i hfault
      obtain rfl := Except.ok.inj h
      refine ⟨l, ?_, hperm, rfl⟩
      show Placement s.segments s.arrange.segments l
      generalize s.arrange = a at hl hends hfault
      cases hends with
      | complete => simpa [Arrangement.segments] using hl
      | ambiguous => cases hfault
      | stuck => cases hfault
  · rw [order, arrange_eq_of_not_mem hs htop] at h
    cases h

/-- **Ordered segments are in order.** -/
theorem inOrder_of_order (hs : s.Indexed) (h : s.order = .ok t) : InOrder t.segments := by
  obtain ⟨_, hl, hperm, -⟩ := exists_placement_of_order hs h
  exact hl.inOrder hperm

end SegmentSet
end MultiSegmentWell
