/-
# Runs by position

In the ordered segments the ones that are not ready form runs. Each run goes back to
the ready segment before it or to the top segment, and is closed by the ready segment
behind it (`ClosedRun`). Its nodes are spread between its outlet in final form, its
anchor, and the segment that closes it (`AnchoredRun`).

The loop that spreads runs is read position by position: a segment is either outside of
all closed runs and kept, or it lies in one and is spread (`Spreads.exists_settledAt`). Closed
runs that share a position are the same (`ClosedRun.unique`), so what holds of some run
that covers a segment holds of every one.
-/

import MultiSegmentWell.Proofs.Tree.Spreading

namespace MultiSegmentWell

namespace SegmentSet

/-- A run may start here: behind the top segment or behind a ready one. -/
def StartsRun (v : List Segment) (b : Nat) : Prop :=
  1 ≤ b ∧ (b = 1 ∨ v[b - 1]?.map Segment.ready = some true)

/-- Segments that are not ready, from position `b` up to position `e`, as far back as
they go. -/
structure UnreadyRun (v : List Segment) (b e : Nat) : Prop where
  lt : b < e
  start : StartsRun v b
  unready : ∀ k, b ≤ k → k < e → v[k]?.map Segment.ready = some false

/-- A run with a ready segment behind it. -/
structure ClosedRun (v : List Segment) (b e : Nat) : Prop extends UnreadyRun v b e where
  closed : v[e]?.map Segment.ready = some true

/-- A closed run of `v` with the outlet of its first segment among `w` and the segment
that closes it. -/
structure AnchoredRun (v w : List Segment) (b e : Nat) (anchor last : Segment) : Prop
    extends ClosedRun v b e where
  mem : anchor ∈ w
  outlet : v[b]?.map Segment.outlet = some anchor.number
  closing : v[e]? = some last

variable {v w done rest settled : List Segment} {b e b' e' k : Nat}

/-- Behind a ready segment a run may start. -/
theorem startsRun_succ {t : Segment} (ht : v[k]? = some t) (hready : t.ready = true) :
    StartsRun v (k + 1) :=
  ⟨Nat.le_add_left 1 k, .inr (by rw [Nat.add_sub_cancel, ht, Option.map_some, hready])⟩

/-- Where a run may start, there is no segment of a run before. -/
theorem UnreadyRun.not_startsRun (h : UnreadyRun v b e) (hb : b < k) (he : k ≤ e) :
    ¬ StartsRun v k := by
  have hpos := h.start.1
  rintro ⟨-, rfl | hready⟩
  · omega
  · rw [h.unready (k - 1) (by omega) (by omega)] at hready
    cases hready

/-- No run starts inside of another one. -/
theorem UnreadyRun.start_le (h : UnreadyRun v b e) (hstart : StartsRun v b') (hbe : b' ≤ e) :
    b' ≤ b := by
  by_contra hlt
  exact h.not_startsRun (by omega) hbe hstart

/-- A run ends before the first ready segment. -/
theorem UnreadyRun.not_ready (h : UnreadyRun v b e) (hb : b ≤ k) (he : k < e) :
    v[k]?.map Segment.ready ≠ some true := by
  rw [h.unready k hb he]
  simp

/-- A run that is not closed goes on to the last segment. -/
theorem UnreadyRun.getLast? (h : UnreadyRun v b v.length) :
    v.getLast?.map Segment.ready = some false := by
  have hlt := h.lt
  rw [List.getLast?_eq_getElem?]
  exact h.unready _ (by omega) (by omega)

namespace ClosedRun

/-- A ready segment where a run may start is in no closed run. -/
theorem not_covers (h : ClosedRun v b e) (hstart : StartsRun v k)
    (hready : v[k]?.map Segment.ready = some true) : ¬ (b ≤ k ∧ k ≤ e) := by
  rintro ⟨hb, he⟩
  have hlt := h.lt
  rcases Nat.lt_or_ge k e with hke | hke
  · exact h.not_ready hb hke hready
  · exact h.not_startsRun (by omega) he hstart

/-- Of two closed runs, one that is reached into does not end before the other. -/
theorem end_le (h : ClosedRun v b e) (h' : ClosedRun v b' e') (hbe : b' ≤ e) : e' ≤ e := by
  by_contra hlt
  exact h'.not_ready hbe (by omega) h.closed

/-- **Closed runs that share a position are the same.** -/
theorem unique (h : ClosedRun v b e) (h' : ClosedRun v b' e') (hk : b ≤ k ∧ k ≤ e)
    (hk' : b' ≤ k ∧ k ≤ e') : b' = b ∧ e' = e :=
  ⟨Nat.le_antisymm (h.start_le h'.start (by omega)) (h'.start_le h.start (by omega)),
    Nat.le_antisymm (h.end_le h' (by omega)) (h'.end_le h (by omega))⟩

end ClosedRun

/-- What becomes of the segment at a position: it is kept outside of the closed runs
and spread in each of them. -/
inductive SettledAt (v w : List Segment) (k : Nat) (t : Segment) : Segment → Prop where
  | kept (ready : t.ready = true) (outside : ∀ b e, ClosedRun v b e → ¬ (b ≤ k ∧ k ≤ e)) :
    SettledAt v w k t t
  | spread {b e : Nat} {anchor last : Segment} (run : AnchoredRun v w b e anchor last)
    (covers : b ≤ k ∧ k ≤ e) : SettledAt v w k t (spreadAt anchor last (e - b) (k - b) t)

/-- What stands behind the done segments stands that many places further on. -/
theorem getElem?_of_drop_eq {n : Nat} (h : v.drop n = rest) (i : Nat) : v[n + i]? = rest[i]? := by
  rw [← List.getElem?_drop, h]

/-- A run that stands behind the done segments is a closed one. -/
theorem closedRun_of_drop {first last : Segment} {run : List Segment} {n : Nat}
    (hdrop : v.drop n = first :: run ++ last :: rest) (hstart : StartsRun v n)
    (hrun : ∀ t ∈ first :: run, t.ready = false) (hlast : last.ready = true) :
    ClosedRun v n (n + (run.length + 1)) ∧ v[n]? = some first ∧
      v[n + (run.length + 1)]? = some last := by
  have hfirst : v[n]? = some first := getElem?_of_drop_eq hdrop 0
  have hclosing : v[n + (run.length + 1)]? = some last := by
    rw [getElem?_of_drop_eq hdrop, List.getElem?_append_right (by simp)]
    simp
  refine ⟨⟨⟨by omega, hstart, fun k hb he => ?_⟩, by rw [hclosing, Option.map_some, hlast]⟩,
    hfirst, hclosing⟩
  obtain ⟨i, rfl⟩ := Nat.exists_eq_add_of_le hb
  have hi : i < (first :: run).length := by
    rw [List.length_cons]
    omega
  rw [getElem?_of_drop_eq hdrop, List.getElem?_append_left hi, List.getElem?_eq_getElem hi]
  exact congrArg some (hrun _ (List.getElem_mem hi))

/-- Where a run was spread, the segments of the run are spread ones. -/
theorem getElem?_append_spread {run : List Segment} {last t : Segment} (outlet : Segment)
    (later : List Segment) (hdrop : v.drop done.length = run ++ last :: rest) (hk : done.length ≤ k)
    (hke : k ≤ done.length + run.length) (ht : v[k]? = some t) :
    (done ++ spread outlet run last ++ later)[k]?
      = some (spreadAt outlet last run.length (k - done.length) t) := by
  obtain ⟨i, rfl⟩ := Nat.exists_eq_add_of_le hk
  have hi : i < (run ++ [last]).length := by
    rw [List.length_append, List.length_singleton]
    omega
  have hit : (run ++ [last])[i]? = some t := by
    rw [← ht, getElem?_of_drop_eq hdrop, ← List.singleton_append (l := rest), ← List.append_assoc,
      List.getElem?_append_left hi]
  rw [List.append_assoc, List.getElem?_append_right hk, Nat.add_sub_cancel_left,
    List.getElem?_append_left (by simpa using hi), getElem?_spread, hit, Option.map_some]

/-- **The loop, position by position.** -/
theorem Spreads.exists_settledAt (h : Spreads done rest settled) (hdrop : v.drop done.length = rest)
    (hstart : StartsRun v done.length) {t : Segment} (hk : done.length ≤ k) (ht : v[k]? = some t) :
    ∃ u, settled[k]? = some u ∧ SettledAt v settled k t u := by
  -- Along the loop: a run may start where the done segments end. The position is either in
  -- what the step settles, or behind it and left to the rest of the loop.
  induction h with
  | nil =>
    rw [List.drop_eq_nil_iff] at hdrop
    rw [List.getElem?_eq_none (by omega)] at ht
    cases ht
  | @ready done rest settled first hready hlater ih =>
    have hfirst : v[done.length]? = some first := getElem?_of_drop_eq hdrop 0
    rcases Nat.eq_or_lt_of_le hk with rfl | hlt
    · obtain rfl : first = t := Option.some.inj (hfirst.symm.trans ht)
      obtain ⟨later, rfl⟩ := hlater.exists_append
      refine ⟨first, by simp, .kept hready fun b e hrun => hrun.not_covers hstart ?_⟩
      rw [ht, Option.map_some, hready]
    · have hlength : (done ++ [first]).length = done.length + 1 := List.length_append
      rw [hlength] at ih
      refine ih ?_ (startsRun_succ hfirst hready) hlt
      rw [← List.drop_drop, hdrop, List.drop_one, List.tail_cons]
  | @run done run rest settled first outlet last hunready hlast hmem hn hlater ih =>
    obtain ⟨hclosed, hfirst, hclosing⟩ := closedRun_of_drop hdrop hstart hunready hlast
    rcases Nat.lt_or_ge (done.length + (run.length + 1)) k with hlt | hge
    · have hlength : (done ++ spread outlet (first :: run) last).length
          = done.length + (run.length + 1) + 1 := by
        simp [Nat.add_assoc]
      rw [hlength] at ih
      refine ih ?_ (startsRun_succ hclosing hlast) hlt
      rw [Nat.add_assoc, ← List.drop_drop, hdrop]
      simp
    · obtain ⟨later, rfl⟩ := hlater.exists_append
      have hrun : AnchoredRun v (done ++ spread outlet (first :: run) last ++ later) done.length
          (done.length + (run.length + 1)) outlet last :=
        ⟨hclosed, by simp [hmem], by rw [hfirst, Option.map_some, hn], hclosing⟩
      have hspread := getElem?_append_spread outlet later hdrop hk hge ht
      rw [List.length_cons, ← Nat.add_sub_cancel_left done.length (run.length + 1)] at hspread
      exact ⟨_, hspread, .spread hrun ⟨hk, hge⟩⟩

/-- A run has one anchor and one closing segment. -/
theorem AnchoredRun.unique (hnd : (w.map Segment.number).Nodup)
    {anchor anchor' last last' : Segment} (h : AnchoredRun v w b e anchor last)
    (h' : AnchoredRun v w b e anchor' last') : anchor' = anchor ∧ last' = last := by
  have hn := h'.outlet.symm.trans h.outlet
  have hl := h'.closing.symm.trans h.closing
  exact ⟨List.inj_on_of_nodup_map hnd h'.mem h.mem (Option.some.inj hn), Option.some.inj hl⟩

/-- A segment that a run covers is spread in this run. -/
theorem SettledAt.eq_spreadAt (hnd : (w.map Segment.number).Nodup) {anchor last t u : Segment}
    (h : SettledAt v w k t u) (hrun : AnchoredRun v w b e anchor last) (hk : b ≤ k ∧ k ≤ e) :
    u = spreadAt anchor last (e - b) (k - b) t := by
  cases h with
  | kept _ outside => exact absurd hk (outside b e hrun.toClosedRun)
  | spread run covers =>
    obtain ⟨rfl, rfl⟩ := hrun.toClosedRun.unique run.toClosedRun hk covers
    obtain ⟨rfl, rfl⟩ := hrun.unique hnd run
    rfl

/-- Filling volumes in leaves numbers and nodes of the anchors alone. -/
theorem SettledAt.of_volumesFilled {t u : Segment} (h : SettledAt v settled k t u)
    (hw : VolumesFilled settled w) : SettledAt v w k t u := by
  cases h with
  | kept ready outside => exact .kept ready outside
  | @spread b e anchor last run covers =>
    obtain ⟨anchor', hmem, heq⟩ := exists_of_forall₂ hw.other run.mem
    have hn : anchor'.number = anchor.number := by
      rw [heq]
      rfl
    have hspread : spreadAt anchor last (e - b) (k - b) t
        = spreadAt anchor' last (e - b) (k - b) t := by
      rw [heq]
      rfl
    rw [hspread]
    exact .spread ⟨run.toClosedRun, hmem, by rw [hn]; exact run.outlet, run.closing⟩ covers

end SegmentSet
end MultiSegmentWell
