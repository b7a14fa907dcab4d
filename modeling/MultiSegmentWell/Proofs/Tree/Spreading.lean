/-
# How runs are spread

Spreading goes through the ordered segments once. A ready segment is kept; a run of
segments that are not ready is collected until a ready one closes it, and is then
spread from its outlet, which is done by then (`Spreads`). The loop comes to the end
of the segments or stops at a run that nothing closes, and in no other way
(`SpreadEnds`, `spreadEnds_spreadRuns`).

Filling volumes in afterwards touches volumes only, and none but that of a segment
behind the top one (`VolumesFilled`).
-/

import MultiSegmentWell.Proofs.Tree.Resolution

namespace MultiSegmentWell
namespace SegmentSet

/-- What becomes of a segment that is spread: the one at place `i` of a run of `n`
segments, or at place `n` the ready one that closes the run. -/
def spreadAt (outlet last : Segment) (n i : Nat) (t : Segment) : Segment :=
  let change := outlet.node.evenChange last.node (Nat.toFloat (n + 1))
  { t with
    node := if i < n then outlet.node.advance (Nat.toFloat (i + 1)) change else t.node
    volume := volumeOr t.volume (last.pipe.area * change.length)
    ready := true }

/-- A run is spread place by place. -/
theorem getElem?_spread (outlet last : Segment) (run : List Segment) (i : Nat) :
    (spread outlet run last)[i]? = (run ++ [last])[i]?.map (spreadAt outlet last run.length i) := by
  rcases Nat.lt_or_ge i run.length with hi | hi
  · rw [spread, List.getElem?_append_left (by simpa using hi), List.getElem?_append_left hi]
    simp only [List.getElem?_map, List.getElem?_zipIdx, Option.map_map]
    refine Option.map_congr fun t _ => ?_
    simp [spreadAt, Segment.settle, Segment.withVolume, hi]
  · rw [spread, List.getElem?_append_right (by simpa using hi), List.getElem?_append_right hi]
    simp only [List.length_map, List.length_zipIdx, List.getElem?_singleton]
    split_ifs
    · simp [spreadAt, Segment.settle, Segment.withVolume, Nat.not_lt.2 hi]
    · rfl

/-- A spread run has its segments and the one that closes it. -/
@[simp] theorem length_spread (outlet last : Segment) (run : List Segment) :
    (spread outlet run last).length = run.length + 1 := by
  simp [spread]

/-- Ready segments are kept and runs are spread, one after the other behind the
segments that are done. -/
inductive Spreads : (done rest settled : List Segment) → Prop where
  | nil {done : List Segment} : Spreads done [] done
  | ready {done rest settled : List Segment} {t : Segment} (ready : t.ready = true)
    (later : Spreads (done ++ [t]) rest settled) : Spreads done (t :: rest) settled
  | run {done run rest settled : List Segment} {first outlet last : Segment}
    (unready : ∀ t ∈ first :: run, t.ready = false) (ready : last.ready = true)
    (mem : outlet ∈ done) (number : outlet.number = first.outlet)
    (later : Spreads (done ++ spread outlet (first :: run) last) rest settled) :
    Spreads done (first :: run ++ last :: rest) settled

/-- How spreading ends: all segments are settled, or a run that goes on to the last of
them is not closed. -/
inductive SpreadEnds (well : String) (done rest : List Segment) :
    Except SegmentError (List Segment) → Prop where
  | spread {settled : List Segment} (spreads : Spreads done rest settled) :
    SpreadEnds well done rest (.ok settled)
  | unclosed {before after : List Segment} {first : Segment}
    (split : rest = before ++ first :: after) (unready : ∀ t ∈ first :: after, t.ready = false)
    (ready : ∀ t, before.getLast? = some t → t.ready = true) :
    SpreadEnds well done rest (.error (.incompleteRange well first.number))

variable {well : String} {done run rest settled filled : List Segment}

/-- What is done is not touched again. -/
theorem Spreads.exists_append (h : Spreads done rest settled) :
    ∃ later, settled = done ++ later := by
  induction h with
  | nil => exact ⟨[], (List.append_nil _).symm⟩
  | ready _ _ ih =>
    obtain ⟨later, rfl⟩ := ih
    exact ⟨_, List.append_assoc ..⟩
  | run _ _ _ _ _ ih =>
    obtain ⟨later, rfl⟩ := ih
    exact ⟨_, List.append_assoc ..⟩

/-- Segments that end with a ready one, put in front of the others, do not change how
spreading ends. -/
theorem SpreadEnds.prepend {done' all before : List Segment} {last : Segment}
    {x : Except SegmentError (List Segment)} (hall : all = before ++ last :: rest)
    (hlast : last.ready = true)
    (hspreads : ∀ {settled}, Spreads done' rest settled → Spreads done all settled)
    (h : SpreadEnds well done' rest x) : SpreadEnds well done all x := by
  subst hall
  cases h with
  | spread h => exact .spread (hspreads h)
  | @unclosed between after first hsplit hunready hready =>
    have hsplit' : before ++ last :: rest = before ++ last :: between ++ first :: after := by
      rw [hsplit, List.append_assoc, List.cons_append]
    refine .unclosed hsplit' hunready fun t ht => ?_
    cases hbetween : between.getLast? with
    | none =>
      rw [List.getLast?_eq_none_iff.1 hbetween, List.getLast?_concat] at ht
      rwa [← Option.some.inj ht]
    | some p =>
      rw [List.getLast?_append, List.getLast?_cons, hbetween] at ht
      obtain rfl := Option.some.inj ht
      exact hready _ hbetween

/-- In order, the first of the segments behind the done ones has its outlet done. -/
theorem InOrder.outletPlaced {first : Segment} (h : InOrder (done ++ first :: rest))
    (hne : done ≠ []) : OutletPlaced done first := by
  have hfirst := h.outlet done.length first (by simp) (by simpa using hne)
  rwa [List.take_left'] at hfirst
  rfl

/-- **The loop ends in one of the two ways.**  The outlet of a run is found because the
segments are in order. -/
theorem spreadEnds_spreadRuns (hv : InOrder (done ++ (run ++ rest))) (hne : done ≠ [])
    (hrun : ∀ t ∈ run, t.ready = false) :
    SpreadEnds well done (run ++ rest) (spreadRuns well done run rest) := by
  -- Spreading keeps links, so the segments stay in order as they move over to the done ones.
  induction rest generalizing done run with
  | nil =>
    rw [List.append_nil]
    cases run with
    | nil => exact .spread .nil
    | cons first run => exact .unclosed (List.nil_append _).symm hrun (by simp)
  | cons t rest ih =>
    cases run with
    | nil =>
      rw [spreadRuns]
      split_ifs with ht
      · have h : SpreadEnds well (done ++ [t]) rest (spreadRuns well (done ++ [t]) [] rest) :=
          @ih (done ++ [t]) [] (by rwa [List.append_assoc]) (by simp) (by simp)
        exact .prepend (List.nil_append _).symm ht (.ready ht) h
      · exact @ih done [t] hv hne (by simpa using ht)
    | cons first run =>
      rw [spreadRuns]
      split_ifs with ht
      · obtain ⟨outlet, houtlet⟩ := exists_outletAmong well (hv.outletPlaced hne)
        obtain ⟨hmem, hn⟩ := mem_of_outletAmong houtlet
        have hv' : InOrder (done ++ spread outlet (first :: run) t ++ rest) := by
          refine hv.congr ?_
          simp [links_spread]
        rw [houtlet]
        have hne' := List.append_ne_nil_of_left_ne_nil hne (spread outlet (first :: run) t)
        exact .prepend rfl ht (.run hrun ht hmem hn) (@ih _ [] hv' hne' (by simp))
      · have hrun' : ∀ a ∈ first :: run ++ [t], a.ready = false := by
          rw [List.forall_mem_append, List.forall_mem_singleton]
          exact ⟨hrun, Bool.eq_false_iff.2 ht⟩
        have h := @ih done (first :: run ++ [t]) (by rwa [List.append_assoc]) hne hrun'
        rwa [List.append_assoc] at h

/-- The volume of a segment, given the one it had before volumes were filled in. -/
structure VolumeFilled (others : List Segment) (u : Segment) (volume : Float) : Prop where
  known : volume > Quantity.unknown → u.volume = volume
  unknown : ¬ volume > Quantity.unknown → ∃ outlet ∈ others, outlet.number = u.outlet ∧
    u.volume = u.pipe.area * (u.node.length - outlet.node.length)

/-- Filling in changes the volume of a segment and nothing else of it. -/
theorem volumeFilled_of_fillVolume {others : List Segment} {t u : Segment}
    (h : fillVolume well others t = .ok u) :
    u = t.withVolume u.volume ∧ VolumeFilled others u t.volume := by
  unfold fillVolume at h
  split at h
  · rename_i hknown
    obtain rfl := Except.ok.inj h
    exact ⟨rfl, fun _ => rfl, fun hunknown => absurd (Quantity.isKnown_iff.1 hknown) hunknown⟩
  · rename_i hunknown
    obtain ⟨outlet, houtlet, rfl⟩ := map_eq_ok.1 h
    obtain ⟨hmem, hn⟩ := mem_of_outletAmong houtlet
    exact ⟨rfl, fun hknown => absurd (Quantity.isKnown_iff.2 hknown) hunknown,
      fun _ => ⟨outlet, hmem, hn, rfl⟩⟩

/-- A volume can be filled in where the outlet is stored. -/
theorem exists_fillVolume (well : String) {others : List Segment} {t : Segment}
    (h : OutletPlaced others t) : ∃ u, fillVolume well others t = .ok u := by
  unfold fillVolume
  split_ifs
  · exact ⟨t, rfl⟩
  · obtain ⟨outlet, houtlet⟩ := exists_outletAmong well h
    exact ⟨_, map_eq_ok.2 ⟨outlet, houtlet, rfl⟩⟩

/-- Segments whose volumes are filled in, in place of the settled ones. -/
structure VolumesFilled (settled w : List Segment) : Prop where
  other : List.Forall₂ (fun t u => u = t.withVolume u.volume) settled w
  top : w[0]? = settled[0]?
  filled : ∀ (k : Nat) (t u : Segment), 1 ≤ k → settled[k]? = some t → w[k]? = some u →
    VolumeFilled w u t.volume

/-- **Filling volumes in.**  The lengths that go into a volume are those of the
resulting segments as well. -/
theorem volumesFilled_of_mapM (h : settled.tail.mapM (fillVolume well settled) = .ok filled) :
    VolumesFilled settled (settled.take 1 ++ filled) := by
  have hfilled := mapM_eq_ok.1 h
  have hkept : List.Forall₂ (fun t u => u = t.withVolume u.volume) settled.tail filled :=
    hfilled.imp fun _ _ hu => (volumeFilled_of_fillVolume hu).1
  cases settled with
  | nil =>
    cases hfilled
    exact ⟨.nil, rfl, fun k t u _ ht => by simp at ht⟩
  | cons top later =>
    have hother : List.Forall₂ (fun t u => u = t.withVolume u.volume) (top :: later)
        (top :: filled) := .cons rfl hkept
    refine ⟨hother, rfl, fun k t u hk ht hu => ?_⟩
    obtain ⟨k, rfl⟩ := Nat.exists_eq_add_of_le' hk
    obtain ⟨u', hu', hfill⟩ := exists_getElem?_of_forall₂ hfilled ht
    obtain rfl : u' = u := Option.some.inj (hu'.symm.trans hu)
    obtain ⟨-, hvolume⟩ := volumeFilled_of_fillVolume hfill
    refine ⟨hvolume.known, fun hunknown => ?_⟩
    obtain ⟨outlet, hmem, hn, heq⟩ := hvolume.unknown hunknown
    obtain ⟨outlet', hmem', heq'⟩ := exists_of_forall₂ hother hmem
    have hn' : outlet'.number = outlet.number := by
      rw [heq']
      rfl
    have hnode : outlet'.node = outlet.node := by
      rw [heq']
      rfl
    exact ⟨outlet', hmem', hn'.trans hn, by rw [hnode, heq]⟩

end SegmentSet
end MultiSegmentWell
