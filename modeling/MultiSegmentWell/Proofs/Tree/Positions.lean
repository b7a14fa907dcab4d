/-
# Positions in the order of entry

SPEC_FULL.md, 8, P4: adding a number again replaces it in its place.

Segments that are added one after the other come to stand in the order in which their
numbers first came up (`Indexed.numbers_addAll`), and of several with one number the last
is kept (`lastAdded_of_mem_addAll`).

Whatever happens to a set, its position map is the one that entering its numbers in
storage order gives (`Reachable.entered`). So the entries of the map are the stored
numbers with their positions, and it has no others.
-/

import MultiSegmentWell.Proofs.Order.Verdict

namespace MultiSegmentWell

/-- An item that came up before adds nothing. -/
theorem eraseDups_append_cons_of_mem {xs ys : List Int} {n : Int} (h : n ∈ xs) :
    (xs ++ n :: ys).eraseDups = (xs ++ ys).eraseDups := by
  rw [List.eraseDups_append, List.eraseDups_append, List.cons_removeAll]
  simp [h]

/-- Where no item comes up twice, none is taken out. -/
theorem eraseDups_eq_self {xs : List Int} (h : xs.Nodup) : xs.eraseDups = xs := by
  induction xs with
  | nil => rfl
  | cons n xs ih =>
    obtain ⟨hn, hxs⟩ := List.nodup_cons.1 h
    have hfilter : (xs.filter fun m => !m == n) = xs := by
      rw [List.filter_eq_self]
      intro m hm
      have hne : m ≠ n := fun heq => hn (heq ▸ hm)
      simpa using hne
    rw [List.eraseDups_cons, hfilter, ih hxs]

namespace SegmentIndex

/-- A number that is not entered yet goes behind the others. -/
theorem enter_of_not_mem {number : Int} {position : Nat} {entries : List (Int × Nat)}
    (h : number ∉ entries.map Prod.fst) :
    enter number position entries = entries ++ [(number, position)] := by
  induction entries with
  | nil => rfl
  | cons e entries ih =>
    rw [List.map_cons, List.mem_cons, not_or] at h
    rw [enter, if_neg h.1, ih h.2, List.cons_append]

/-- Of numbers that are all different, each is entered once, in their order. -/
theorem entries_ofNumbers {ns : List Int} (h : ns.Nodup) : (ofNumbers ns).entries = ns.zipIdx := by
  induction ns using List.reverseRecOn with
  | nil => rfl
  | append_singleton ns n ih =>
    obtain ⟨hns, -, hn⟩ := List.nodup_append.1 h
    have hnew : n ∉ ns.zipIdx.map Prod.fst := by
      rw [List.zipIdx_map_fst]
      exact fun hmem => hn n hmem n (List.mem_singleton_self n) rfl
    rw [ofNumbers_concat, insert, ih hns, enter_of_not_mem hnew, List.zipIdx_append, Nat.zero_add]
    rfl

end SegmentIndex

namespace SegmentSet

variable {s r : SegmentSet}

/-- A number that is not stored goes behind the others. -/
theorem Indexed.numbers_add_of_not_mem (hs : s.Indexed) {a : Segment} (h : a.number ∉ s.numbers) :
    (s.add a).numbers = s.numbers ++ [a.number] ∧
      (s.add a).index = s.index.insert a.number s.size := by
  have hnone : s.index.get? a.number = none := by
    rw [Option.eq_none_iff_forall_ne_some]
    exact fun i hi => h (List.mem_of_getElem? ((hs.get? _ i).1 hi))
  rw [SegmentSet.add, hnone]
  exact ⟨List.map_append, rfl⟩

/-- **Added segments stand where their numbers first came up.** -/
theorem Indexed.numbers_addAll (hs : s.Indexed) (segments : List Segment) :
    (s.addAll segments).numbers = (s.numbers ++ segments.map Segment.number).eraseDups := by
  induction segments generalizing s with
  | nil => rw [List.map_nil, List.append_nil, eraseDups_eq_self hs.nodup]; rfl
  | cons a segments ih =>
    show ((s.add a).addAll segments).numbers = _
    rw [ih (hs.add a), List.map_cons]
    by_cases h : a.number ∈ s.numbers
    · rw [hs.numbers_add h, eraseDups_append_cons_of_mem h]
    · rw [(hs.numbers_add_of_not_mem h).1, List.append_assoc, List.singleton_append]

/-- The segment is the last one of a list that has its number. -/
def LastAdded (segments : List Segment) (t : Segment) : Prop :=
  ∃ before after, segments = before ++ t :: after ∧ ∀ u ∈ after, u.number ≠ t.number

/-- **Of several segments added with one number the last is kept.** -/
theorem lastAdded_of_mem_addAll (well : String) (pressureDrop : PressureDrop)
    (flowModel : FlowModel) {segments : List Segment} {t : Segment}
    (h : t ∈ (addAll { well, pressureDrop, flowModel } segments).segments) :
    LastAdded segments t := by
  have hempty := indexed_empty well pressureDrop flowModel
  have hget := (hempty.addAll segments).get?_eq_some_iff.2 ⟨h, rfl⟩
  have hnone : get? { well, pressureDrop, flowModel } t.number = none := rfl
  rw [hempty.get?_addAll, hnone, Option.or_none, List.find?_eq_some_iff_append] at hget
  obtain ⟨-, after, before, hsplit, hafter⟩ := hget
  refine ⟨before.reverse, after.reverse, ?_, fun u hu => ?_⟩
  · rw [← segments.reverse_reverse, hsplit]
    simp
  · simpa using hafter u (List.mem_reverse.1 hu)

/-- The position map is the one that entering the numbers in storage order gives. -/
def Entered (s : SegmentSet) : Prop := s.index = .ofNumbers s.numbers

/-- Segments that are entered anew stand where the map says. -/
theorem entered_withSegments (s : SegmentSet) (segments : List Segment) :
    (s.withSegments segments).Entered := rfl

namespace Entered

/-- Whether the numbers were entered in storage order depends on map and numbers alone. -/
theorem congr (h : s.Entered) (hi : r.index = s.index) (hn : r.numbers = s.numbers) :
    r.Entered := by
  rw [Entered, hi, hn]
  exact h

/-- Adding a segment enters a new number behind the others. -/
theorem add (h : s.Entered) (hs : s.Indexed) (a : Segment) : (s.add a).Entered := by
  by_cases ha : a.number ∈ s.numbers
  · refine h.congr ?_ (hs.numbers_add ha)
    obtain ⟨i, hi⟩ := List.getElem?_of_mem ha
    rw [SegmentSet.add, (hs.get? _ i).2 hi]
  · obtain ⟨hn, hi⟩ := hs.numbers_add_of_not_mem ha
    rw [Entered, hn, hi, SegmentIndex.ofNumbers_concat, numbers, List.length_map]
    exact congrArg (·.insert a.number s.size) h

/-- Adding segments enters new numbers behind the others. -/
theorem addAll (h : s.Entered) (hs : s.Indexed) (segments : List Segment) :
    (s.addAll segments).Entered := by
  induction segments generalizing s with
  | nil => exact h
  | cons a segments ih => exact ih (h.add hs a) (hs.add a)

/-- A processed set has its numbers entered in storage order. -/
theorem process (hs : s.Indexed) {mode : GeometryMode} {topDepth topLength : Float}
    {options : Options} (h : (s.process mode topDepth topLength options).outcome = .ok r) :
    r.Entered := by
  obtain ⟨built, hbuilt, -, rfl⟩ := process_eq_ok.1 h
  obtain ⟨q, hq, hlink⟩ := build_eq_ok.1 hbuilt
  obtain ⟨-, ordered, -, -, -, heq⟩ := links_of_resolve hs hq
  obtain ⟨hlinks, hindex⟩ := links_of_linkInlets hlink
  have hresolved : q.Entered := heq ▸ entered_withSegments ordered q.segments
  exact hresolved.congr hindex (numbers_eq_of_links hlinks)

/-- An operation enters the positions anew, or keeps what is entered and enters the
numbers that it adds. -/
theorem perform (h : s.Entered) (hs : s.Indexed) {op : Operation}
    (hr : (s.perform op).outcome = .ok r) : r.Entered := by
  cases op with
  | add segments =>
    obtain rfl := Except.ok.inj hr
    exact h.addAll hs segments
  | load d options =>
    obtain ⟨_, hlinked, hprocess⟩ := exists_process_of_load hr
    exact .process hlinked hprocess
  | process mode topDepth topLength options => exact .process hs hr
  | order =>
    obtain ⟨_, -, -, heq⟩ := exists_placement_of_order hs hr
    exact heq ▸ entered_withSegments s r.segments
  | attachDevices devices =>
    obtain ⟨-, segments, -, rfl⟩ := attachDevices_eq_ok.1 hr
    exact h.addAll hs segments
  | attachScaledDevices devices connections =>
    obtain ⟨-, scaled, -, hr⟩ := attachScaledDevices_eq_ok.1 hr
    obtain ⟨-, segments, -, rfl⟩ := attachDevices_eq_ok.1 hr
    exact h.addAll hs segments
  | assignPerfLengths connections =>
    obtain rfl := Except.ok.inj hr
    exact h.congr rfl
      (numbers_eq_of_links (links_eq_of_layouts (layouts_assignPerfLengths s connections)))

/-- **Every operation leaves the numbers entered in storage order**, whether it succeeds or fails.
-/
theorem after (h : s.Entered) (hs : s.Indexed) (op : Operation) : (s.after op).Entered := by
  obtain ⟨r, hr, hafter⟩ | ⟨-, hafter⟩ := s.after_cases op
  · rw [hafter]
    exact h.perform hs hr
  · rw [hafter]
    cases op with
    | order => exact entered_withSegments s s.arrange.segments
    | _ => exact h

end Entered

/-- **Entering the numbers of a set anew gives the map that it has**, in every history. -/
theorem Reachable.entered (h : Reachable s) : s.Entered := by
  induction h with
  | empty => rfl
  | after op hs ih => exact ih.after hs.indexed op

/-- **The position map is exact in every history.**  Whatever operations led to a set,
successful or not, its numbers are all different, a number is looked up at the position
that holds it, and the entries of the map are the stored numbers with their positions
and no others. Segments added to an empty set are stored once for each number, in the
order in which the numbers first came up and in the form that came last. -/
theorem entries_eq_and_numbers_addAll :
    (∀ s, Reachable s → s.Indexed ∧ s.index.entries = s.numbers.zipIdx) ∧
      ∀ (well : String) (pressureDrop : PressureDrop) (flowModel : FlowModel)
        (segments : List Segment),
        (addAll { well, pressureDrop, flowModel } segments).numbers
            = (segments.map Segment.number).eraseDups ∧
          ∀ t ∈ (addAll { well, pressureDrop, flowModel } segments).segments,
            LastAdded segments t := by
  refine ⟨fun s hs => ⟨hs.indexed, ?_⟩, fun well pressureDrop flowModel segments => ⟨?_, ?_⟩⟩
  · rw [hs.entered]
    exact SegmentIndex.entries_ofNumbers hs.indexed.nodup
  · exact (indexed_empty well pressureDrop flowModel).numbers_addAll segments
  · exact fun t => lastAdded_of_mem_addAll well pressureDrop flowModel

/-- Segments given out of order, one of them twice, then an ordering that is given up
because 4 and 6 flow into each other, and a load that is refused. -/
def disturbed : SegmentSet :=
  [Operation.add [.ofLink 6 2 4, .ofLink 4 2 1, .ofLink 1 1 0, .ofLink 4 3 6, .ofLink 2 1 1],
    .order, .load ⟨⟨"W", Node.unknown, 0.0, .absolute, .friction, .homogeneous⟩, []⟩ {}].foldl
    SegmentSet.after {}

/-- After the failures the numbers stand in the order to which ordering had come, and the map says
so. -/
theorem entries_eq_and_numbers_addAll_disturbed :
    Reachable disturbed ∧ disturbed.numbers = [1, 2, 6, 4] ∧ disturbed.Indexed ∧
      disturbed.index.entries = disturbed.numbers.zipIdx := by
  have hreach : Reachable disturbed :=
    Reachable.foldl_after (.empty "" .acceleration .homogeneous) _
  exact ⟨hreach, by decide +kernel, entries_eq_and_numbers_addAll.1 disturbed hreach⟩

end SegmentSet
end MultiSegmentWell
