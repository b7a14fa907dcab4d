/-
# The position map is exact

SPEC_FULL.md, 3 and 8, P1: the map is a bijection.

`SegmentSet.Indexed` says that a set stores no number twice and that its map gives
for each stored number the position that holds it, and for no other number any.
Adding segments keeps this (`Indexed.add`), and so does entering the positions anew
for segments in another order (`indexed_withSegments`). What is looked up in such a
set is what is stored in it (`Indexed.get?_eq_some_iff`), and of several segments that
were added with one number the last is found (`Indexed.get?_addAll`).
-/

import MultiSegmentWell.SegmentSet.Basic
import Mathlib.Data.List.Induction
import Mathlib.Data.List.Nodup

namespace MultiSegmentWell

namespace SegmentIndex

/-- One more number is entered behind the others. -/
theorem ofNumbers_concat (ns : List Int) (n : Int) :
    ofNumbers (ns ++ [n]) = (ofNumbers ns).insert n ns.length := by
  simp [ofNumbers, List.zipIdx_append]

/-- Of numbers that are all different, each is entered with its own position. -/
theorem get?_ofNumbers {ns : List Int} (h : ns.Nodup) {n : Int} {i : Nat} :
    (ofNumbers ns).get? n = some i ↔ ns[i]? = some n := by
  induction ns using List.reverseRecOn with
  | nil => simp [ofNumbers, get?_empty]
  | append_singleton ns m ih =>
    obtain ⟨hns, -, hm⟩ := List.nodup_append.1 h
    rw [ofNumbers_concat, get?_insert]
    split_ifs with hn
    · subst hn
      have hnot : n ∉ ns := fun hmem => hm n hmem n (List.mem_singleton_self n) rfl
      constructor
      · intro hi
        obtain rfl := Option.some.inj hi
        simp
      · intro hi
        rcases Nat.lt_trichotomy i ns.length with hlt | rfl | hgt
        · rw [List.getElem?_append_left hlt] at hi
          exact absurd (List.mem_of_getElem? hi) hnot
        · rfl
        · rw [List.getElem?_eq_none (by simp; omega)] at hi
          cases hi
    · rw [ih hns]
      rcases Nat.lt_or_ge i ns.length with hlt | hge
      · rw [List.getElem?_append_left hlt]
      · rw [List.getElem?_eq_none hge, List.getElem?_append_right hge, List.getElem?_singleton]
        split_ifs <;> simp [eq_comm, hn]

end SegmentIndex

namespace SegmentSet

/-- The position map of a set is exact. -/
structure Indexed (s : SegmentSet) : Prop where
  /-- No number is stored twice. -/
  nodup : s.numbers.Nodup
  /-- A number is entered with a position exactly when it is stored there. -/
  get? : ∀ n i, s.index.get? n = some i ↔ s.numbers[i]? = some n

/-- Positions entered anew are exact. -/
theorem indexed_withSegments (s : SegmentSet) {segments : List Segment}
    (h : (segments.map Segment.number).Nodup) : (s.withSegments segments).Indexed :=
  ⟨h, fun _ _ => SegmentIndex.get?_ofNumbers h⟩

/-- A set without segments is indexed. -/
theorem indexed_empty (well : String) (p : PressureDrop) (f : FlowModel) :
    Indexed { well, pressureDrop := p, flowModel := f } :=
  ⟨List.nodup_nil, fun n i => by simp [SegmentIndex.get?_empty, numbers]⟩

namespace Indexed

variable {s t : SegmentSet}

/-- A set with the map and the numbers of an indexed one is indexed. -/
theorem congr (hs : s.Indexed) (hi : t.index = s.index) (hn : t.numbers = s.numbers) : t.Indexed :=
  ⟨hn ▸ hs.nodup, fun n i => by rw [hi, hn]; exact hs.get? n i⟩

/-- No segment is stored twice. -/
theorem segments_nodup (hs : s.Indexed) : s.segments.Nodup := hs.nodup.of_map _

/-- Sets with the same numbers in the same order look them up at the same positions. -/
theorem index_get?_congr (hs : s.Indexed) (ht : t.Indexed) (hn : t.numbers = s.numbers) (n : Int) :
    t.index.get? n = s.index.get? n := by
  ext i
  rw [hs.get?, ht.get?, hn]

/-- A number is contained in a set that stores it. -/
theorem contains_iff (hs : s.Indexed) {n : Int} : s.contains n = true ↔ n ∈ s.numbers := by
  unfold SegmentSet.contains SegmentIndex.contains
  rw [Option.isSome_iff_exists, List.mem_iff_getElem?]
  exact exists_congr fun i => hs.get? n i

/-- Looking a number up finds the segment with that number, if it is stored. -/
theorem get?_eq_some_iff (hs : s.Indexed) {n : Int} {a : Segment} :
    s.get? n = some a ↔ a ∈ s.segments ∧ a.number = n := by
  unfold SegmentSet.get?
  rw [Option.bind_eq_some_iff]
  constructor
  · rintro ⟨i, hi, ha⟩
    refine ⟨List.mem_of_getElem? ha, ?_⟩
    have hn := (hs.get? n i).1 hi
    rw [numbers, List.getElem?_map, ha] at hn
    exact Option.some.inj hn
  · rintro ⟨ha, rfl⟩
    obtain ⟨i, hi⟩ := List.getElem?_of_mem ha
    refine ⟨i, (hs.get? _ _).2 ?_, hi⟩
    rw [numbers, List.getElem?_map, hi]
    rfl

/-- Adding a segment keeps the map exact: the segment goes to the place that its
number has, or behind the others. -/
theorem add (hs : s.Indexed) (a : Segment) : (s.add a).Indexed := by
  unfold SegmentSet.add
  split
  · rename_i i hi
    refine hs.congr rfl ?_
    have hn := (hs.get? _ i).1 hi
    obtain ⟨hlt, hn⟩ := List.getElem?_eq_some_iff.1 hn
    show (s.segments.set i a).map Segment.number = s.numbers
    rw [List.map_set, ← hn]
    exact List.set_getElem_self hlt
  · rename_i hnone
    have hnew : a.number ∉ s.numbers := fun hmem => by
      obtain ⟨i, hi⟩ := List.getElem?_of_mem hmem
      rw [(hs.get? _ i).2 hi] at hnone
      cases hnone
    have hnum : (s.segments ++ [a]).map Segment.number = s.numbers ++ [a.number] := by
      simp [numbers]
    have hlen : s.segments.length = s.numbers.length := by simp [numbers]
    have hnd : (s.numbers ++ [a.number]).Nodup :=
      List.Nodup.append hs.nodup (List.nodup_singleton _) (by simpa using hnew)
    refine ⟨(congrArg List.Nodup hnum).mpr hnd, fun n i => ?_⟩
    show (s.index.insert a.number s.segments.length).get? n = some i
      ↔ ((s.segments ++ [a]).map Segment.number)[i]? = some n
    rw [hnum, hlen, SegmentIndex.get?_insert, ← SegmentIndex.get?_ofNumbers hnd,
      SegmentIndex.ofNumbers_concat, SegmentIndex.get?_insert]
    split_ifs
    · rfl
    · rw [hs.get?, SegmentIndex.get?_ofNumbers hs.nodup]

/-- Adding segments one after the other keeps the map exact. -/
theorem addAll (hs : s.Indexed) (segments : List Segment) : (s.addAll segments).Indexed := by
  induction segments generalizing s with
  | nil => exact hs
  | cons a segments ih => exact ih (hs.add a)

/-- A position that is entered holds the segment with the number. -/
theorem exists_getElem? (hs : s.Indexed) {n : Int} {i : Nat} (h : s.index.get? n = some i) :
    ∃ a, s.segments[i]? = some a ∧ a.number = n := by
  have hn := (hs.get? n i).1 h
  rwa [numbers, List.getElem?_map, Option.map_eq_some_iff] at hn

/-- Adding a segment changes what is found under its number, and nothing else. -/
theorem get?_add (hs : s.Indexed) (a : Segment) (n : Int) :
    (s.add a).get? n = if n = a.number then some a else s.get? n := by
  unfold SegmentSet.add SegmentSet.get?
  split
  · rename_i i hi
    obtain ⟨b, hb, hbn⟩ := hs.exists_getElem? hi
    obtain ⟨hlt, -⟩ := List.getElem?_eq_some_iff.1 hb
    split_ifs with hn
    · rw [hn, hi, Option.bind_some, List.getElem?_set_self hlt]
    · refine Option.bind_congr fun j hj => List.getElem?_set_ne ?_
      rintro rfl
      obtain ⟨c, hc, hcn⟩ := hs.exists_getElem? hj
      rw [hb] at hc
      exact hn (by rw [← hcn, ← hbn, Option.some.inj hc])
  · dsimp only
    rw [SegmentIndex.get?_insert]
    split_ifs with hn
    · rw [Option.bind_some, List.getElem?_concat_length]
    · refine Option.bind_congr fun j hj => List.getElem?_append_left ?_
      obtain ⟨c, hc, -⟩ := hs.exists_getElem? hj
      exact (List.getElem?_eq_some_iff.1 hc).1

/-- An added segment is stored, and so are those with other numbers. -/
theorem mem_add_iff (hs : s.Indexed) {a t : Segment} :
    t ∈ (s.add a).segments ↔ t = a ∨ t.number ≠ a.number ∧ t ∈ s.segments := by
  have hget := hs.get?_add a t.number
  have hnew := (hs.add a).get?_eq_some_iff (n := t.number) (a := t)
  have hold := hs.get?_eq_some_iff (n := t.number) (a := t)
  rw [and_iff_left rfl] at hnew hold
  rw [← hnew, ← hold, hget]
  split_ifs with hn
  · simp [hn, eq_comm]
  · refine ⟨fun h => .inr ⟨hn, h⟩, ?_⟩
    rintro (rfl | ⟨-, h⟩)
    · exact absurd rfl hn
    · exact h

/-- Whatever is stored after adding segments was added or was there before. -/
theorem mem_or_mem_of_mem_addAll (hs : s.Indexed) {segments : List Segment} {t : Segment}
    (h : t ∈ (s.addAll segments).segments) : t ∈ segments ∨ t ∈ s.segments := by
  induction segments generalizing s with
  | nil => exact .inr h
  | cons a segments ih =>
    rcases ih (hs.add a) h with hmem | hadd
    · exact .inl (List.mem_cons_of_mem a hmem)
    · rcases hs.mem_add_iff.1 hadd with rfl | ⟨-, hold⟩
      · exact .inl List.mem_cons_self
      · exact .inr hold

/-- A segment whose number is stored takes the place of that number. -/
theorem numbers_add (hs : s.Indexed) {a : Segment} (h : a.number ∈ s.numbers) :
    (s.add a).numbers = s.numbers := by
  obtain ⟨i, hi⟩ := List.getElem?_of_mem h
  obtain ⟨hlt, hn⟩ := List.getElem?_eq_some_iff.1 hi
  rw [SegmentSet.add, (hs.get? _ i).2 hi]
  show (s.segments.set i a).map Segment.number = s.numbers
  rw [List.map_set, ← hn]
  exact List.set_getElem_self hlt

/-- Of several segments added with one number the last is found. -/
theorem get?_addAll (hs : s.Indexed) (segments : List Segment) (n : Int) :
    (s.addAll segments).get? n = (segments.reverse.find? fun a => a.number == n).or (s.get? n) := by
  induction segments generalizing s with
  | nil => rfl
  | cons a segments ih =>
    show ((s.add a).addAll segments).get? n = _
    rw [ih (hs.add a), hs.get?_add, List.reverse_cons, List.find?_append, Option.or_assoc,
      List.find?_singleton]
    congr 1
    by_cases hn : n = a.number
    · simp [hn]
    · simp [hn, Ne.symm hn]

end Indexed
end SegmentSet
end MultiSegmentWell
