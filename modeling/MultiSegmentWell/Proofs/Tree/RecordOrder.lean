/-
# The order of records does not matter

Records whose ranges have no number in common give the same segments in every order
(`described_perm`), and the segments that are given determine the tree. So if such records
can be loaded in two orders, both loaded sets hold the same segments
(`sameButInletOrder_of_load_perm`).
-/

import MultiSegmentWell.Proofs.Tree.Assembly
import MultiSegmentWell.Proofs.Tree.Determined
import Mathlib.Data.List.Pairwise

namespace MultiSegmentWell

namespace RangeRecord

/-- No number is covered by both records. -/
def Apart (a b : RangeRecord) : Prop := ∀ n ∈ a.numbers, n ∉ b.numbers

instance (a b : RangeRecord) : Decidable (Apart a b) :=
  inferInstanceAs (Decidable (∀ n ∈ a.numbers, n ∉ b.numbers))

/-- Ranges without a common number have none the other way round. -/
theorem Apart.symm {a b : RangeRecord} (h : Apart a b) : Apart b a :=
  fun n hb ha => h n ha hb

instance : Std.Symm Apart := ⟨fun _ _ => Apart.symm⟩

end RangeRecord

namespace SegmentSet

open Segment (SameButInletOrder)

variable {s s' r r' : SegmentSet} {header : Header} {records records' : List RangeRecord}
variable {options options' : Options} {u : Segment}

/-- Records of which no two cover the same number. -/
def DisjointRanges (records : List RangeRecord) : Prop := records.Pairwise RangeRecord.Apart

instance (records : List RangeRecord) : Decidable (DisjointRanges records) :=
  inferInstanceAs (Decidable (records.Pairwise RangeRecord.Apart))

/-- Ranges stay apart in another order. -/
theorem DisjointRanges.of_perm (h : DisjointRanges records) (hperm : records'.Perm records) :
    DisjointRanges records' :=
  hperm.symm.pairwise h RangeRecord.Apart.symm

/-- A number is covered by one record of disjoint ranges at most. -/
theorem DisjointRanges.recordOf?_eq_some_iff (h : DisjointRanges records) {n : Int}
    {record : RangeRecord} :
    TreeDefinition.recordOf? ⟨header, records⟩ n = some record ↔
      record ∈ records ∧ record.first ≤ n ∧ n ≤ record.last := by
  constructor
  · exact TreeDefinition.mem_and_covers_of_recordOf?
  · rintro ⟨hmem, hcovers⟩
    cases hfound : TreeDefinition.recordOf? ⟨header, records⟩ n with
    | none =>
      rw [TreeDefinition.recordOf?, List.find?_eq_none] at hfound
      exact absurd (decide_eq_true hcovers) (hfound record (List.mem_reverse.2 hmem))
    | some other =>
      obtain ⟨hmem', hcovers'⟩ := TreeDefinition.mem_and_covers_of_recordOf? hfound
      by_contra hne
      have hapart : other.Apart record := h.forall hmem' hmem fun heq => hne (congrArg some heq)
      exact hapart n (mem_numbersBetween.2 hcovers') (mem_numbersBetween.2 hcovers)

/-- **Records with disjoint ranges describe the same segments in every order.** -/
theorem described_perm (hdisjoint : DisjointRanges records) (hperm : records'.Perm records) :
    (described ⟨header, records'⟩).segments.Perm (described ⟨header, records⟩).segments := by
  have hrecord : ∀ n, TreeDefinition.recordOf? ⟨header, records'⟩ n
      = TreeDefinition.recordOf? ⟨header, records⟩ n := by
    intro n
    ext record
    rw [(hdisjoint.of_perm hperm).recordOf?_eq_some_iff, hdisjoint.recordOf?_eq_some_iff,
      hperm.mem_iff]
  have hs := indexed_described ⟨header, records⟩
  have hs' := indexed_described ⟨header, records'⟩
  refine (List.perm_ext_iff_of_nodup hs'.segments_nodup hs.segments_nodup).2 fun t => ?_
  have hmem := hs.get?_eq_some_iff (n := t.number) (a := t)
  have hmem' := hs'.get?_eq_some_iff (n := t.number) (a := t)
  rw [and_iff_left rfl] at hmem hmem'
  rw [← hmem, ← hmem', get?_described, get?_described, hrecord]

/-- The same numbers are stored in whatever order disjoint records come. -/
theorem BuiltOf.numbers_of_perm (h : BuiltOf ⟨header, records⟩ r)
    (h' : BuiltOf ⟨header, records'⟩ r') (hdisjoint : DisjointRanges records)
    (hperm : records'.Perm records) : r'.numbers.Perm r.numbers := by
  have hsegments : (described ⟨header, records'⟩).segments.Perm
      (described ⟨header, records⟩).segments := described_perm hdisjoint hperm
  exact h'.numbers.trans ((hsegments.map Segment.number).trans h.numbers.symm)

/-- **What is built of disjoint records does not depend on their order.** -/
theorem BuiltOf.eq_of_perm (h : BuiltOf ⟨header, records⟩ r) (h' : BuiltOf ⟨header, records'⟩ r')
    (hcheck : ∀ record ∈ records, record.check header.well header.mode = .ok ())
    (hdisjoint : DisjointRanges records) (hperm : records'.Perm records) {u' : Segment}
    (hu : u ∈ r.segments) (hu' : u' ∈ r'.segments) (hn : u'.number = u.number) :
    u' = { u with inlets := u'.inlets } := by
  have hcheck' : ∀ record ∈ records', record.check header.well header.mode = .ok () :=
    fun record hrecord => hcheck record (hperm.mem_iff.1 hrecord)
  obtain ⟨i, hi⟩ := List.getElem?_of_mem hu
  obtain ⟨chain, hchain, -⟩ := h.inOrder.exists_chain h.indexed.segments_nodup hi
  exact (h.treeSettled hcheck).eq (h'.treeSettled hcheck') (described_perm hdisjoint hperm)
    (indexed_described _).nodup h.indexed.nodup hchain hu' hn

/-- **The order of disjoint records does not matter for what is loaded.**  If the records
of a definition can be loaded in two orders, both sets store the same numbers, and the
segments with one number are the same: branch, outlet, node, pipe and volume are equal, and
so are the inlets up to their order. -/
theorem sameButInletOrder_of_load_perm (hperm : records'.Perm records)
    (hdisjoint : DisjointRanges records)
    (h : (s.load ⟨header, records⟩ options).outcome = .ok r)
    (h' : (s'.load ⟨header, records'⟩ options').outcome = .ok r') :
    r'.numbers.Perm r.numbers ∧ ∀ u ∈ r.segments, ∀ u' ∈ r'.segments, u'.number = u.number →
      SameButInletOrder u u' := by
  have hcheck := (load_eq_ok.1 h).2.1
  obtain ⟨built, hbuilt, -, rfl⟩ := exists_builtOf_of_load h
  obtain ⟨built', hbuilt', -, rfl⟩ := exists_builtOf_of_load h'
  have hsame : ∀ u ∈ built.segments, ∀ u' ∈ built'.segments, u'.number = u.number →
      u' = { u with inlets := u'.inlets } := fun u hu u' hu' =>
    hbuilt.eq_of_perm hbuilt' hcheck hdisjoint hperm hu hu'
  have hnumbers : built'.numbers.Perm built.numbers :=
    hbuilt.numbers_of_perm hbuilt' hdisjoint hperm
  refine ⟨hnumbers, fun u hu u' hu' hn => ?_⟩
  refine (inletsExact_of_load h u hu).sameButInletOrder (inletsExact_of_load h' u' hu')
    (hsame u hu u' hu' hn) (fun v hv => ?_) fun w hw => ?_
  · obtain ⟨w, hw, hwn⟩ := List.mem_map.1 (hnumbers.mem_iff.2 (List.mem_map_of_mem hv))
    exact ⟨w, hw, hwn, by rw [hsame v hv w hw hwn]⟩
  · obtain ⟨v, hv, hvn⟩ := List.mem_map.1 (hnumbers.mem_iff.1 (List.mem_map_of_mem hw))
    exact ⟨v, hv, hvn, by rw [hsame v hv w hw hvn.symm]⟩

/-- A main bore with two side branches at its end, one of them with a bend. -/
def trident : TreeDefinition where
  header := { well := "W", top := ⟨100.0, 1000.0, 0.0, 0.0⟩, volume := 1.0, mode := .incremental }
  records := [
    { first := 2, last := 4, branch := 1, join := 1, node := ⟨10.0, 5.0, 0.0, 0.0⟩,
      diameter := 0.2, roughness := 1.0e-4 },
    { first := 5, last := 6, branch := 2, join := 4, node := ⟨20.0, 5.0, 0.0, 0.0⟩,
      diameter := 0.1, roughness := 1.0e-4 },
    { first := 7, last := 7, branch := 3, join := 4, node := ⟨30.0, 5.0, 0.0, 0.0⟩,
      diameter := 0.1, roughness := 1.0e-4 }]

/-- Reversed, the records store the side branches the other way round, and every segment comes out
the same. -/
theorem sameButInletOrder_of_load_perm_trident :
    trident.records.reverse.Perm trident.records ∧ DisjointRanges trident.records ∧
      ∃ r r', (({} : SegmentSet).load trident {}).outcome = .ok r ∧
        (({} : SegmentSet).load ⟨trident.header, trident.records.reverse⟩ {}).outcome = .ok r' ∧
        r.numbers = [1, 2, 3, 4, 5, 6, 7] ∧ r'.numbers = [1, 2, 3, 4, 7, 5, 6] ∧
        r'.numbers.Perm r.numbers ∧ ∀ u ∈ r.segments, ∀ u' ∈ r'.segments, u'.number = u.number →
          SameButInletOrder u u' := by
  have hperm : trident.records.reverse.Perm trident.records := List.reverse_perm _
  have hdisjoint : DisjointRanges trident.records := by decide +kernel
  have hload : (({} : SegmentSet).load trident {}).outcome
      = .ok (SegmentSet.after {} (.load trident {})) := by decide +kernel
  have hload' : (({} : SegmentSet).load ⟨trident.header, trident.records.reverse⟩ {}).outcome
      = .ok (SegmentSet.after {} (.load ⟨trident.header, trident.records.reverse⟩ {})) := by
    decide +kernel
  exact ⟨hperm, hdisjoint, _, _, hload, hload', by decide +kernel, by decide +kernel,
    sameButInletOrder_of_load_perm hperm hdisjoint hload hload'⟩

end SegmentSet
end MultiSegmentWell
