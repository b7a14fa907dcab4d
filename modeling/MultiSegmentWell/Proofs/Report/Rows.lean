/-
# Reports on built wells

SPEC_FULL.md, 6: `segments` and `branches`.

Reporting on a well that was built cannot fail. Every segment has a length, so there is a row
for each (`exists_segmentRows_of_rooted`). A segment never flows into one that is stored
behind it, so no branch leads in a circle, and the row of a branch lists the stored segments
on it as they are stored (`branchRow_of_rooted`).

The rows of all branches go through the branches in use, which are listed without repetition
and in increasing order (`pairwise_branches`, `mem_branches_iff`), so together they list every
segment once (`tiled_of_rooted`).
-/

import MultiSegmentWell.Report.Rows
import MultiSegmentWell.Proofs.Deck.BuildFaults
import MultiSegmentWell.Proofs.Deck.Perforations
import MultiSegmentWell.Proofs.Order.BranchSegments

namespace MultiSegmentWell

namespace SegmentSet

/-- Inserting a number adds it and nothing else. -/
theorem mem_insertIncreasing {n m : Int} {ms : List Int} :
    m ∈ insertIncreasing n ms ↔ m = n ∨ m ∈ ms := by
  induction ms with
  | nil => simp [insertIncreasing]
  | cons k ms ih =>
    rw [insertIncreasing]
    split_ifs with hlt heq
    · rw [List.mem_cons]
    · simp [heq]
    · rw [List.mem_cons, ih, List.mem_cons, or_left_comm]

/-- Increasing numbers stay so. -/
theorem pairwise_insertIncreasing (n : Int) {ms : List Int} (h : ms.Pairwise (· < ·)) :
    (insertIncreasing n ms).Pairwise (· < ·) := by
  induction ms with
  | nil => exact List.pairwise_singleton _ n
  | cons k ms ih =>
    obtain ⟨hk, hms⟩ := List.pairwise_cons.1 h
    rw [insertIncreasing]
    split_ifs with hlt heq
    · exact List.pairwise_cons.2
        ⟨List.forall_mem_cons.2 ⟨hlt, fun m hm => hlt.trans (hk m hm)⟩, h⟩
    · exact h
    · refine List.pairwise_cons.2 ⟨fun m hm => ?_, ih hms⟩
      obtain rfl | hm := mem_insertIncreasing.1 hm
      · omega
      · exact hk m hm

/-- The branches in use are listed in increasing order. -/
theorem pairwise_branches (s : SegmentSet) : s.branches.Pairwise (· < ·) := by
  unfold branches
  induction s.segments.map Segment.branch with
  | nil => exact .nil
  | cons n ns ih => exact pairwise_insertIncreasing n ih

/-- The branches in use are those of the segments. -/
theorem mem_branches_iff {s : SegmentSet} {branch : Int} :
    branch ∈ s.branches ↔ ∃ t ∈ s.segments, t.branch = branch := by
  rw [← List.mem_map]
  unfold branches
  induction s.segments.map Segment.branch with
  | nil => exact Iff.rfl
  | cons n ns ih => rw [List.foldr_cons, mem_insertIncreasing, ih, List.mem_cons]

/-- In a rooted set no segment flows into one behind it. -/
theorem Rooted.onward {s : SegmentSet} (hs : Rooted s) : Onward s.segments :=
  hs.inOrder.onward hs.indexed.nodup fun t ht hn => by
    rw [hs.top_outlet t ht hn]
    exact hs.zero_not_mem

end SegmentSet

namespace Report

open SegmentSet

variable {s : SegmentSet} {units : UnitSystem}

/-- What the row of a segment shows: its ties in the tree as they are stored, and its measures
in the units of the report, its own length among them. -/
structure SegmentRow.Shows [UnitConversions] (s : SegmentSet) (units : UnitSystem) (t : Segment)
    (row : SegmentRow) : Prop where
  number : row.number = t.number
  branch : row.branch = t.branch
  outlet : row.outlet = t.outlet
  inlets : row.inlets = t.inlets
  kind : row.kind = t.device.kind
  length : ∃ l, s.segmentLength t.number = .ok l ∧ row.length = units.lengthFromSI l
  totalLength : row.totalLength = units.lengthFromSI t.node.length
  depth : row.depth = units.lengthFromSI t.node.depth
  diameter : row.diameter = units.lengthFromSI t.pipe.diameter
  volume : row.volume = t.volume

/-- Rows of branches that show every segment of a set once. -/
structure Tiled (s : SegmentSet) (rows : List BranchRow) : Prop where
  increasing : rows.Pairwise fun r q => r.branch < q.branch
  used : ∀ branch, (∃ row ∈ rows, row.branch = branch) ↔ ∃ t ∈ s.segments, t.branch = branch
  /-- Together the rows list the stored numbers, each of them once. -/
  listed : (rows.flatMap BranchRow.segments).Perm s.numbers
  once : (rows.flatMap BranchRow.segments).Nodup
  /-- A row lists segments of its own branch. -/
  own : ∀ row ∈ rows, ∀ t ∈ s.segments, t.number ∈ row.segments → t.branch = row.branch
  /-- Where an outlet is listed with its inlet, it is listed before it. -/
  outletFirst : ∀ row ∈ rows, ∀ t ∈ s.segments, t.outlet ∈ row.segments →
    ∀ i : Nat, row.segments[i]? = some t.number → ∃ j < i, row.segments[j]? = some t.outlet

/-- The row that lists the stored segments on a branch, in storage order. -/
def listing (s : SegmentSet) (branch : Int) : BranchRow :=
  ⟨branch, (s.segments.filter fun t => t.branch == branch).map Segment.number⟩

/-- A row shows its segment, each value in its field. -/
theorem shows_of_segmentRow [UnitConversions] {t : Segment} {row : SegmentRow}
    (h : segmentRow s units t = .ok row) : row.Shows s units t := by
  obtain ⟨l, hl, rfl⟩ := map_eq_ok.1 h
  exact ⟨rfl, rfl, rfl, rfl, rfl, ⟨l, hl, rfl⟩, rfl, rfl, rfl, rfl⟩

/-- The row of a branch lists the stored numbers on it. -/
theorem mem_listing_iff {n branch : Int} : n ∈ (listing s branch).segments ↔
    ∃ t ∈ s.segments, t.branch = branch ∧ t.number = n := by
  simp [listing, and_assoc]

/-- A number stands in the row of the branch of its segment and in no other. -/
theorem branch_eq_of_mem_listing (hs : s.Indexed) {t : Segment} (ht : t ∈ s.segments)
    {branch : Int} (h : t.number ∈ (listing s branch).segments) : t.branch = branch := by
  obtain ⟨u, hu, rfl, hn⟩ := mem_listing_iff.1 h
  rw [List.inj_on_of_nodup_map hs.nodup hu ht hn]

/-- All rows together list no number twice. -/
theorem nodup_flatMap_listing (hs : s.Indexed) :
    ((s.branches.map (listing s)).flatMap BranchRow.segments).Nodup := by
  rw [List.flatMap_map, List.nodup_flatMap]
  refine ⟨fun branch _ => hs.nodup.sublist (List.filter_sublist.map _), ?_⟩
  refine s.pairwise_branches.imp fun {a b} hlt n ha hb => ?_
  obtain ⟨t, ht, rfl, rfl⟩ := mem_listing_iff.1 ha
  exact hlt.ne (branch_eq_of_mem_listing hs ht hb)

/-- All rows together list every stored number. -/
theorem mem_flatMap_listing {n : Int} :
    n ∈ (s.branches.map (listing s)).flatMap BranchRow.segments ↔ n ∈ s.numbers := by
  rw [List.flatMap_map, List.mem_flatMap]
  constructor
  · rintro ⟨branch, -, h⟩
    obtain ⟨t, ht, -, rfl⟩ := mem_listing_iff.1 h
    exact List.mem_map_of_mem ht
  · intro h
    obtain ⟨t, ht, rfl⟩ := List.mem_map.1 h
    exact ⟨t.branch, mem_branches_iff.2 ⟨t, ht, rfl⟩, mem_listing_iff.2 ⟨t, ht, rfl, rfl⟩⟩

/-- On a branch of an onward set an outlet is listed before its inlets. -/
theorem exists_before_of_listing (hs : s.Indexed) (honward : Onward s.segments) {branch : Int}
    {t : Segment} (ht : t ∈ s.segments) (ho : t.outlet ∈ (listing s branch).segments) {i : Nat}
    (hi : (listing s branch).segments[i]? = some t.number) :
    ∃ j < i, (listing s branch).segments[j]? = some t.outlet := by
  obtain ⟨u, hu, hub, huo⟩ := mem_listing_iff.1 ho
  have hmem : u ∈ s.segments.filter fun t => t.branch == branch :=
    List.mem_filter.2 ⟨hu, beq_iff_eq.2 hub⟩
  rw [listing, List.getElem?_map, Option.map_eq_some_iff] at hi
  obtain ⟨v, hv, hvn⟩ := hi
  obtain rfl := List.inj_on_of_nodup_map hs.nodup
    (List.mem_of_mem_filter (List.mem_of_getElem? hv)) ht hvn
  obtain ⟨j, hj, huj⟩ := (honward.filter _).exists_before hv hmem huo
  refine ⟨j, hj, ?_⟩
  rw [listing, List.getElem?_map, huj, Option.map_some, huo]

section Rooted

variable (hs : Rooted s)
include hs

/-- **Every segment has its row**, in storage order. -/
theorem exists_segmentRows_of_rooted [UnitConversions] (units : UnitSystem) :
    ∃ rows, segmentRows s units = .ok rows ∧
      List.Forall₂ (fun t row => row.Shows s units t) s.segments rows := by
  obtain ⟨rows, hrows⟩ : ∃ rows, segmentRows s units = .ok rows := by
    refine exists_mapM_eq_ok fun t ht => ?_
    obtain ⟨l, hl⟩ := hs.length t.number (List.mem_map_of_mem ht)
    exact ⟨_, map_eq_ok.2 ⟨l, hl, rfl⟩⟩
  exact ⟨rows, hrows, (mapM_eq_ok.1 hrows).imp fun _ _ => shows_of_segmentRow⟩

/-- **No branch of a rooted tree leads in a circle**: its row lists the stored segments on it. -/
theorem branchRow_of_rooted (branch : Int) : branchRow s branch = .ok (listing s branch) := by
  rw [branchRow, branchSegments_of_onward hs.onward]
  rfl

/-- The rows of all branches are those of the branches in use. -/
theorem branchRows_of_rooted : branchRows s none = .ok (s.branches.map (listing s)) := by
  refine mapM_eq_ok.2 ?_
  rw [List.forall₂_map_right_iff, List.forall₂_same]
  exact fun branch _ => branchRow_of_rooted hs branch

/-- The report on one branch is its row. -/
theorem branchRows_some_of_rooted (branch : Int) :
    branchRows s (some branch) = .ok [listing s branch] := by
  rw [branchRows, branchRow_of_rooted hs]
  rfl

/-- **The rows of the branches in use show every segment once.** -/
theorem tiled_of_rooted : Tiled s (s.branches.map (listing s)) where
  increasing := List.pairwise_map.2 s.pairwise_branches
  used branch := by
    rw [← mem_branches_iff]
    constructor
    · rintro ⟨row, hrow, rfl⟩
      obtain ⟨n, hn, rfl⟩ := List.mem_map.1 hrow
      exact hn
    · exact fun h => ⟨_, List.mem_map_of_mem h, rfl⟩
  listed := (List.perm_ext_iff_of_nodup (nodup_flatMap_listing hs.indexed) hs.indexed.nodup).2
    fun _ => mem_flatMap_listing
  once := nodup_flatMap_listing hs.indexed
  own := by
    rw [List.forall_mem_map]
    exact fun branch _ t ht h => branch_eq_of_mem_listing hs.indexed ht h
  outletFirst := by
    rw [List.forall_mem_map]
    exact fun branch _ t ht ho i hi => exists_before_of_listing hs.indexed hs.onward ht ho hi

end Rooted

variable {input : WellInput} {options : Options} {b : BuiltWell}

/-- **Reporting on a built well never fails and shows every segment once.** In any units there
is a row for each segment, in storage order, that shows it. There is a row for each branch in
use, in increasing order; together they list every stored number once, an outlet always before
its inlets. Asked for one branch, the report is the row of that branch, which is empty if the
branch is not in use. -/
theorem reported_of_build [UnitConversions] (h : (input.build options).outcome = .ok b)
    (units : UnitSystem) :
    (∃ rows, segmentRows b.segments units = .ok rows ∧
      List.Forall₂ (fun t row => row.Shows b.segments units t) b.segments.segments rows) ∧
    ∃ rows, branchRows b.segments none = .ok rows ∧ Tiled b.segments rows ∧
      (∀ row ∈ rows, branchRows b.segments (some row.branch) = .ok [row]) ∧
      ∀ branch, (∀ t ∈ b.segments.segments, t.branch ≠ branch) →
        branchRows b.segments (some branch) = .ok [⟨branch, []⟩] := by
  have hs := rooted_of_build h
  refine ⟨exists_segmentRows_of_rooted hs units, _, branchRows_of_rooted hs, tiled_of_rooted hs,
    ?_, fun branch hunused => ?_⟩
  · rw [List.forall_mem_map]
    exact fun branch _ => branchRows_some_of_rooted hs branch
  · have hnone : (b.segments.segments.filter fun t => t.branch == branch) = [] := by
      simpa using hunused
    rw [branchRows_some_of_rooted hs, listing, hnone, List.map_nil]

/-- A well of two branches with an inflow control device and a valve is reported on. -/
theorem reported_of_build_perforated :
    ∃ b, (perforated.build {}).outcome = .ok b ∧
      (∃ rows, segmentRows b.segments .metric = .ok rows ∧
        List.Forall₂ (fun t row => row.Shows b.segments .metric t) b.segments.segments rows) ∧
      ∃ rows, branchRows b.segments none = .ok rows ∧ Tiled b.segments rows ∧
        (∀ row ∈ rows, branchRows b.segments (some row.branch) = .ok [row]) ∧
        ∀ branch, (∀ t ∈ b.segments.segments, t.branch ≠ branch) →
          branchRows b.segments (some branch) = .ok [⟨branch, []⟩] := by
  obtain ⟨b, hb⟩ := exists_of_isOk (by decide +kernel : (perforated.build {}).outcome.isOk = true)
  exact ⟨b, hb, reported_of_build hb .metric⟩

end Report
end MultiSegmentWell
