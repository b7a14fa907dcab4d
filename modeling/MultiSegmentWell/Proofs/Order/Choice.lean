/-
# Which segment is placed next

The choice looks only at the pending segments whose outlet is placed. A segment that
is chosen is the only one that could continue the branch placed last
(`exists_of_choose_next`); the choice is ambiguous when two of them could
(`exists_of_choose_ambiguous`) and stuck when there are none
(`not_outletPlaced_of_choose_stuck`). The first pending segment is chosen when its
outlet is placed and no other segment continues the branch (`choose_head`).
-/

import MultiSegmentWell.SegmentSet.Order
import Mathlib.Data.List.Basic

namespace MultiSegmentWell

/-- The item at a position can be taken out. -/
theorem exists_takeOut {α : Type} {xs : List α} {i : Nat} {x : α} (h : xs[i]? = some x) :
    ∃ rest, takeOut i xs = some (x, rest) := by
  match xs, i with
  | [], _ => simp at h
  | y :: ys, 0 =>
    obtain rfl := Option.some.inj h
    exact ⟨ys, rfl⟩
  | y :: ys, i + 1 =>
    rw [List.getElem?_cons_succ] at h
    exact ⟨ys.set i y, by rw [takeOut, h]; rfl⟩

namespace SegmentSet

/-- The outlet of a segment is among the placed segments. -/
def OutletPlaced (placed : List Segment) (t : Segment) : Prop :=
  t.outlet ∈ placed.map Segment.number

instance (placed : List Segment) (t : Segment) : Decidable (OutletPlaced placed t) :=
  inferInstanceAs (Decidable (t.outlet ∈ placed.map Segment.number))

/-- The test for a placed outlet is exact. -/
theorem any_number_eq_iff {placed : List Segment} {t : Segment} :
    (placed.any fun p => p.number == t.outlet) = true ↔ OutletPlaced placed t := by
  simp [OutletPlaced, List.any_eq_true]

/-- One more placed segment is the outlet of those that flow into it. -/
theorem outletPlaced_concat {placed : List Segment} {s t : Segment} :
    OutletPlaced (placed ++ [s]) t ↔ OutletPlaced placed t ∨ t.outlet = s.number := by
  simp [OutletPlaced]

/-- The pending segments whose outlet is placed, with their positions. -/
def ready (placed pending : List Segment) : List (Segment × Nat) :=
  pending.zipIdx.filter fun (t, _) => placed.any fun p => p.number == t.outlet

/-- Those that lie on a branch. -/
def continuing (placed : List Segment) (branch : Int) (pending : List Segment) :
    List (Segment × Nat) :=
  (ready placed pending).filter fun (t, _) => t.branch == branch

/-- The choice: two that continue the branch are ambiguous, one is taken; else the first with a
placed outlet is, if there is one. -/
theorem choose_eq (placed : List Segment) (branch : Int) (pending : List Segment) :
    choose placed branch pending =
      match continuing placed branch pending with
      | (first, _) :: (second, _) :: _ => .ambiguous first second
      | [(_, position)] => .next position
      | [] =>
        match ready placed pending with
        | (_, position) :: _ => .next position
        | [] => .stuck := rfl

variable {placed pending : List Segment} {branch : Int}

/-- The candidates are the pending segments with a placed outlet. -/
theorem mem_ready_iff {t : Segment} {i : Nat} :
    (t, i) ∈ ready placed pending ↔ pending[i]? = some t ∧ OutletPlaced placed t := by
  rw [ready, List.mem_filter, List.mk_mem_zipIdx_iff_getElem?]
  exact and_congr_right fun _ => any_number_eq_iff

/-- The preferred candidates are those that lie on the branch placed last. -/
theorem mem_continuing_iff {t : Segment} {i : Nat} :
    (t, i) ∈ continuing placed branch pending ↔
      pending[i]? = some t ∧ OutletPlaced placed t ∧ t.branch = branch := by
  rw [continuing, List.mem_filter, mem_ready_iff, and_assoc, beq_iff_eq]

/-- The continuing segments stand in the order of their positions. -/
theorem pairwise_continuing (placed : List Segment) (branch : Int) (pending : List Segment) :
    (continuing placed branch pending).Pairwise fun a b => a.2 < b.2 := by
  have h : pending.zipIdx.Pairwise fun a b => a.2 < b.2 := by
    have hrange : (List.range' 0 pending.length).Pairwise (· < ·) := List.pairwise_lt_range'
    rwa [← List.zipIdx_map_snd 0 pending, List.pairwise_map] at hrange
  exact (h.filter _).filter _

/-- **A chosen segment has its outlet placed, and only it can continue the branch.** -/
theorem exists_of_choose_next {i : Nat} (h : choose placed branch pending = .next i) :
    ∃ s, pending[i]? = some s ∧ OutletPlaced placed s ∧
      ∀ t ∈ pending, OutletPlaced placed t → t.branch = branch → t = s := by
  rw [choose_eq] at h
  split at h
  · cases h
  · rename_i s j hone
    obtain rfl := Choice.next.inj h
    obtain ⟨hs, ho, -⟩ := mem_continuing_iff.1 (hone ▸ List.mem_singleton_self (s, j))
    refine ⟨s, hs, ho, fun t ht hto htb => ?_⟩
    obtain ⟨k, hk⟩ := List.getElem?_of_mem ht
    have hmem : (t, k) ∈ continuing placed branch pending := mem_continuing_iff.2 ⟨hk, hto, htb⟩
    rw [hone, List.mem_singleton] at hmem
    exact congrArg Prod.fst hmem
  · rename_i hnone
    split at h
    · rename_i s j rest hready
      obtain rfl := Choice.next.inj h
      obtain ⟨hs, ho⟩ := mem_ready_iff.1 (hready ▸ List.mem_cons_self (a := (s, j)))
      refine ⟨s, hs, ho, fun t ht hto htb => ?_⟩
      obtain ⟨k, hk⟩ := List.getElem?_of_mem ht
      have hmem : (t, k) ∈ continuing placed branch pending := mem_continuing_iff.2 ⟨hk, hto, htb⟩
      rw [hnone] at hmem
      cases hmem
    · cases h

/-- **An ambiguous choice names two pending segments that continue the branch.** -/
theorem exists_of_choose_ambiguous {first second : Segment}
    (h : choose placed branch pending = .ambiguous first second) :
    ∃ i j : Nat, i < j ∧ pending[i]? = some first ∧ pending[j]? = some second ∧
      (OutletPlaced placed first ∧ first.branch = branch) ∧
      (OutletPlaced placed second ∧ second.branch = branch) := by
  rw [choose_eq] at h
  split at h
  · rename_i f i s j rest htwo
    obtain ⟨rfl, rfl⟩ := Choice.ambiguous.inj h
    have hpos := pairwise_continuing placed branch pending
    rw [htwo] at hpos
    have hlt := List.rel_of_pairwise_cons hpos List.mem_cons_self
    obtain ⟨hf, hfo⟩ := mem_continuing_iff.1 (htwo ▸ List.mem_cons_self (a := (f, i)))
    obtain ⟨hs, hso⟩ := mem_continuing_iff.1
      (htwo ▸ List.mem_cons_of_mem (f, i) (List.mem_cons_self (a := (s, j))))
    exact ⟨i, j, hlt, hf, hs, hfo, hso⟩
  · cases h
  · split at h <;> cases h

/-- **The choice is stuck only where no outlet of a pending segment is placed.** -/
theorem not_outletPlaced_of_choose_stuck (h : choose placed branch pending = .stuck) :
    ∀ t ∈ pending, ¬ OutletPlaced placed t := by
  rw [choose_eq] at h
  split at h
  · cases h
  · cases h
  · split at h
    · cases h
    · rename_i hnone
      intro t ht hto
      obtain ⟨k, hk⟩ := List.getElem?_of_mem ht
      have hmem : (t, k) ∈ ready placed pending := mem_ready_iff.2 ⟨hk, hto⟩
      rw [hnone] at hmem
      cases hmem

/-- **The first pending segment is chosen** when its outlet is placed and no other one
continues the branch. -/
theorem choose_head {s : Segment} {rest : List Segment} (hs : OutletPlaced placed s)
    (hrest : ∀ t ∈ rest, OutletPlaced placed t → t.branch ≠ branch) :
    choose placed branch (s :: rest) = .next 0 := by
  have hzero : ∀ t i, (t, i) ∈ continuing placed branch (s :: rest) → (t, i) = (s, 0) := by
    intro t i hmem
    obtain ⟨ht, hto, htb⟩ := mem_continuing_iff.1 hmem
    match i with
    | 0 =>
      obtain rfl := Option.some.inj ht
      rfl
    | i + 1 => exact absurd htb (hrest t (List.mem_of_getElem? ht) hto)
  rw [choose_eq]
  split
  · rename_i f i g j more htwo
    -- both would stand at position 0
    have hpos := pairwise_continuing placed branch (s :: rest)
    rw [htwo] at hpos
    have hlt := List.rel_of_pairwise_cons hpos List.mem_cons_self
    have hj := hzero g j (htwo ▸ List.mem_cons_of_mem (f, i) List.mem_cons_self)
    obtain ⟨-, rfl⟩ := Prod.mk.inj hj
    exact absurd hlt (Nat.not_lt_zero _)
  · rename_i f i hone
    obtain ⟨-, rfl⟩ := Prod.mk.inj (hzero f i (hone ▸ List.mem_singleton_self _))
    rfl
  · obtain ⟨more, hready⟩ : ∃ more, ready placed (s :: rest) = (s, 0) :: more :=
      ⟨_, List.filter_cons_of_pos (any_number_eq_iff.2 hs)⟩
    rw [hready]

end SegmentSet
end MultiSegmentWell
