/-
# Ordering by swaps

Ordering in place comes to the arrangement of a set. One pass over the pending segments
that holds the best one seen so far makes the choice (`seek_eq_choose`). Swapping the
chosen segment with the first pending one takes it out of them (`swapItems_append`), and
entering it behind the placed ones is what entering all their numbers comes to, so the
loop arrives where the arrangement does (`placeAfter_eq`). Where it stops early, the
positions entered so far are those of the placed segments only, and entering all of them
anew makes up for the rest (`orderInPlace_eq`).
-/

import MultiSegmentWell.SegmentSet.InPlace
import MultiSegmentWell.Proofs.Order.Arrangement
import MultiSegmentWell.Proofs.Work

namespace MultiSegmentWell

/-- A number is entered exactly if it is among those entered. -/
theorem SegmentIndex.contains_ofNumbers {ns : List Int} {n : Int} :
    (ofNumbers ns).contains n = true ↔ n ∈ ns := by
  induction ns using List.reverseRecOn with
  | nil => exact iff_of_false Bool.false_ne_true List.not_mem_nil
  | append_singleton ns m ih =>
    rw [ofNumbers_concat, contains, get?_insert, List.mem_append, List.mem_singleton]
    split_ifs with hm
    · exact iff_of_true rfl (.inr hm)
    · exact ih.trans (or_iff_left hm).symm

/-- Swapping with the first item takes an item out. -/
theorem swapItems_zero {α : Type} {i : Nat} {xs rest : List α} {y : α}
    (h : takeOut i xs = some (y, rest)) : swapItems 0 i xs = y :: rest := by
  match xs, i with
  | x :: xs, 0 =>
    obtain ⟨rfl, rfl⟩ := Prod.mk.inj (Option.some.inj h)
    rfl
  | x :: xs, i + 1 =>
    simp only [takeOut, Option.map_eq_some_iff, Prod.mk.injEq] at h
    obtain ⟨z, hz, rfl, rfl⟩ := h
    simp [swapItems, hz]

/-- Swaps behind other items leave these alone. -/
theorem swapItems_append {α : Type} (before xs : List α) (i j : Nat) :
    swapItems (before.length + i) (before.length + j) (before ++ xs) =
      before ++ swapItems i j xs := by
  have hat : ∀ k, (before ++ xs)[before.length + k]? = xs[k]? := fun k => by
    rw [List.getElem?_append_right (Nat.le_add_right _ _), Nat.add_sub_cancel_left]
  rw [swapItems, swapItems, hat, hat]
  cases xs[i]? with
  | none => rfl
  | some x =>
    cases xs[j]? with
    | none => rfl
    | some y => simp [List.set_append_right]

namespace SegmentSet

/-- The choice among segments whose outlet is placed, in their order. -/
def pick (branch : Int) (ready : List (Segment × Nat)) : Choice :=
  match ready.filter fun (t, _) => t.branch == branch with
  | (first, _) :: (second, _) :: _ => .ambiguous first second
  | [(_, position)] => .next position
  | [] =>
    match ready with
    | (_, position) :: _ => .next position
    | [] => .stuck

/-- The choice is made among the candidates. -/
theorem choose_eq_pick (placed : List Segment) (branch : Int) (pending : List Segment) :
    choose placed branch pending = pick branch (ready placed pending) := rfl

section Pick

variable {branch : Int} {first t : Segment} {i j : Nat} {ready : List (Segment × Nat)}

/-- Behind another segment, one that does not continue the branch makes no difference. -/
theorem pick_skip (h : t.branch ≠ branch) :
    pick branch ((first, j) :: (t, i) :: ready) = pick branch ((first, j) :: ready) := by
  simp [pick, List.filter_cons, h]

/-- Before one that continues the branch, one that does not makes no difference. -/
theorem pick_replace (hfirst : first.branch ≠ branch) (h : t.branch = branch) :
    pick branch ((first, j) :: (t, i) :: ready) = pick branch ((t, i) :: ready) := by
  cases hmore : ready.filter fun (t, _) => t.branch == branch <;> simp [pick, hfirst, h, hmore]

/-- Two candidates that continue the branch are ambiguous. -/
theorem pick_ambiguous (hfirst : first.branch = branch) (h : t.branch = branch) :
    pick branch ((first, j) :: (t, i) :: ready) = .ambiguous first t := by
  simp [pick, hfirst, h]

/-- A single candidate is chosen, on whatever branch it lies. -/
theorem pick_singleton : pick branch [(t, i)] = .next i := by
  by_cases h : t.branch = branch <;> simp [pick, h]

end Pick

/-- **One pass makes the choice** among the segments whose outlets are entered, the one
that is held being the first of them. -/
theorem seek_eq_pick (index : SegmentIndex) (branch : Int) (held : Option (Segment × Nat))
    (pending : List (Segment × Nat)) :
    seek index branch held pending =
      pick branch (held.toList ++ pending.filter fun a => index.contains a.1.outlet) := by
  induction pending generalizing held with
  | nil =>
    cases held with
    | none => rfl
    | some first => exact pick_singleton.symm
  | cons a pending ih =>
    obtain ⟨t, i⟩ := a
    by_cases hentered : index.contains t.outlet = true
    · have hfilter : ((t, i) :: pending).filter (fun a => index.contains a.1.outlet) =
          (t, i) :: pending.filter fun a => index.contains a.1.outlet :=
        List.filter_cons_of_pos hentered
      rw [hfilter]
      rcases held with _ | ⟨first, j⟩
      · rw [seek, if_pos hentered]
        exact ih _
      · rw [seek, if_pos hentered]
        show _ = pick branch ((first, j) :: (t, i) :: _)
        -- The held one gives way only to one that continues the branch.
        by_cases ht : t.branch = branch
        · rw [if_pos ht]
          by_cases hfirst : first.branch = branch
          · rw [if_pos hfirst, pick_ambiguous hfirst ht]
          · rw [if_neg hfirst, pick_replace hfirst ht]
            exact ih _
        · rw [if_neg ht, pick_skip ht]
          exact ih _
    · have hfilter : ((t, i) :: pending).filter (fun a => index.contains a.1.outlet) =
          pending.filter fun a => index.contains a.1.outlet :=
        List.filter_cons_of_neg hentered
      rw [hfilter]
      rcases held with _ | ⟨first, j⟩
      · rw [seek, if_neg hentered]
        exact ih none
      · rw [seek, if_neg hentered]
        exact ih (some (first, j))

/-- **The pass comes to the choice** if the placed segments are the ones that are
entered. -/
theorem seek_eq_choose {placed pending : List Segment} (branch : Int) :
    seek (.ofNumbers (placed.map Segment.number)) branch none pending.zipIdx =
      choose placed branch pending := by
  have hentered : ∀ t : Segment, (SegmentIndex.ofNumbers (placed.map Segment.number)).contains
      t.outlet = placed.any fun p => p.number == t.outlet := by
    intro t
    rw [Bool.eq_iff_iff, SegmentIndex.contains_ofNumbers, any_number_eq_iff]
    rfl
  rw [seek_eq_pick, choose_eq_pick, ready]
  simp only [hentered]
  rfl

/-- How an arrangement has ended. -/
def Arrangement.verdict (a : Arrangement) : Except SegmentError Unit :=
  match a.fault with
  | some e => .error e
  | none => .ok ()

/-- The chosen segment changes places with the first pending one and is entered behind the
placed ones. -/
theorem place_append {s : SegmentSet} {placed pending rest : List Segment} {t : Segment} {i : Nat}
    (hsegs : s.segments = placed ++ pending)
    (hindex : s.index = .ofNumbers (placed.map Segment.number))
    (ht : pending[i]? = some t) (htaken : takeOut i pending = some (t, rest)) :
    s.place placed.length (placed.length + i) =
      { s with
        segments := placed ++ t :: rest
        index := .ofNumbers ((placed ++ [t]).map Segment.number) } := by
  have hchosen : s.segments[placed.length + i]? = some t := by
    rw [hsegs, List.getElem?_append_right (Nat.le_add_right _ _), Nat.add_sub_cancel_left, ht]
  have hswap : swapItems placed.length (placed.length + i) s.segments = placed ++ t :: rest := by
    rw [hsegs, ← swapItems_zero htaken]
    exact swapItems_append placed pending 0 i
  have henter : s.index.insert t.number placed.length =
      .ofNumbers ((placed ++ [t]).map Segment.number) := by
    rw [List.map_append, List.map_singleton, SegmentIndex.ofNumbers_concat, List.length_map, hindex]
  rw [place, hchosen]
  simp only [hswap, henter]

/-- Work on a set that ends as an arrangement does and leaves its segments in that order;
if it is not given up, all of them are entered. -/
def ArrangedBy (s : SegmentSet) (a : Arrangement) (done : Worked SegmentSet Unit) : Prop :=
  ∃ index, done = ⟨.ofExcept a.verdict, { s with segments := a.segments, index }⟩ ∧
    (a.fault = none → index = .ofNumbers (a.segments.map Segment.number))

/-- **The loop in place arrives where the arrangement does.** -/
theorem arrangedBy_placeAfter {count i : Nat} {placed pending : List Segment} {last : Segment}
    {s : SegmentSet} (hlast : placed[i]? = some last) (hlength : placed.length = i + 1)
    (hsegs : s.segments = placed ++ pending)
    (hindex : s.index = .ofNumbers (placed.map Segment.number)) (hcount : pending.length = count) :
    ArrangedBy s (arrangeFrom s.well count placed last.branch pending) (placeAfter count i s) := by
  induction count generalizing i placed pending last s with
  | zero =>
    obtain rfl := List.eq_nil_of_length_eq_zero hcount
    refine ⟨s.index, ?_, fun _ => ?_⟩
    · rw [arrangeFrom, Arrangement.segments, ← hsegs]
      rfl
    · rw [hindex, arrangeFrom, Arrangement.segments, List.append_nil]
  | succ count ih =>
    have hprevious : s.segments[i]? = some last := by
      rw [hsegs, List.getElem?_append_left (by omega), hlast]
    have hpending : s.segments.drop (i + 1) = pending := by
      rw [hsegs, ← hlength, List.drop_left]
    rw [placeAfter, Work.look_bind, arrangeFrom]
    -- The map holds just the placed numbers, so it answers as the placed segments do.
    simp only [hprevious, hpending, hindex, seek_eq_choose]
    cases hchoice : choose placed last.branch pending with
    | ambiguous first second =>
      refine ⟨s.index, ?_, fun h => by cases h⟩
      rw [Arrangement.segments, ← hsegs]
      rfl
    | stuck =>
      refine ⟨s.index, ?_, fun h => by cases h⟩
      rw [Arrangement.segments, ← hsegs]
      rfl
    | next position =>
      obtain ⟨t, ht, -⟩ := exists_of_choose_next hchoice
      obtain ⟨rest, htaken⟩ := exists_takeOut ht
      have hplace := place_append hsegs hindex ht htaken
      rw [hlength] at hplace
      have hrest : rest.length = count := by
        have hperm := (perm_of_takeOut htaken).length_eq
        rw [hcount, List.length_cons] at hperm
        omega
      simp only [htaken, Work.change_bind, hplace]
      refine ih ?_ ?_ ?_ rfl hrest
      · rw [← hlength, List.getElem?_concat_length]
      · rw [List.length_append, hlength, List.length_singleton]
      · rw [List.append_assoc, List.singleton_append]

variable {s : SegmentSet}

/-- **Ordering in place** ends as the arrangement of the set does and leaves its segments in
that order, with all positions entered. -/
theorem orderInPlace_eq (hs : s.Indexed) :
    orderInPlace s = ⟨.ofExcept s.arrange.verdict, s.rearranged⟩ := by
  cases htop : s.index.get? topNumber with
  | none =>
    have harrange : s.arrange = ⟨[], s.segments, some (.unknownSegment s.well topNumber)⟩ := by
      rw [arrange, htop]
      rfl
    rw [orderInPlace, Work.onFailure, Work.look_bind, rearranged, harrange]
    simp only [htop]
    rfl
  | some i =>
    obtain ⟨t, ht, -⟩ := hs.exists_getElem? htop
    obtain ⟨rest, htaken⟩ := exists_takeOut ht
    have harrange : s.arrange = arrangeFrom s.well rest.length [t] t.branch rest := by
      rw [arrange, htop, Option.bind_some, htaken]
    have hsize : s.size - 1 = rest.length := by
      rw [size, (perm_of_takeOut htaken).length_eq]
      rfl
    have hplace : ({ s with index := {} } : SegmentSet).place 0 i =
        { s with segments := t :: rest, index := .ofNumbers [t.number] } := by
      have hempty : ({ s with index := {} } : SegmentSet).segments = [] ++ s.segments := rfl
      have h := place_append hempty rfl ht htaken
      rwa [List.length_nil, Nat.zero_add] at h
    have harranged : ArrangedBy { s with segments := t :: rest, index := .ofNumbers [t.number] }
        (arrangeFrom s.well rest.length [t] t.branch rest)
        (placeAfter rest.length 0
          { s with segments := t :: rest, index := .ofNumbers [t.number] }) :=
      arrangedBy_placeAfter rfl rfl rfl rfl rfl
    obtain ⟨index, hdone, hentered⟩ := harranged
    rw [orderInPlace, Work.onFailure, Work.look_bind, rearranged, harrange]
    simp only [htop, Work.change_bind, hplace, hsize]
    rw [hdone]
    generalize arrangeFrom s.well rest.length [t] t.branch rest = a at hentered
    cases hfault : a.fault with
    | some e =>
      rw [Arrangement.verdict, hfault]
      rfl
    | none =>
      rw [Arrangement.verdict, hfault, hentered hfault]
      rfl

end SegmentSet
end MultiSegmentWell
