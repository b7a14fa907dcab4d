/-
# Ordering looks at links only

Which segment is placed next depends on numbers, branches and outlets. Segments that
are changed without a change to their links are therefore placed in the same order
(`arrangeFrom_map`), and the changed set is ordered to the changed ordered set, or given
up for the same reason (`order_recast`). The settings of the set play no part either.
-/

import MultiSegmentWell.Proofs.Order.Ordered

namespace MultiSegmentWell

/-- Taking an item out does not look at the items. -/
theorem takeOut_map {α β : Type} (f : α → β) (i : Nat) (xs : List α) :
    takeOut i (xs.map f) = (takeOut i xs).map fun p => (f p.1, p.2.map f) := by
  cases xs with
  | nil => rfl
  | cons x rest =>
    cases i with
    | zero => rfl
    | succ i =>
      simp only [takeOut, List.map_cons, List.getElem?_map, Option.map_map]
      refine Option.map_congr fun y _ => ?_
      simp only [Function.comp_apply, List.map_set]

namespace SegmentSet

/-- A choice with its segments changed. -/
def Choice.map (f : Segment → Segment) : Choice → Choice
  | .next position => .next position
  | .ambiguous first second => .ambiguous (f first) (f second)
  | .stuck => .stuck

/-- An arrangement with its segments changed. -/
def Arrangement.map (f : Segment → Segment) (a : Arrangement) : Arrangement :=
  ⟨a.placed.map f, a.pending.map f, a.fault⟩

/-- The set with its segments changed where they stand, under other settings. -/
def recast (f : Segment → Segment) (pressureDrop : PressureDrop) (flowModel : FlowModel)
    (s : SegmentSet) : SegmentSet :=
  { s with segments := s.segments.map f, pressureDrop, flowModel }

section KeepsLinks

variable {f : Segment → Segment} (hf : ∀ t, (f t).link = t.link)
include hf

/-- A change that keeps links keeps numbers. -/
theorem number_of_keepsLinks (t : Segment) : (f t).number = t.number :=
  congrArg Prod.fst (hf t)

/-- A change that keeps links keeps branches. -/
theorem branch_of_keepsLinks (t : Segment) : (f t).branch = t.branch :=
  congrArg (fun l => l.2.1) (hf t)

/-- A change that keeps links keeps outlets. -/
theorem outlet_of_keepsLinks (t : Segment) : (f t).outlet = t.outlet :=
  congrArg (fun l => l.2.2) (hf t)

/-- Changed segments have the links that they had. -/
theorem links_map (segments : List Segment) :
    (segments.map f).map Segment.link = segments.map Segment.link := by
  rw [List.map_map]
  exact List.map_congr_left fun t _ => hf t

/-- Changed segments have the numbers that they had. -/
theorem numbers_map (segments : List Segment) :
    (segments.map f).map Segment.number = segments.map Segment.number :=
  numbers_eq_of_links (links_map hf segments)

/-- The pending segments with a placed outlet are the same after a change. -/
theorem ready_map (placed pending : List Segment) :
    ready (placed.map f) (pending.map f) = (ready placed pending).map (Prod.map f id) := by
  unfold ready
  rw [List.zipIdx_map, List.filter_map]
  refine congrArg _ (List.filter_congr fun p _ => ?_)
  obtain ⟨t, i⟩ := p
  simp only [Function.comp_def, Prod.map_apply, List.any_map, number_of_keepsLinks hf,
    outlet_of_keepsLinks hf]

/-- The pending segments that continue a branch are the same after a change. -/
theorem continuing_map (placed : List Segment) (branch : Int) (pending : List Segment) :
    continuing (placed.map f) branch (pending.map f)
      = (continuing placed branch pending).map (Prod.map f id) := by
  unfold continuing
  rw [ready_map hf, List.filter_map]
  refine congrArg _ (List.filter_congr fun p _ => ?_)
  obtain ⟨t, i⟩ := p
  simp only [Function.comp_apply, Prod.map_apply, branch_of_keepsLinks hf]

/-- **The choice looks at links only.** -/
theorem choose_map (placed : List Segment) (branch : Int) (pending : List Segment) :
    choose (placed.map f) branch (pending.map f) = (choose placed branch pending).map f := by
  rw [choose_eq, choose_eq, continuing_map hf, ready_map hf]
  rcases continuing placed branch pending with _ | ⟨first, _ | ⟨second, _⟩⟩
  · rcases ready placed pending with _ | ⟨first, _⟩ <;> rfl
  · rfl
  · rfl

/-- **Placing segments looks at links only.** -/
theorem arrangeFrom_map (well : String) (count : Nat) (placed : List Segment) (branch : Int)
    (pending : List Segment) :
    arrangeFrom well count (placed.map f) branch (pending.map f)
      = (arrangeFrom well count placed branch pending).map f := by
  induction count generalizing placed branch pending with
  | zero => rfl
  | succ count ih =>
    rw [arrangeFrom, arrangeFrom, choose_map hf]
    cases choose placed branch pending with
    | ambiguous first second =>
      simp only [Choice.map, Arrangement.map, number_of_keepsLinks hf]
    | stuck =>
      simp only [Choice.map, Arrangement.map, numbers_map hf]
    | next position =>
      simp only [Choice.map, takeOut_map]
      cases takeOut position pending with
      | none => rfl
      | some taken =>
        obtain ⟨s, rest⟩ := taken
        have hplaced : placed.map f ++ [f s] = (placed ++ [s]).map f := by simp
        simp only [Option.map_some, hplaced, branch_of_keepsLinks hf]
        exact ih (placed ++ [s]) s.branch rest

variable (pressureDrop : PressureDrop) (flowModel : FlowModel) (s : SegmentSet)

/-- **Changed segments are arranged as the unchanged ones are.** -/
theorem arrange_recast : (s.recast f pressureDrop flowModel).arrange = s.arrange.map f := by
  unfold arrange recast
  cases s.index.get? topNumber with
  | none => rfl
  | some i =>
    simp only [Option.bind_some, takeOut_map]
    cases takeOut i s.segments with
    | none => rfl
    | some taken =>
      obtain ⟨top, pending⟩ := taken
      simp only [Option.map_some, List.length_map, branch_of_keepsLinks hf]
      exact arrangeFrom_map hf s.well pending.length [top] top.branch pending

/-- Entering positions anew looks at numbers only. -/
theorem withSegments_recast (segments : List Segment) :
    (s.recast f pressureDrop flowModel).withSegments (segments.map f)
      = (s.withSegments segments).recast f pressureDrop flowModel := by
  unfold withSegments recast
  rw [numbers_map hf]

/-- **Ordering looks at links only.** -/
theorem order_recast :
    (s.recast f pressureDrop flowModel).order
      = s.order.map (recast f pressureDrop flowModel) := by
  have harrange := arrange_recast hf pressureDrop flowModel s
  have hsegments : (s.recast f pressureDrop flowModel).arrange.segments
      = s.arrange.segments.map f := by
    rw [harrange]
    exact List.map_append.symm
  unfold order rearranged
  rw [hsegments, withSegments_recast hf, harrange]
  unfold Arrangement.map
  cases s.arrange.fault <;> rfl

/-- Changed segments can be ordered where the others can. -/
theorem exists_order_recast_iff :
    (∃ r, (s.recast f pressureDrop flowModel).order = .ok r) ↔ ∃ r, s.order = .ok r := by
  rw [order_recast hf]
  cases s.order with
  | ok r => exact iff_of_true ⟨_, rfl⟩ ⟨r, rfl⟩
  | error e => exact iff_of_false (by rintro ⟨_, ⟨⟩⟩) (by rintro ⟨_, ⟨⟩⟩)

/-- Changed segments are given up for the same reason as the others. -/
theorem order_recast_eq_error {e : SegmentError} (h : s.order = .error e) :
    (s.recast f pressureDrop flowModel).order = .error e := by
  rw [order_recast hf, h]
  rfl

end KeepsLinks

end SegmentSet
end MultiSegmentWell
