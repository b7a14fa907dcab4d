/-
# The resolved mark

SPEC_FULL.md, 3: immutable once resolved; 4.6: allocation on a resolved set.

Connections are refused on a set that is not marked resolved, and on no other
(`refused_iff`). The mark is set by a load or a processing that succeeds, and nothing
takes it away (`resolved_after`), so along a run it tells whether one of them ever
succeeded (`resolved_foldl_after`). What is added later leaves the mark alone: the set
then holds segments that no processing has seen, and connections are placed on them
all the same.
-/

import MultiSegmentWell.SegmentSet.Allocation
import MultiSegmentWell.Proofs.Tree.History

namespace MultiSegmentWell

/-- The operations that order, settle and check a tree. -/
def Operation.Resolves : Operation → Prop
  | .load _ _ | .process _ _ _ _ => True
  | .add _ | .order | .attachDevices _ | .attachScaledDevices _ _ | .assignPerfLengths _ => False

namespace SegmentSet

variable {s r : SegmentSet}

/-- Adding a segment leaves the mark alone. -/
@[simp] theorem add_resolved (s : SegmentSet) (a : Segment) : (s.add a).resolved = s.resolved := by
  unfold add; split <;> rfl

/-- Adding segments leaves the mark alone. -/
@[simp] theorem addAll_resolved (s : SegmentSet) (segments : List Segment) :
    (s.addAll segments).resolved = s.resolved := by
  induction segments generalizing s with
  | nil => rfl
  | cons a segments ih => exact (ih (s.add a)).trans (s.add_resolved a)

/-- Attaching devices leaves the mark alone. -/
theorem resolved_of_attachDevices {devices : List (Int × Device)}
    (h : s.attachDevices devices = .ok r) : r.resolved = s.resolved := by
  obtain ⟨-, segments, -, rfl⟩ := attachDevices_eq_ok.1 h
  exact addAll_resolved s segments

/-- Ordering leaves the mark alone. -/
theorem resolved_of_order (h : s.order = .ok r) : r.resolved = s.resolved := by
  rw [order] at h
  split at h
  · cases h
  · rw [← Except.ok.inj h]
    rfl

/-- Processing sets the mark. -/
theorem resolved_of_process {mode : GeometryMode} {topDepth topLength : Float} {options : Options}
    (h : (s.process mode topDepth topLength options).outcome = .ok r) : r.resolved = true := by
  obtain ⟨_, -, -, rfl⟩ := process_eq_ok.1 h
  rfl

/-- An operation that succeeds sets the mark if it resolves a tree, and keeps it as it
is otherwise. -/
theorem resolved_of_perform {op : Operation} (h : (s.perform op).outcome = .ok r) :
    r.resolved = true ↔ s.resolved = true ∨ op.Resolves := by
  cases op with
  | load d options =>
    obtain ⟨_, -, h⟩ := exists_process_of_load h
    exact iff_of_true (resolved_of_process h) (.inr trivial)
  | process mode topDepth topLength options =>
    exact iff_of_true (resolved_of_process h) (.inr trivial)
  | add segments =>
    obtain rfl := Except.ok.inj h
    rw [addAll_resolved]
    exact (or_iff_left id).symm
  | order =>
    rw [resolved_of_order h]
    exact (or_iff_left id).symm
  | attachDevices devices =>
    rw [resolved_of_attachDevices h]
    exact (or_iff_left id).symm
  | attachScaledDevices devices connections =>
    obtain ⟨-, scaled, -, h⟩ := attachScaledDevices_eq_ok.1 h
    rw [resolved_of_attachDevices h]
    exact (or_iff_left id).symm
  | assignPerfLengths connections =>
    obtain rfl := Except.ok.inj h
    exact (or_iff_left id).symm

/-- What a failing operation leaves has the mark it had before. -/
@[simp] theorem resolved_afterFailure (s : SegmentSet) (op : Operation) :
    (s.afterFailure op).resolved = s.resolved := by
  cases op <;> rfl

/-- **The mark after an operation.**  It is there if it was there before, or if the
operation resolves a tree and succeeds. -/
theorem resolved_after (s : SegmentSet) (op : Operation) :
    (s.after op).resolved = true ↔
      s.resolved = true ∨ op.Resolves ∧ ∃ r, (s.perform op).outcome = .ok r := by
  obtain ⟨r, hr, hafter⟩ | ⟨⟨e, he⟩, hafter⟩ := s.after_cases op
  · rw [hafter, resolved_of_perform hr]
    exact or_congr_right (and_iff_left ⟨r, hr⟩).symm
  · rw [hafter, resolved_afterFailure]
    refine (or_iff_left ?_).symm
    rintro ⟨-, r, hr⟩
    rw [he] at hr
    cases hr

/-- In a run of operations, one that resolves a tree succeeded. -/
def ResolvedDuring (s : SegmentSet) (ops : List Operation) : Prop :=
  ∃ before op later, ops = before ++ op :: later ∧ op.Resolves ∧
    ∃ r, ((before.foldl SegmentSet.after s).perform op).outcome = .ok r

/-- Nothing is resolved where nothing is done. -/
theorem not_resolvedDuring_nil (s : SegmentSet) : ¬ ResolvedDuring s [] := by
  rintro ⟨before, op, later, h, -⟩
  simp at h

/-- The success is the last operation's or an earlier one's. -/
theorem resolvedDuring_concat {ops : List Operation} {op : Operation} :
    ResolvedDuring s (ops ++ [op]) ↔
      ResolvedDuring s ops ∨
        op.Resolves ∧ ∃ r, ((ops.foldl SegmentSet.after s).perform op).outcome = .ok r := by
  constructor
  · rintro ⟨before, p, later, h, hp, hr⟩
    rcases List.eq_nil_or_concat later with rfl | ⟨later, q, rfl⟩
    · obtain ⟨rfl, hpq⟩ := List.append_inj' h rfl
      obtain rfl := (List.cons.inj hpq).1
      exact .inr ⟨hp, hr⟩
    · rw [List.concat_eq_append, ← List.cons_append, ← List.append_assoc] at h
      obtain ⟨rfl, -⟩ := List.append_inj' h rfl
      exact .inl ⟨before, p, later, rfl, hp, hr⟩
  · rintro (⟨before, p, later, rfl, hp, hr⟩ | ⟨hp, hr⟩)
    · exact ⟨before, p, later ++ [op], by rw [List.append_assoc, List.cons_append], hp, hr⟩
    · exact ⟨ops, op, [], rfl, hp, hr⟩

/-- **The mark after a run.**  It is there if it was there before, or if something
in the run resolved a tree, however long ago. -/
theorem resolved_foldl_after (s : SegmentSet) (ops : List Operation) :
    (ops.foldl SegmentSet.after s).resolved = true ↔ s.resolved = true ∨ ResolvedDuring s ops := by
  induction ops using List.reverseRecOn with
  | nil => exact (or_iff_left (not_resolvedDuring_nil s)).symm
  | append_singleton ops op ih =>
    rw [List.foldl_append, List.foldl_cons, List.foldl_nil, resolved_after, ih, or_assoc,
      resolvedDuring_concat]

/-- Placing connections and finding the depth of one are refused. -/
def RefusesConnections (s : SegmentSet) : Prop :=
  (∀ perforations, s.allocate perforations = .error (.notResolved s.well)) ∧
    ∀ number branch center, s.centerDepth number branch center = .error (.notResolved s.well)

/-- **Connections are refused exactly on sets that are not marked resolved.** -/
theorem refused_iff (s : SegmentSet) : RefusesConnections s ↔ s.resolved = false := by
  constructor
  · rintro ⟨hallocate, -⟩
    rw [← Bool.not_eq_true]
    intro hmark
    have hnone : s.allocate [] = .ok [] := by
      rw [allocate, requireResolved, if_pos hmark]
      rfl
    rw [hallocate []] at hnone
    cases hnone
  · intro hmark
    have hrefused : s.requireResolved = .error (.notResolved s.well) := by
      rw [requireResolved, hmark]
      rfl
    refine ⟨fun perforations => ?_, fun number branch center => ?_⟩
    · rw [allocate, hrefused]
      rfl
    · rw [centerDepth, hrefused]
      rfl

/-- **When connections are refused.**  After a run of operations on a set that starts
empty, placing connections and finding the depth of one are refused exactly if no
load and no processing in the run succeeded. Whether segments were added since then
makes no difference. -/
theorem refusesConnections_iff_not_resolvedDuring (well : String) (pressureDrop : PressureDrop)
    (flowModel : FlowModel) (ops : List Operation) :
    RefusesConnections (ops.foldl SegmentSet.after { well, pressureDrop, flowModel }) ↔
      ¬ ResolvedDuring { well, pressureDrop, flowModel } ops := by
  rw [refused_iff, ← Bool.not_eq_true, resolved_foldl_after]
  exact not_congr (or_iff_right Bool.false_ne_true)

/-- A well of three segments on one branch. -/
def plain : TreeDefinition where
  header := { well := "W", top := ⟨100.0, 1000.0, 0.0, 0.0⟩, volume := 1.0, mode := .incremental }
  records := [
    { first := 2, last := 3, branch := 1, join := 1, node := ⟨10.0, 5.0, 0.0, 0.0⟩,
      diameter := 0.2, roughness := 1.0e-4 }]

/-- A side branch that still holds the change from its outlet. -/
def sideBranch : Segment where
  number := 4
  branch := 2
  outlet := 3
  node := ⟨10.0, 5.0, 0.0, 0.0⟩
  pipe := Pipe.unknown
  volume := Quantity.unknown
  ready := false

/-- A load, and a segment added after it. -/
def lateAddition : List Operation := [.load plain {}, .add [sideBranch]]

/-- **A connection is placed on a segment that was added after the last load.**  The
change that the segment holds is taken for its length and depth, so the connection
comes out above the ground. -/
theorem allocate_of_added_segment :
    (({} : SegmentSet).perform (.load plain {})).outcome.isOk = true ∧
      (lateAddition.foldl SegmentSet.after {}).segments.getLast? = some sideBranch ∧
      (lateAddition.foldl SegmentSet.after {}).allocate [⟨2, 8.0, 10.0, none, none⟩]
        = .ok [⟨4, 8.0, 10.0, some (-4.136363636363637)⟩] ∧
      (lateAddition.foldl SegmentSet.after {}).centerDepth 4 2 9.0
        = .ok (some (-4.136363636363637)) := by
  decide +kernel

end SegmentSet
end MultiSegmentWell
