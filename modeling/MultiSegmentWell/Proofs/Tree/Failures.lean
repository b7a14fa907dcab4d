/-
# What failing operations leave

SPEC_FULL.md, 4.6: the set is untouched on error.

All operations but ordering read first, or work aside, and change the set when nothing
can fail any more (`keepsOnFailure_performInPlace`), so a failure leaves the set as it was.
Ordering leaves the same segments in the order that it had come to, each entered where it
stands (`Reordered`). Either way it is the set after the operation (`left_performInPlace`).
-/

import MultiSegmentWell.Proofs.Tree.InPlace
import MultiSegmentWell.Proofs.Tree.Positions

namespace MultiSegmentWell

/-- Scaling a device in place computes the factor before it changes anything. -/
theorem Icd.keepsOnFailure_rescale (outletLength connectionLength : Float) :
    (Icd.rescale outletLength connectionLength).KeepsOnFailure :=
  Work.ReadsOnly.look.bind_keepsOnFailure fun _ =>
    (Work.ReadsOnly.attempt _).bind_keepsOnFailure fun _ => (Work.Succeeds.change _).keepsOnFailure

namespace SegmentSet

open Work

variable {s : SegmentSet}

/-- Adding segments never fails. -/
theorem succeeds_addEach (segments : List Segment) : (addEach segments).Succeeds :=
  fun s => ⟨(), by rw [addEach_eq]; rfl⟩

/-- Scaling devices only reads the set. -/
theorem readsOnly_rescaleEach (connections : List Connection) (devices : List (Int × Device)) :
    (rescaleEach connections devices).ReadsOnly := fun s => by
  rw [rescaleEach_eq]
  rfl

/-- Attaching devices that fails keeps the set. -/
theorem keepsOnFailure_attachDevicesInPlace (devices : List (Int × Device)) :
    (attachDevicesInPlace devices).KeepsOnFailure :=
  ReadsOnly.look.bind_keepsOnFailure fun _ =>
    (ReadsOnly.attempt _).bind_keepsOnFailure fun _ =>
      (ReadsOnly.attempt _).bind_keepsOnFailure fun segments =>
        (succeeds_addEach segments).keepsOnFailure

/-- Every operation but ordering reads first and changes the set when nothing can fail any
more. -/
theorem keepsOnFailure_performInPlace {op : Operation} (hop : op ≠ .order) :
    (performInPlace op).KeepsOnFailure := by
  cases op with
  | add segments => exact (succeeds_addEach segments).keepsOnFailure
  | load d options =>
    refine ReadsOnly.look.bind_keepsOnFailure fun s => ?_
    split
    · exact (ReadsOnly.attempt _).keepsOnFailure
    · exact (ReadsOnly.aside _ _).bind_keepsOnFailure fun _ => (Succeeds.change _).keepsOnFailure
  | process mode topDepth topLength options =>
    exact ReadsOnly.look.bind_keepsOnFailure fun s =>
      (ReadsOnly.aside _ _).bind_keepsOnFailure fun _ => (Succeeds.change _).keepsOnFailure
  | order => exact absurd rfl hop
  | attachDevices devices => exact keepsOnFailure_attachDevicesInPlace devices
  | attachScaledDevices devices connections =>
    exact ReadsOnly.look.bind_keepsOnFailure fun s =>
      (ReadsOnly.attempt _).bind_keepsOnFailure fun _ =>
        (readsOnly_rescaleEach connections devices).bind_keepsOnFailure
          keepsOnFailure_attachDevicesInPlace
  | assignPerfLengths connections => exact (Succeeds.change _).keepsOnFailure

/-- Only ordering may leave anything else than the set as it was. -/
theorem afterFailure_of_ne_order {op : Operation} (hop : op ≠ .order) : s.afterFailure op = s := by
  cases op with
  | order => exact absurd rfl hop
  | _ => rfl

/-- **What an operation in place leaves** is the set after the operation. -/
theorem left_performInPlace (hs : s.Indexed) (op : Operation) :
    (performInPlace op s).left = s.after op := by
  obtain ⟨r, hr, hafter⟩ | ⟨⟨e, he⟩, hafter⟩ := s.after_cases op
  · rw [hafter]
    rw [← result_performInPlace hs] at hr
    obtain ⟨_, -, hleft⟩ := map_eq_ok.1 hr
    exact hleft
  · rw [hafter]
    by_cases hop : op = .order
    · rw [hop, performInPlace, orderInPlace_eq hs]
      rfl
    · rw [afterFailure_of_ne_order hop]
      exact keepsOnFailure_performInPlace hop s e (outcome_performInPlace hs he)

/-- A set holds the same segments as another one in another order, and each is entered
where it stands. -/
structure Reordered (s r : SegmentSet) : Prop where
  perm : r.segments.Perm s.segments
  indexed : r.Indexed
  entries : r.index.entries = r.numbers.zipIdx
  /-- Nothing but the order of the segments and their positions is different. -/
  other : r = { s with segments := r.segments, index := r.index }

/-- An ordering that fails leaves the same segments, entered where they stand. -/
theorem Indexed.reordered (hs : s.Indexed) : Reordered s s.rearranged where
  perm := hs.perm_rearranged
  indexed := hs.rearranged
  entries := SegmentIndex.entries_ofNumbers hs.rearranged.nodup
  other := rfl

/-- **Failures leave sets and devices intact.**  An operation that fails, fails in place as
well, and leaves the set after it. Unless it is an ordering, that is exactly the set as it
was. An ordering leaves the same segments in another order, entered where they stand, and
all else as it was. Scaling a device leaves the device as it was. -/
theorem intact_of_failure :
    (∀ (s : SegmentSet) (op : Operation) (e : SegmentError), Reachable s →
      (s.perform op).outcome = .error e →
        (performInPlace op s).outcome = .error e ∧ (performInPlace op s).left = s.after op ∧
          (op ≠ .order → (performInPlace op s).left = s) ∧
          (op = .order → Reordered s (performInPlace op s).left)) ∧
      ∀ (icd : Icd) (outletLength connectionLength : Float) (e : SegmentError),
        icd.scale outletLength connectionLength = .error e →
          (Icd.rescale outletLength connectionLength icd).outcome = .error e ∧
            (Icd.rescale outletLength connectionLength icd).left = icd := by
  refine ⟨fun s op e hs he => ?_, fun icd outletLength connectionLength e he => ?_⟩
  · have hfailed := outcome_performInPlace hs.indexed he
    refine ⟨hfailed, left_performInPlace hs.indexed op,
      fun hop => keepsOnFailure_performInPlace hop s e hfailed, ?_⟩
    rintro rfl
    rw [performInPlace, orderInPlace_eq hs.indexed]
    exact hs.indexed.reordered
  · have hfailed : (Icd.rescale outletLength connectionLength icd).outcome = .error e := by
      rw [← Worked.result_eq_error, Icd.result_rescale, he]
      rfl
    exact ⟨hfailed, Icd.keepsOnFailure_rescale _ _ icd e hfailed⟩

/-- Segments 3 and 4 flow into each other. -/
def tangled : SegmentSet :=
  ofSegments "W" .friction [.ofLink 4 3 3, .ofLink 3 2 4, .ofLink 2 1 1, .ofLink 1 1 0]

/-- Two devices, of which the second one has no known scaling method. -/
def unscalable : List (Int × Device) :=
  [(2, .spiralIcd { strength := 0.1, length := 12.0 }),
    (2, .spiralIcd { strength := 0.1, length := 12.0, method := 5 })]

/-- A device without a scaling method and segments that flow into each other: the set keeps its
segments, an ordering moves them, and the device keeps its data. -/
theorem intact_of_failure_tangled :
    (performInPlace (.attachScaledDevices unscalable []) tangled).outcome
        = .error (.invalidScaling 5 .unknownMethod) ∧
      (performInPlace (.attachScaledDevices unscalable []) tangled).left = tangled ∧
      (performInPlace .order tangled).outcome = .error (.unresolvableTopology "W" [3, 4]) ∧
      (performInPlace .order tangled).left.numbers = [1, 2, 3, 4] ∧
      Reordered tangled (performInPlace .order tangled).left ∧
      (Icd.rescale 10.0 0.0 { strength := 0.1, length := 12.0, method := 2 }).left
        = { strength := 0.1, length := 12.0, method := 2 } := by
  have hreach : Reachable tangled := reachable_ofSegments "W" .friction _
  obtain ⟨hscaling, -, hkept, -⟩ := intact_of_failure.1 tangled (.attachScaledDevices unscalable [])
    (.invalidScaling 5 .unknownMethod) hreach (by decide +kernel)
  obtain ⟨hordering, -, -, hreordered⟩ := intact_of_failure.1 tangled .order
    (.unresolvableTopology "W" [3, 4]) hreach (by decide +kernel)
  obtain ⟨-, hdevice⟩ := intact_of_failure.2 { strength := 0.1, length := 12.0, method := 2 }
    10.0 0.0 (.invalidScaling 2 .zeroConnectionLength) (by decide +kernel)
  exact ⟨hscaling, hkept nofun, hordering, by decide +kernel, hreordered rfl, hdevice⟩

end SegmentSet
end MultiSegmentWell
