/-
# The result of work in place

Every operation in place comes to the same result, with the same findings, as the
operation on values (`result_performInPlace`). The parts of work come to their results one
after the other, so each result is read off the steps: records are expanded in turn,
passes over a copy are those of processing, and devices are scaled and attached as the
lookups say.
-/

import MultiSegmentWell.Proofs.Order.Swaps

namespace MultiSegmentWell

namespace Reported

variable {ε α β : Type}

/-- Outcomes without findings follow each other as outcomes do. -/
theorem bind_ofExcept (x : Except ε α) (f : α → Except ε β) :
    ((ofExcept x).bind fun a => ofExcept (f a)) = ofExcept (x >>= f) := by
  cases x <;> rfl

/-- A result with nothing done behind it is the result. -/
theorem bind_pure (r : Reported ε α) : r.bind pure = r := by
  obtain ⟨findings, outcome⟩ := r
  cases outcome with
  | error e => rfl
  | ok a => exact congrArg (Reported.mk · _) (List.append_nil findings)

end Reported

/-- Scaling a device in place comes to the scaled device. -/
theorem Icd.result_rescale (icd : Icd) (outletLength connectionLength : Float) :
    (Icd.rescale outletLength connectionLength icd).result =
      .ofExcept (icd.scale outletLength connectionLength) := by
  rw [rescale, Work.look_bind, Work.result_attempt_bind, scale]
  cases icd.factor outletLength connectionLength <;> rfl

namespace SegmentSet

open Work

variable {s : SegmentSet}

/-- Adding segments one by one adds them all. -/
theorem addEach_eq (segments : List Segment) (s : SegmentSet) :
    addEach segments s = ⟨pure (), s.addAll segments⟩ := by
  induction segments generalizing s with
  | nil => rfl
  | cons a segments ih =>
    rw [addEach, change_bind, ih]
    rfl

/-- What follows the adding of segments works on the set with all of them. -/
theorem addEach_bind {α : Type} (segments : List Segment) (next : Unit → Work SegmentSet α)
    (s : SegmentSet) : (addEach segments >>= next) s = next () (s.addAll segments) := by
  have hdone : (addEach segments s).outcome = .ok () := by rw [addEach_eq]; rfl
  rw [bind_of_ok hdone, addEach_eq]
  rfl

/-- Records that are expanded in place come to the expanded records. -/
theorem result_addRecordsEach (mode : GeometryMode) (records : List RangeRecord) (s : SegmentSet) :
    (addRecordsEach mode records s).result = s.addRecords mode records := by
  induction records generalizing s with
  | nil => rfl
  | cons record records ih =>
    rw [addRecordsEach, look_bind, result_report_bind]
    simp only [addEach_bind, ih]
    rfl

/-- Processing in place comes to the processed set. -/
theorem result_processInPlace (mode : GeometryMode) (topDepth topLength : Float)
    (options : Options) (s : SegmentSet) :
    (processInPlace mode topDepth topLength options s).result =
      s.process mode topDepth topLength options := by
  rw [processInPlace, look_bind, result_aside_bind]
  refine (Reported.bind_pure _).trans ?_
  simp only [result_bind, result_step, look_bind, result_report_bind, change_bind]
  rw [process, build]
  cases s.resolve mode topDepth topLength with
  | error e => rfl
  | ok resolved => cases resolved.linkInlets <;> rfl

/-- Loading in place comes to the loaded set. -/
theorem result_loadInPlace (d : TreeDefinition) (options : Options) (s : SegmentSet) :
    (loadInPlace d options s).result = s.load d options := by
  rw [loadInPlace, look_bind, load]
  split
  · rfl
  · rw [result_aside_bind, change_bind]
    -- Putting the loaded set in place adds nothing to the result.
    refine (Reported.bind_pure _).trans ?_
    rw [result_bind, result_addRecordsEach]
    simp only [result_bind, result_step, result_processInPlace]
    rfl

/-- Devices are attached in place to what they are attached to. -/
theorem result_attachDevicesInPlace (devices : List (Int × Device)) (s : SegmentSet) :
    (attachDevicesInPlace devices s).result = .ofExcept (s.attachDevices devices) := by
  rw [attachDevicesInPlace, look_bind, result_attempt_bind, attachDevices,
    ← Reported.bind_ofExcept]
  simp only [result_attempt_bind, addEach_eq, ← Reported.bind_ofExcept]
  rfl

/-- Scaling a device in place is scaling it. -/
theorem rescaleDevice_eq (connections : List Connection) (number : Int) (device : Device)
    (s : SegmentSet) :
    rescaleDevice connections number device s =
      attempt (s.scaledDevice connections number device) s := by
  unfold rescaleDevice scaledDevice
  cases device.icd? with
  | none => rfl
  | some icd =>
    show (look >>= _) s = _
    rw [look_bind]
    refine bind_eq_attempt rfl fun segment => bind_eq_attempt rfl fun length => ?_
    have hscale : aside icd (Icd.rescale length (Connection.perfLength connections number)) s =
        attempt (icd.scale length (Connection.perfLength connections number)) s := by
      rw [aside, Icd.result_rescale]
      rfl
    refine (bind_eq_attempt (f := fun r => .ok (device.withIcd r)) hscale fun _ => rfl).trans ?_
    cases icd.scale length (Connection.perfLength connections number) <;> rfl

/-- Scaling devices in place comes to the scaled devices and changes nothing. -/
theorem rescaleEach_eq (connections : List Connection) (devices : List (Int × Device))
    (s : SegmentSet) :
    rescaleEach connections devices s =
      attempt (devices.mapM fun (number, device) =>
        (s.scaledDevice connections number device).map fun d => (number, d)) s := by
  induction devices with
  | nil => rfl
  | cons a devices ih =>
    obtain ⟨number, device⟩ := a
    rw [rescaleEach, List.mapM_cons]
    refine (bind_eq_attempt (rescaleDevice_eq connections number device s) fun rescaled =>
      bind_eq_attempt (f := fun others => .ok ((number, rescaled) :: others)) ih
        fun _ => rfl).trans ?_
    dsimp only
    cases s.scaledDevice connections number device <;> rfl

/-- Scaling and attaching in place comes to the set with the scaled devices. -/
theorem result_attachScaledDevicesInPlace (devices : List (Int × Device))
    (connections : List Connection) (s : SegmentSet) :
    (attachScaledDevicesInPlace devices connections s).result =
      .ofExcept (s.attachScaledDevices devices connections) := by
  have hscale : ∀ next : List (Int × Device) → Work SegmentSet Unit,
      (rescaleEach connections devices >>= next) s = (attempt _ >>= next) s :=
    bind_eq_of_attempt (rescaleEach_eq connections devices s)
  rw [attachScaledDevicesInPlace, look_bind, result_attempt_bind, attachScaledDevices,
    ← Reported.bind_ofExcept]
  simp only [hscale, result_attempt_bind, result_attachDevicesInPlace, ← Reported.bind_ofExcept]

/-- **Ordering in place comes to the ordered set**, or to the same failure. -/
theorem result_orderInPlace (hs : s.Indexed) : (orderInPlace s).result = .ofExcept s.order := by
  rw [orderInPlace_eq hs, order, Arrangement.verdict]
  cases s.arrange.fault <;> rfl

/-- **An operation in place comes to the same** as the operation on values. -/
theorem result_performInPlace (hs : s.Indexed) (op : Operation) :
    (performInPlace op s).result = s.perform op := by
  cases op with
  | add segments =>
    rw [performInPlace, addEach_eq]
    rfl
  | load d options => exact result_loadInPlace d options s
  | process mode topDepth topLength options =>
    exact result_processInPlace mode topDepth topLength options s
  | order => exact result_orderInPlace hs
  | attachDevices devices => exact result_attachDevicesInPlace devices s
  | attachScaledDevices devices connections =>
    exact result_attachScaledDevicesInPlace devices connections s
  | assignPerfLengths connections => rfl

/-- An operation in place fails where the operation on values does, and in the same way. -/
theorem outcome_performInPlace (hs : s.Indexed) {op : Operation} {e : SegmentError}
    (h : (s.perform op).outcome = .error e) : (performInPlace op s).outcome = .error e := by
  rw [← result_performInPlace hs] at h
  exact Worked.result_eq_error.1 h

end SegmentSet
end MultiSegmentWell
