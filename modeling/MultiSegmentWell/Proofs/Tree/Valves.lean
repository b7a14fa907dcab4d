/-
# Attached valves are complete

SPEC_FULL.md, 4.1: `update_valve`.

Attaching a valve fills in what it does not give. The pipe of the segment is settled first,
from the data of the valve and, where there is none, from the old pipe; the valve is then
completed for the pipe that results. So both sides agree on the pipe (`Valve.CompleteFor`),
and the valve keeps everything it gave (`Valve.Extends`).

A valve that is complete for the pipe of its segment leaves nothing to fill in: attaching it
once more changes nothing, whatever length the segment has by then
(`Segment.attachValve_of_completeFor`).

What is filled in is known only if it is known of the segment (`Valve.KnownBy`).
-/

import MultiSegmentWell.Segment

namespace MultiSegmentWell

namespace Valve

/-- A valve with nothing left to fill in, whose pipe data are those of a pipe. -/
structure CompleteFor (v : Valve) (pipe : Pipe) : Prop where
  additionalLength : v.additionalLength.isSome = true
  maxCrossArea : v.maxCrossArea.isSome = true
  pipeDiameter : v.pipeDiameter = some pipe.diameter
  pipeRoughness : v.pipeRoughness = some pipe.roughness
  pipeCrossArea : v.pipeCrossArea = some pipe.area

/-- A valve that has everything another one gives. -/
structure Extends (w v : Valve) : Prop where
  flowCoefficient : w.flowCoefficient = v.flowCoefficient
  crossArea : w.crossArea = v.crossArea
  status : w.status = v.status
  maxCrossArea : ∀ a, v.maxCrossArea = some a → w.maxCrossArea = some a
  additionalLength : ∀ l, v.additionalLength = some l → w.additionalLength = some l
  pipeDiameter : ∀ d, v.pipeDiameter = some d → w.pipeDiameter = some d
  pipeRoughness : ∀ r, v.pipeRoughness = some r → w.pipeRoughness = some r
  pipeCrossArea : ∀ a, v.pipeCrossArea = some a → w.pipeCrossArea = some a

/-- A valve whose data are known where they are given. -/
structure GivesKnown (v : Valve) : Prop where
  maxCrossArea : ∀ a ∈ v.maxCrossArea, Quantity.isKnown a = true
  additionalLength : ∀ l ∈ v.additionalLength, Quantity.isKnown l = true
  pipeDiameter : ∀ d ∈ v.pipeDiameter, Quantity.isKnown d = true
  pipeRoughness : ∀ r ∈ v.pipeRoughness, Quantity.isKnown r = true
  pipeCrossArea : ∀ a ∈ v.pipeCrossArea, Quantity.isKnown a = true

/-- Which data of a valve are there and known: those that were given, and those that are known of
its segment. -/
structure KnownBy (w given : Valve) (length : Float) (pipe : Pipe) : Prop where
  additionalLength : w.additionalLength.any Quantity.isKnown = true ↔
    given.additionalLength.isSome = true ∨ Quantity.isKnown length = true
  pipeDiameter : w.pipeDiameter.any Quantity.isKnown = true ↔
    given.pipeDiameter.isSome = true ∨ Quantity.isKnown pipe.diameter = true
  pipeRoughness : w.pipeRoughness.any Quantity.isKnown = true ↔
    given.pipeRoughness.isSome = true ∨ Quantity.isKnown pipe.roughness = true
  pipeCrossArea : w.pipeCrossArea.any Quantity.isKnown = true ↔
    given.pipeCrossArea.isSome = true ∨ Quantity.isKnown pipe.area = true
  /-- The area of the pipe stands in for the greatest one. -/
  maxCrossArea : w.maxCrossArea.any Quantity.isKnown = true ↔ given.maxCrossArea.isSome = true ∨
    given.pipeCrossArea.isSome = true ∨ Quantity.isKnown pipe.area = true

end Valve

namespace Segment

variable {s : Segment} {v : Valve} {pipe : Pipe}

/-- A default that is filled in twice is filled in. -/
theorem getD_getD (o : Option Float) (d : Float) : o.getD (o.getD d) = o.getD d := by
  cases o <;> rfl

/-- A valve is completed for the pipe that it leaves to the segment. -/
theorem completeFor_completeValve (s : Segment) (v : Valve) (length : Float) :
    (completeValve v length (s.valvePipe v)).CompleteFor (s.valvePipe v) where
  additionalLength := rfl
  maxCrossArea := rfl
  pipeDiameter := congrArg some (getD_getD v.pipeDiameter s.pipe.diameter)
  pipeRoughness := congrArg some (getD_getD v.pipeRoughness s.pipe.roughness)
  pipeCrossArea := congrArg some (getD_getD v.pipeCrossArea s.pipe.area)

/-- Completing a valve keeps everything that it gave. -/
theorem extends_completeValve (v : Valve) (length : Float) (pipe : Pipe) :
    (completeValve v length pipe).Extends v where
  flowCoefficient := rfl
  crossArea := rfl
  status := rfl
  maxCrossArea a h := by simp [completeValve, h]
  additionalLength l h := by simp [completeValve, h]
  pipeDiameter d h := by simp [completeValve, h]
  pipeRoughness r h := by simp [completeValve, h]
  pipeCrossArea a h := by simp [completeValve, h]

/-- A complete valve stays as it is. -/
theorem completeValve_of_completeFor (hv : v.CompleteFor pipe) (length : Float) :
    completeValve v length pipe = v := by
  obtain ⟨flowCoefficient, crossArea, maxCrossArea, additionalLength, _, _, _, status⟩ := v
  obtain ⟨hlength, hmax, hdiameter, hroughness, harea⟩ := hv
  obtain ⟨l, rfl⟩ := Option.isSome_iff_exists.1 hlength
  obtain ⟨m, rfl⟩ := Option.isSome_iff_exists.1 hmax
  cases hdiameter
  cases hroughness
  cases harea
  rfl

/-- It leaves the pipe to the segment that the segment has already. -/
theorem valvePipe_of_completeFor (hv : v.CompleteFor s.pipe) : s.valvePipe v = s.pipe := by
  rw [valvePipe, hv.pipeDiameter, hv.pipeRoughness, hv.pipeCrossArea]
  rfl

/-- **A valve that is complete for the pipe of its segment is not changed by attaching it once
more**, and neither is the segment. -/
theorem attachValve_of_completeFor (hdevice : s.device = .valve v) (hv : v.CompleteFor s.pipe)
    (length : Float) : s.attachValve v length = s := by
  rw [attachValve, valvePipe_of_completeFor hv, completeValve_of_completeFor hv, ← hdevice]

/-- **Attaching a valve completes both sides.** The stored valve lacks nothing, agrees with the
new pipe of the segment and has what it gave; length and greatest area come from the segment
where it did not give them. The segment changes in its pipe and device only, and attaching the
stored valve again changes nothing. -/
theorem attachValve_completes (s : Segment) (v : Valve) (length : Float) :
    ∃ w, (s.attachValve v length).device = .valve w ∧
      w.CompleteFor (s.attachValve v length).pipe ∧ w.Extends v ∧
      (v.additionalLength = none → w.additionalLength = some length) ∧
      (v.maxCrossArea = none → w.maxCrossArea = some (s.attachValve v length).pipe.area) ∧
      (s.attachValve v length).pipe = s.valvePipe v ∧
      { s.attachValve v length with pipe := s.pipe, device := s.device } = s ∧
      ∀ other, (s.attachValve v length).attachValve w other = s.attachValve v length := by
  have hcomplete := completeFor_completeValve s v length
  refine ⟨completeValve v length (s.valvePipe v), rfl, hcomplete,
    extends_completeValve v length (s.valvePipe v), ?_, ?_, rfl, rfl, ?_⟩
  · intro hlength
    simp [completeValve, hlength]
  · intro hmax
    simp [completeValve, hmax, attachValve]
  · exact attachValve_of_completeFor rfl hcomplete

/-- A default makes the difference only where nothing is given. -/
theorem isKnown_getD {o : Option Float} (h : ∀ x ∈ o, Quantity.isKnown x = true) (y : Float) :
    Quantity.isKnown (o.getD y) = true ↔ o.isSome = true ∨ Quantity.isKnown y = true := by
  cases o with
  | none => simp
  | some x => simp [h x rfl]

/-- **What is known of an attached valve** is what it gives and what is known of its segment. -/
theorem knownBy_completeValve (hv : v.GivesKnown) (s : Segment) (length : Float) :
    (completeValve v length (s.valvePipe v)).KnownBy v length s.pipe where
  additionalLength := by rw [completeValve, Option.any_some, isKnown_getD hv.additionalLength]
  pipeDiameter := by
    rw [completeValve, valvePipe, Option.any_some, getD_getD, isKnown_getD hv.pipeDiameter]
  pipeRoughness := by
    rw [completeValve, valvePipe, Option.any_some, getD_getD, isKnown_getD hv.pipeRoughness]
  pipeCrossArea := by
    rw [completeValve, valvePipe, Option.any_some, getD_getD, isKnown_getD hv.pipeCrossArea]
  maxCrossArea := by
    rw [completeValve, valvePipe, Option.any_some, isKnown_getD hv.maxCrossArea,
      isKnown_getD hv.pipeCrossArea]

end Segment
end MultiSegmentWell
