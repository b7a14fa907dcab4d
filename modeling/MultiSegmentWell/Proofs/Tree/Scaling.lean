/-
# Scaling before attaching

SPEC_FULL.md, 4.6: `update_devices_scaled`.

Scaled devices are attached in two steps. First the factor of every inflow control device is
computed from the set as it was, then the devices are attached with these factors. A factor
replaces another one and changes nothing that attaching asks for (`Scaled.exists_equipped_iff`),
so the second step accepts the scaled devices exactly if it accepts the devices as they were
given.

The first step needs the length of the outlet of the segment, whatever the method, and data
that the method can do with (`Icd.Scalable`, `Icd.exists_hasFactor_iff`).
-/

import MultiSegmentWell.Proofs.Number.Differences
import MultiSegmentWell.Proofs.Deck.BuildFaults
import MultiSegmentWell.Proofs.Tree.Attachment

namespace MultiSegmentWell

namespace Icd

variable {icd : Icd} {outletLength connectionLength f : Float}

/-- The scaling factor by each of the methods. -/
inductive HasFactor (icd : Icd) (outletLength connectionLength : Float) : Float → Prop where
  | joints (method : icd.method = -1) (length : icd.length > 0.0) :
    HasFactor icd outletLength connectionLength (icd.length / outletLength)
  | given (method : icd.method = -1) (length : icd.length < 0.0) :
    HasFactor icd outletLength connectionLength icd.length.abs
  | outlet (method : icd.method = 0) (length : ¬ icd.length ≤ 0.0) :
    HasFactor icd outletLength connectionLength (icd.length / outletLength)
  | absolute (method : icd.method = 1) :
    HasFactor icd outletLength connectionLength icd.length.abs
  | connections (method : icd.method = 2) (length : ¬ (connectionLength == 0.0) = true) :
    HasFactor icd outletLength connectionLength (icd.length / connectionLength)

/-- The method is one of the four, and what it divides or divides by is in order. -/
structure Scalable (icd : Icd) (connectionLength : Float) : Prop where
  method : icd.method = -1 ∨ icd.method = 0 ∨ icd.method = 1 ∨ icd.method = 2
  signed : icd.method = -1 → icd.length > 0.0 ∨ icd.length < 0.0
  positive : icd.method = 0 → ¬ icd.length ≤ 0.0
  connected : icd.method = 2 → ¬ (connectionLength == 0.0) = true

/-- **The factor is that of the method**, and there is none where the method has none. -/
theorem factor_eq_ok_iff : icd.factor outletLength connectionLength = .ok f ↔
    icd.HasFactor outletLength connectionLength f := by
  constructor
  · intro h
    unfold factor at h
    dsimp only at h
    split_ifs at h with h₁ hpos hneg h₂ hle h₃ h₄ hzero
    · exact Except.ok.inj h ▸ .joints h₁ hpos
    · exact Except.ok.inj h ▸ .given h₁ hneg
    · exact Except.ok.inj h ▸ .outlet h₂ hle
    · exact Except.ok.inj h ▸ .absolute h₃
    · exact Except.ok.inj h ▸ .connections h₄ hzero
  · intro h
    cases h with
    | joints hm hl => simp [factor, hm, hl]
    -- The test for a positive length comes first, and a negative one does not pass it.
    | given hm hl => simp [factor, hm, hl, Double.not_gt_of_lt hl]
    | outlet hm hl => simp [factor, hm, hl]
    | absolute hm => simp [factor, hm]
    | connections hm hl => simp [factor, hm, hl]

/-- **Which devices have a factor.** -/
theorem exists_hasFactor_iff :
    (∃ f, icd.HasFactor outletLength connectionLength f) ↔ icd.Scalable connectionLength := by
  constructor
  · rintro ⟨f, h⟩
    cases h with
    | joints hm hl | given hm hl | outlet hm hl | connections hm hl =>
      constructor <;> simp [hm, hl]
    | absolute hm => constructor <;> simp [hm]
  · rintro ⟨hm | hm | hm | hm, hsigned, hpositive, hconnected⟩
    · obtain hl | hl := hsigned hm
      · exact ⟨_, .joints hm hl⟩
      · exact ⟨_, .given hm hl⟩
    · exact ⟨_, .outlet hm (hpositive hm)⟩
    · exact ⟨_, .absolute hm⟩
    · exact ⟨_, .connections hm (hconnected hm)⟩

end Icd

namespace SegmentSet

variable {s r : SegmentSet} {connections : List Connection} {n : Int} {device device' : Device}
variable {devices scaled : List (Int × Device)}

/-- A device as it is attached to a segment after scaling. -/
inductive Scaled (s : SegmentSet) (connections : List Connection) (n : Int) (device : Device) :
    Device → Prop where
  | other (icd_eq : device.icd? = none) : Scaled s connections n device device
  | icd {icd : Icd} {t : Segment} {outletLength f : Float} (icd_eq : device.icd? = some icd)
    (stored : s.get? n = some t) (outlet : s.segmentLength t.outlet = .ok outletLength)
    (factor : icd.HasFactor outletLength (Connection.perfLength connections n) f) :
    Scaled s connections n device (device.withIcd { icd with scalingFactor := some f })

/-- What scaling needs of an inflow control device: its segment is stored, the outlet of that
has a length, and the method of the device can do with its data. -/
structure ScalableOn (s : SegmentSet) (connections : List Connection) (n : Int) (icd : Icd) :
    Prop where
  measured : ∃ t, s.get? n = some t ∧ ∃ outletLength, s.segmentLength t.outlet = .ok outletLength
  scalable : icd.Scalable (Connection.perfLength connections n)

/-- Scaling a device gives it the factor and nothing else. -/
theorem scaledDevice_eq_ok_iff :
    s.scaledDevice connections n device = .ok device' ↔ Scaled s connections n device device' := by
  constructor
  · intro h
    unfold scaledDevice at h
    split at h
    · rename_i hnone
      exact Except.ok.inj h ▸ .other hnone
    · rename_i icd hicd
      obtain ⟨t, ht, h⟩ := bind_eq_ok.1 h
      obtain ⟨outletLength, hl, h⟩ := bind_eq_ok.1 h
      obtain ⟨_, hscale, rfl⟩ := map_eq_ok.1 h
      obtain ⟨f, hf, rfl⟩ := map_eq_ok.1 hscale
      exact .icd hicd (get_eq_ok.1 ht) hl (Icd.factor_eq_ok_iff.1 hf)
  · intro h
    unfold scaledDevice
    cases h with
    | other hnone => rw [hnone]
    | @icd icd t outletLength f hicd ht hl hf =>
      rw [hicd]
      refine bind_eq_ok.2 ⟨t, get_eq_ok.2 ht, bind_eq_ok.2 ⟨outletLength, hl, ?_⟩⟩
      exact map_eq_ok.2 ⟨_, map_eq_ok.2 ⟨f, Icd.factor_eq_ok_iff.2 hf, rfl⟩, rfl⟩

/-- A device can be scaled if it is no inflow control device or its factor exists. -/
theorem exists_scaled_iff : (∃ device', Scaled s connections n device device') ↔
    ∀ icd, device.icd? = some icd → ScalableOn s connections n icd := by
  constructor
  · rintro ⟨_, h⟩ icd hicd
    cases h with
    | other hnone => rw [hnone] at hicd; cases hicd
    | icd hicd' ht hl hf =>
      obtain rfl := Option.some.inj (hicd'.symm.trans hicd)
      exact ⟨⟨_, ht, _, hl⟩, Icd.exists_hasFactor_iff.1 ⟨_, hf⟩⟩
  · intro h
    cases hicd : device.icd? with
    | none => exact ⟨_, .other hicd⟩
    | some icd =>
      obtain ⟨⟨t, ht, outletLength, hl⟩, hscalable⟩ := h icd hicd
      obtain ⟨f, hf⟩ := Icd.exists_hasFactor_iff.2 hscalable
      exact ⟨_, .icd hicd ht hl hf⟩

namespace Scaled

/-- Scaling keeps the kind of a device. -/
theorem kind_eq (h : Scaled s connections n device device') : device'.kind = device.kind :=
  scaledDevice_kind (scaledDevice_eq_ok_iff.2 h)

/-- Scaling does not change the length that attaching asks for. -/
theorem attachmentLength_eq (h : Scaled s connections n device device') :
    s.attachmentLength n device' = s.attachmentLength n device := by
  cases h with
  | other => rfl
  | icd => cases device <;> rfl

/-- **A factor makes no difference to whether a segment can be equipped.** -/
theorem exists_equipped_iff (h : Scaled s connections n device device') :
    (∃ t, s.equipped n device' = .ok t) ↔ ∃ t, s.equipped n device = .ok t := by
  simp only [equipped, bind_eq_ok, h.attachmentLength_eq, Except.ok.injEq]
  exact ⟨fun ⟨_, t, ht, l, hl, _⟩ => ⟨_, t, ht, l, hl, rfl⟩,
    fun ⟨_, t, ht, l, hl, _⟩ => ⟨_, t, ht, l, hl, rfl⟩⟩

end Scaled

/-- A scaled device for each device, on the same segment. -/
def AllScaled (s : SegmentSet) (connections : List Connection)
    (devices scaled : List (Int × Device)) : Prop :=
  List.Forall₂ (fun d d' => d'.1 = d.1 ∧ Scaled s connections d.1 d.2 d'.2) devices scaled

/-- Scaling several devices scales each of them. -/
theorem mapM_scaledDevice_eq_ok_iff :
    devices.mapM (fun d => (s.scaledDevice connections d.1 d.2).map (d.1, ·)) = .ok scaled ↔
      AllScaled s connections devices scaled := by
  have hone : ∀ d d' : Int × Device,
      (s.scaledDevice connections d.1 d.2).map (d.1, ·) = .ok d' ↔
        d'.1 = d.1 ∧ Scaled s connections d.1 d.2 d'.2 := by
    rintro d ⟨n, device'⟩
    simp only [map_eq_ok, scaledDevice_eq_ok_iff, Prod.mk.injEq]
    exact ⟨fun ⟨_, h, hn, hd⟩ => ⟨hn.symm, hd ▸ h⟩, fun ⟨hn, h⟩ => ⟨_, h, hn.symm, rfl⟩⟩
  simp only [mapM_eq_ok, hone, AllScaled]

/-- All devices can be scaled exactly if each inflow control device can be. -/
theorem exists_allScaled_iff : (∃ scaled, AllScaled s connections devices scaled) ↔
    ∀ d ∈ devices, ∀ icd, d.2.icd? = some icd → ScalableOn s connections d.1 icd := by
  constructor
  · rintro ⟨scaled, h⟩ d hd
    obtain ⟨d', -, -, hscaled⟩ := exists_of_forall₂ h hd
    exact exists_scaled_iff.1 ⟨_, hscaled⟩
  · intro h
    obtain ⟨scaled, hscaled⟩ : ∃ scaled, devices.mapM
        (fun d => (s.scaledDevice connections d.1 d.2).map (d.1, ·)) = .ok scaled := by
      refine exists_mapM_eq_ok fun d hd => ?_
      obtain ⟨device', hdevice⟩ := exists_scaled_iff.2 (h d hd)
      exact ⟨_, map_eq_ok.2 ⟨device', scaledDevice_eq_ok_iff.2 hdevice, rfl⟩⟩
    exact ⟨scaled, mapM_scaledDevice_eq_ok_iff.1 hscaled⟩

namespace AllScaled

/-- What can be said of each device alike can be said of each scaled one. -/
theorem forall_iff {p q : Int × Device → Prop} (h : AllScaled s connections devices scaled)
    (hone : ∀ d d' : Int × Device, d'.1 = d.1 → Scaled s connections d.1 d.2 d'.2 → (q d' ↔ p d)) :
    (∀ d' ∈ scaled, q d') ↔ ∀ d ∈ devices, p d := by
  induction h with
  | nil => simp
  | cons hd _ ih => rw [List.forall_mem_cons, List.forall_mem_cons, ih, hone _ _ hd.1 hd.2]

/-- Friction is asked for scaled devices as it is for the given ones. -/
theorem requireFriction_iff (h : AllScaled s connections devices scaled) :
    s.requireFriction scaled = .ok () ↔ s.requireFriction devices = .ok () := by
  rw [requireFriction_eq_ok, requireFriction_eq_ok]
  exact or_congr_right (h.forall_iff fun d d' _ hd => by rw [hd.kind_eq])

/-- **Scaled devices are accepted exactly if the devices as they were given are.** -/
theorem exists_attachDevices_iff (h : AllScaled s connections devices scaled) :
    (∃ r, s.attachDevices scaled = .ok r) ↔ ∃ r, s.attachDevices devices = .ok r := by
  rw [exists_attachDevices_iff_equipped, exists_attachDevices_iff_equipped, h.requireFriction_iff]
  exact and_congr_right fun _ => h.forall_iff fun d d' hn hd => by rw [hn, hd.exists_equipped_iff]

/-- The last scaled device for a number is the last device for it, scaled. -/
theorem rel_lastDevice? (h : AllScaled s connections devices scaled) (n : Int) :
    Option.Rel (Scaled s connections n) (lastDevice? devices n) (lastDevice? scaled n) := by
  induction h with
  | nil => exact .none
  | @cons d d' devices scaled hd _ ih =>
    rw [lastDevice?_cons, lastDevice?_cons, hd.1]
    -- The first device counts only if none of the others is for the number.
    revert ih
    generalize lastDevice? devices n = last, lastDevice? scaled n = last'
    rintro (⟨hlast⟩ | _)
    · exact .some hlast
    · by_cases hn : d.1 = n
      · rw [if_pos hn, if_pos hn]
        exact .some (hn ▸ hd.2)
      · rw [if_neg hn, if_neg hn]
        exact .none

end AllScaled

/-- Attaching scaled devices is attaching the devices with their factors. -/
theorem attachScaledDevices_eq_ok_iff : s.attachScaledDevices devices connections = .ok r ↔
    ∃ scaled, AllScaled s connections devices scaled ∧ s.attachDevices scaled = .ok r := by
  simp only [attachScaledDevices_eq_ok, mapM_scaledDevice_eq_ok_iff]
  constructor
  · exact fun ⟨_, h⟩ => h
  · rintro ⟨scaled, hscaled, h⟩
    exact ⟨hscaled.requireFriction_iff.1 (attachDevices_eq_ok.1 h).1, scaled, hscaled, h⟩

/-- Scaled devices can be attached exactly if the given ones can and each of them can be scaled. -/
theorem exists_attachScaledDevices_iff : (∃ r, s.attachScaledDevices devices connections = .ok r) ↔
    (∃ r, s.attachDevices devices = .ok r) ∧
      ∀ d ∈ devices, ∀ icd, d.2.icd? = some icd → ScalableOn s connections d.1 icd := by
  rw [← exists_allScaled_iff]
  constructor
  · rintro ⟨r, h⟩
    obtain ⟨scaled, hscaled, h⟩ := attachScaledDevices_eq_ok_iff.1 h
    exact ⟨hscaled.exists_attachDevices_iff.1 ⟨r, h⟩, scaled, hscaled⟩
  · rintro ⟨h, scaled, hscaled⟩
    obtain ⟨r, hr⟩ := hscaled.exists_attachDevices_iff.2 h
    exact ⟨r, attachScaledDevices_eq_ok_iff.2 ⟨scaled, hscaled, hr⟩⟩

/-- An inflow control device that has been scaled before. -/
def refitted : Icd :=
  { strength := 1.0e-5, length := 6.0, method := 2, scalingFactor := some 9.0 }

/-- Inflow control devices with three methods, two of them for segment 3. -/
def joints : List (Int × Device) :=
  [(3, .spiralIcd { strength := 1.0e-5, length := 12.0 }),
    (2, .autonomousIcd
      { icd := { strength := 1.0e-5, length := 5.0, method := 0 }, flowRateExponent := 0.5,
        viscosityExponent := 0.5 }),
    (3, .spiralIcd refitted)]

/-- Twenty-four metres of connections on segment 3. -/
def perforated : List Connection := [⟨3, 121.0, 145.0, none⟩]

end SegmentSet
end MultiSegmentWell
