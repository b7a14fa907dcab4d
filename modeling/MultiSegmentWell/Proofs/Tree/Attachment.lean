/-
# Attaching several devices

SPEC_FULL.md, 4.6: `update_devices`; 3: at most one device, attaching replaces.

Devices are attached to the segments as they were before the call, and the results are stored
one after the other. A stored number keeps its place, so what comes of it is a set in which
every segment carries the last of its devices, attached to what it was before
(`Indexed.attachDevices_eq_ok_iff`). What is needed for it (`Attachable`) can be told of the
set as it was as well.

A segment with a device differs from what it was in its pipe and its device alone, so the
lengths of all segments are as before. This is why devices for different segments can be
attached in any order, and one call at a time (`Indexed.foldlM_attachDevices_eq_ok_iff`): no call
changes what another one reads.
-/

import MultiSegmentWell.Proofs.Order.Verdict
import MultiSegmentWell.Proofs.Tree.History

namespace MultiSegmentWell

/-- A segment without its pipe and its device. -/
def Segment.bare (t : Segment) : Segment := { t with pipe := Pipe.unknown, device := .regular }

/-- A device leaves everything but pipe and device as it was. -/
@[simp] theorem Segment.attach_bare (t : Segment) (d : Device) (l : Float) :
    (t.attach d l).bare = t.bare := by
  cases d <;> rfl

/-- Without its device and its pipe a segment has the same layout. -/
theorem Segment.layout_bare (t : Segment) : t.bare.layout = t.layout := by
  simp only [Segment.layout, Segment.link, Segment.bare]

/-- A valve is completed from the pipe that it leaves, so what it gives is not looked up in the
segment. -/
theorem Segment.attachValve_eq (t : Segment) (v : Valve) (length : Float) :
    t.attachValve v length = { t with
      pipe := {
        diameter := v.pipeDiameter.getD t.pipe.diameter
        roughness := v.pipeRoughness.getD t.pipe.roughness
        area := v.pipeCrossArea.getD t.pipe.area }
      device := .valve { v with
        additionalLength := some (v.additionalLength.getD length)
        pipeDiameter := some (v.pipeDiameter.getD t.pipe.diameter)
        pipeRoughness := some (v.pipeRoughness.getD t.pipe.roughness)
        pipeCrossArea := some (v.pipeCrossArea.getD t.pipe.area)
        maxCrossArea := some (v.maxCrossArea.getD (v.pipeCrossArea.getD t.pipe.area)) } } := by
  have hkept : ∀ (given : Option Float) (x : Float), given.getD (given.getD x) = given.getD x := by
    intro given x
    cases given <;> rfl
  simp only [attachValve, completeValve, valvePipe, hkept]

/-- The last of several devices for a number. -/
def lastDevice? (devices : List (Int × Device)) (n : Int) : Option Device :=
  (devices.reverse.find? fun d => d.1 == n).map Prod.snd

section Devices

variable {devices devices' : List (Int × Device)} {d : Int × Device} {n : Int} {device : Device}

/-- The last device for a number is one of those given for it. -/
theorem mem_of_lastDevice? (h : lastDevice? devices n = some device) : (n, device) ∈ devices := by
  obtain ⟨d, hd, rfl⟩ := Option.map_eq_some_iff.1 h
  have hn : d.1 = n := by simpa using List.find?_some hd
  rw [← hn]
  exact List.mem_reverse.1 (List.mem_of_find?_eq_some hd)

/-- There is no last device exactly for the numbers that are given none. -/
theorem lastDevice?_eq_none_iff : lastDevice? devices n = none ↔ n ∉ devices.map Prod.fst := by
  simp only [lastDevice?, Option.map_eq_none_iff, List.find?_eq_none, List.mem_reverse,
    List.mem_map, beq_iff_eq]
  exact ⟨fun h ⟨d, hd, hn⟩ => h d hd hn, fun h d hd hn => h ⟨d, hd, hn⟩⟩

/-- Where no number is repeated, the last device for a number is the only one. -/
theorem lastDevice?_eq_some_iff (hnd : (devices.map Prod.fst).Nodup) :
    lastDevice? devices n = some device ↔ (n, device) ∈ devices := by
  refine ⟨mem_of_lastDevice?, fun hmem => ?_⟩
  cases hlast : lastDevice? devices n with
  | none => exact absurd (List.mem_map_of_mem hmem) (lastDevice?_eq_none_iff.1 hlast)
  | some other =>
    have hsame := List.inj_on_of_nodup_map hnd (mem_of_lastDevice? hlast) hmem rfl
    rw [(Prod.mk.inj hsame).2]

/-- Where no number is repeated, the last device for a number does not depend on the order. -/
theorem lastDevice?_of_perm (hnd : (devices.map Prod.fst).Nodup) (hperm : devices'.Perm devices)
    (n : Int) : lastDevice? devices' n = lastDevice? devices n := by
  have hnd' : (devices'.map Prod.fst).Nodup := (hperm.map Prod.fst).nodup_iff.2 hnd
  ext device
  rw [lastDevice?_eq_some_iff hnd, lastDevice?_eq_some_iff hnd', hperm.mem_iff]

/-- A device in front counts only if no later one is for the same number. -/
theorem lastDevice?_cons (d : Int × Device) (devices : List (Int × Device)) (n : Int) :
    lastDevice? (d :: devices) n
      = (lastDevice? devices n).or (if d.1 = n then some d.2 else none) := by
  rw [lastDevice?, List.reverse_cons, List.find?_append, lastDevice?]
  cases devices.reverse.find? fun d => d.1 == n with
  | some last => rfl
  | none => by_cases hn : d.1 = n <;> simp [hn]

end Devices

namespace SegmentSet

/-- The length of a segment, 0 where it has none. -/
def lengthOrZero (s : SegmentSet) (n : Int) : Float := (s.segmentLength n).toOption.getD 0.0

/-- A segment with the last of its devices attached, if there is one for it. -/
def withLastDevice (s : SegmentSet) (devices : List (Int × Device)) (t : Segment) : Segment :=
  match lastDevice? devices t.number with
  | some device => t.attach device (s.lengthOrZero t.number)
  | none => t

/-- The set in which every segment has the last of its devices attached. -/
def withLastDevices (s : SegmentSet) (devices : List (Int × Device)) : SegmentSet :=
  { s with segments := s.segments.map (s.withLastDevice devices) }

/-- What attaching devices needs. -/
structure Attachable (s : SegmentSet) (devices : List (Int × Device)) : Prop where
  friction : s.pressureDrop.includesFriction = true ∨ ∀ d ∈ devices, d.2 = .regular
  stored : ∀ d ∈ devices, d.1 ∈ s.numbers
  /-- The segment of a valve has a length. -/
  measured : ∀ d ∈ devices, ∀ valve, d.2 = .valve valve → ∃ length, s.segmentLength d.1 = .ok length

/-- What the device for a segment makes of it, if there is one. A valve replaces the pipe data
that it gives, and takes from the segment what it does not give. -/
inductive Fitted (s : SegmentSet) (t : Segment) : Option Device → Segment → Prop where
  | untouched : Fitted s t none t
  | plain {device : Device} (other : ∀ v, device ≠ .valve v) :
    Fitted s t (some device) { t with device }
  | valve {v : Valve} {length : Float} (measured : s.segmentLength t.number = .ok length) :
    Fitted s t (some (.valve v)) { t with
      pipe := {
        diameter := v.pipeDiameter.getD t.pipe.diameter
        roughness := v.pipeRoughness.getD t.pipe.roughness
        area := v.pipeCrossArea.getD t.pipe.area }
      device := .valve { v with
        additionalLength := some (v.additionalLength.getD length)
        pipeDiameter := some (v.pipeDiameter.getD t.pipe.diameter)
        pipeRoughness := some (v.pipeRoughness.getD t.pipe.roughness)
        pipeCrossArea := some (v.pipeCrossArea.getD t.pipe.area)
        maxCrossArea := some (v.maxCrossArea.getD (v.pipeCrossArea.getD t.pipe.area)) } }

variable {s r : SegmentSet} {devices devices' : List (Int × Device)}

/-- Where devices can be attached, the last one for a segment is fitted to it. -/
theorem Attachable.fitted (h : s.Attachable devices) (t : Segment) :
    Fitted s t (lastDevice? devices t.number) (s.withLastDevice devices t) := by
  unfold withLastDevice
  cases hlast : lastDevice? devices t.number with
  | none => exact .untouched
  | some device =>
    cases device with
    | valve v =>
      obtain ⟨length, hlength⟩ := h.measured _ (mem_of_lastDevice? hlast) v rfl
      have hvalue : s.lengthOrZero t.number = length := by
        rw [lengthOrZero, hlength]
        rfl
      show Fitted s t (some (.valve v)) (t.attachValve v (s.lengthOrZero t.number))
      rw [hvalue, Segment.attachValve_eq]
      exact .valve hlength
    | _ => exact .plain (by simp)

section Attaching

variable {n : Int} {device : Device}

/-- Only what is no device is of the regular kind. -/
theorem kind_eq_regular_iff : device.kind = .regular ↔ device = .regular := by
  cases device <;> simp [Device.kind]

/-- Only a valve needs a length. -/
theorem exists_attachmentLength_iff :
    (∃ l, s.attachmentLength n device = .ok l) ↔
      ∀ valve, device = .valve valve → ∃ length, s.segmentLength n = .ok length := by
  cases device with
  | valve valve => exact ⟨fun h _ _ => h, fun h => h valve rfl⟩
  | _ => exact ⟨fun _ _ hvalve => (nomatch hvalve), fun _ => ⟨0.0, rfl⟩⟩

/-- A valve is attached with the length of its segment; others do not look at one. -/
theorem attach_of_attachmentLength {l : Float} (h : s.attachmentLength n device = .ok l)
    (t : Segment) : t.attach device l = t.attach device (s.lengthOrZero n) := by
  cases device with
  | valve valve =>
    have hlength : s.segmentLength n = .ok l := h
    rw [lengthOrZero, hlength]
    rfl
  | _ => rfl

/-- A stored number can be equipped, with a valve only if its segment has a length. -/
theorem Indexed.equipped_eq_ok_iff (hs : s.Indexed) {u : Segment} :
    s.equipped n device = .ok u ↔
      (∀ valve, device = .valve valve → ∃ length, s.segmentLength n = .ok length) ∧
        ∃ t ∈ s.segments, t.number = n ∧ u = t.attach device (s.lengthOrZero n) := by
  rw [← exists_attachmentLength_iff]
  constructor
  · intro h
    obtain ⟨t, ht, h⟩ := bind_eq_ok.1 h
    obtain ⟨l, hl, h⟩ := bind_eq_ok.1 h
    obtain rfl := Except.ok.inj h
    obtain ⟨hmem, hn⟩ := hs.get?_eq_some_iff.1 (get_eq_ok.1 ht)
    exact ⟨⟨l, hl⟩, t, hmem, hn, attach_of_attachmentLength hl t⟩
  · rintro ⟨⟨l, hl⟩, t, ht, hn, rfl⟩
    refine bind_eq_ok.2 ⟨t, get_eq_ok.2 (hs.get?_eq_some_iff.2 ⟨ht, hn⟩), ?_⟩
    exact bind_eq_ok.2 ⟨l, hl, congrArg Except.ok (attach_of_attachmentLength hl t)⟩

/-- Devices can be attached exactly if the set has what that needs. -/
theorem Indexed.exists_attachDevices_iff (hs : s.Indexed) :
    (∃ r, s.attachDevices devices = .ok r) ↔ s.Attachable devices := by
  rw [exists_attachDevices_iff_equipped, requireFriction_eq_ok]
  simp only [kind_eq_regular_iff]
  constructor
  · rintro ⟨hfriction, hequipped⟩
    refine ⟨hfriction, fun d hd => ?_, fun d hd => ?_⟩
    · obtain ⟨u, hu⟩ := hequipped d hd
      obtain ⟨-, t, ht, hn, -⟩ := hs.equipped_eq_ok_iff.1 hu
      exact hn ▸ List.mem_map_of_mem ht
    · obtain ⟨u, hu⟩ := hequipped d hd
      exact (hs.equipped_eq_ok_iff.1 hu).1
  · rintro ⟨hfriction, hstored, hmeasured⟩
    refine ⟨hfriction, fun d hd => ?_⟩
    obtain ⟨t, ht, hn⟩ := List.mem_map.1 (hstored d hd)
    exact ⟨_, hs.equipped_eq_ok_iff.2 ⟨hmeasured d hd, t, ht, hn, rfl⟩⟩

end Attaching

section Storing

/-- A segment whose number is stored takes the place of the one with that number. -/
theorem Indexed.add_eq_map (hs : s.Indexed) {a : Segment} (ha : a.number ∈ s.numbers) :
    s.add a = { s with segments := s.segments.map fun t =>
      if t.number = a.number then a else t } := by
  obtain ⟨t, ht, hn⟩ := List.mem_map.1 ha
  obtain ⟨i, hi⟩ := List.getElem?_of_mem ht
  obtain ⟨hlt, hit⟩ := List.getElem?_eq_some_iff.1 hi
  rw [hs.add_eq_set hi hn]
  congr 1
  refine List.ext_getElem (by simp) fun j hj hj' => ?_
  rw [List.getElem_set, List.getElem_map]
  by_cases hij : i = j
  · subst hij
    rw [if_pos rfl, hit, if_pos hn]
  · rw [if_neg hij, if_neg]
    intro hsame
    have hjlt : j < s.segments.length := by simpa using hj
    have hequal : s.segments[j] = s.segments[i] :=
      List.inj_on_of_nodup_map hs.nodup (List.getElem_mem hjlt) (List.getElem_mem hlt)
        (by rw [hsame, hit, hn])
    exact hij ((List.Nodup.getElem_inj_iff hs.segments_nodup).1 hequal).symm

/-- Of several segments with one stored number the last takes its place. -/
theorem Indexed.addAll_eq_map (hs : s.Indexed) {added : List Segment}
    (h : ∀ a ∈ added, a.number ∈ s.numbers) :
    s.addAll added = { s with segments := s.segments.map fun t =>
      (added.reverse.find? fun a => a.number == t.number).getD t } := by
  induction added generalizing s with
  | nil =>
    show s = { s with segments := s.segments.map fun t => t }
    rw [List.map_id']
  | cons a added ih =>
    obtain ⟨ha, hadded⟩ := List.forall_mem_cons.1 h
    have hnumbers := hs.numbers_add ha
    show (s.add a).addAll added = _
    rw [ih (hs.add a) (by rwa [hnumbers]), hs.add_eq_map ha]
    simp only [List.map_map]
    congr 1
    refine List.map_congr_left fun t _ => ?_
    rw [Function.comp_apply, List.reverse_cons, List.find?_append]
    split_ifs with hn
    · rw [hn]
      cases added.reverse.find? fun b => b.number == a.number <;> simp
    · cases added.reverse.find? fun b => b.number == t.number <;> simp [Ne.symm hn]

/-- What is found under the number of a segment among equipped ones is the segment with its
device attached. -/
theorem find?_of_forall₂_equipped (hs : s.Indexed) {added : List Segment}
    (h : List.Forall₂ (fun d u => s.equipped d.1 d.2 = .ok u) devices added) {t : Segment}
    (ht : t ∈ s.segments) :
    (added.find? fun a => a.number == t.number)
      = (devices.find? fun d => d.1 == t.number).map fun d =>
          t.attach d.2 (s.lengthOrZero t.number) := by
  induction h with
  | nil => rfl
  | @cons d u devices added hu _ ih =>
    obtain ⟨-, v, hv, hvn, rfl⟩ := hs.equipped_eq_ok_iff.1 hu
    rw [List.find?_cons, List.find?_cons, Segment.attach_number, hvn]
    by_cases hn : d.1 = t.number
    · have hsame : v = t := List.inj_on_of_nodup_map hs.nodup hv ht (hvn.trans hn)
      simp [hn, hsame]
    · have hother : (d.1 == t.number) = false := beq_false_of_ne hn
      rw [hother]
      exact ih

/-- **What attaching devices gives:** the set in which every segment has the last of its
devices attached. -/
theorem Indexed.attachDevices_eq_ok_iff (hs : s.Indexed) :
    s.attachDevices devices = .ok r ↔ s.Attachable devices ∧ r = s.withLastDevices devices := by
  have hresult : ∀ q, s.attachDevices devices = .ok q → q = s.withLastDevices devices := by
    intro q h
    obtain ⟨-, added, hall, rfl⟩ := attachDevices_eq_ok.1 h
    have hstored : ∀ a ∈ added, a.number ∈ s.numbers := by
      intro a ha
      obtain ⟨d, -, hd⟩ := exists_of_forall₂ hall.flip ha
      obtain ⟨-, t, ht, -, rfl⟩ := hs.equipped_eq_ok_iff.1 hd
      rw [Segment.attach_number]
      exact List.mem_map_of_mem ht
    rw [hs.addAll_eq_map hstored, withLastDevices]
    congr 1
    refine List.map_congr_left fun t ht => ?_
    rw [find?_of_forall₂_equipped hs (List.forall₂_reverse_iff.2 hall) ht, withLastDevice,
      lastDevice?]
    cases devices.reverse.find? fun d => d.1 == t.number <;> rfl
  constructor
  · exact fun h => ⟨hs.exists_attachDevices_iff.1 ⟨r, h⟩, hresult r h⟩
  · rintro ⟨hattachable, rfl⟩
    obtain ⟨q, hq⟩ := hs.exists_attachDevices_iff.2 hattachable
    rw [hq, hresult q hq]

end Storing

section Unchanged

/-- A segment with a device differs from what it was in its pipe and its device alone. -/
theorem bare_withLastDevice (s : SegmentSet) (devices : List (Int × Device)) (t : Segment) :
    (s.withLastDevice devices t).bare = t.bare := by
  unfold withLastDevice
  split
  · rw [Segment.attach_bare]
  · rfl

/-- Devices change nothing but the pipes and the devices of segments. -/
theorem map_bare_withLastDevices (s : SegmentSet) (devices : List (Int × Device)) :
    (s.withLastDevices devices).segments.map Segment.bare = s.segments.map Segment.bare := by
  show (s.segments.map (s.withLastDevice devices)).map Segment.bare = _
  rw [List.map_map]
  exact List.map_congr_left fun t _ => bare_withLastDevice s devices t

/-- Attaching keeps all layouts. -/
theorem layouts_withLastDevices (s : SegmentSet) (devices : List (Int × Device)) :
    (s.withLastDevices devices).segments.map Segment.layout = s.segments.map Segment.layout := by
  show (s.segments.map (s.withLastDevice devices)).map Segment.layout = _
  rw [List.map_map]
  refine List.map_congr_left fun t _ => ?_
  rw [Function.comp_apply, ← Segment.layout_bare, bare_withLastDevice, Segment.layout_bare]

/-- Attaching keeps all numbers. -/
theorem numbers_withLastDevices (s : SegmentSet) (devices : List (Int × Device)) :
    (s.withLastDevices devices).numbers = s.numbers :=
  numbers_eq_of_links (links_eq_of_layouts (layouts_withLastDevices s devices))

/-- Attaching keeps the position map exact. -/
theorem indexed_withLastDevices (hs : s.Indexed) (devices : List (Int × Device)) :
    (s.withLastDevices devices).Indexed :=
  hs.congr rfl (numbers_withLastDevices s devices)

/-- Segments are as long as they were. -/
theorem Indexed.segmentLength_withLastDevices (hs : s.Indexed) (devices : List (Int × Device))
    (n : Int) : (s.withLastDevices devices).segmentLength n = s.segmentLength n :=
  segmentLength_congr hs (indexed_withLastDevices hs devices) rfl
    (layouts_withLastDevices s devices) n

/-- What can be attached does not depend on what is attached already. -/
theorem Indexed.attachable_withLastDevices_iff (hs : s.Indexed)
    (attached : List (Int × Device)) :
    (s.withLastDevices attached).Attachable devices ↔ s.Attachable devices := by
  constructor
  · rintro ⟨hfriction, hstored, hmeasured⟩
    rw [numbers_withLastDevices] at hstored
    simp only [hs.segmentLength_withLastDevices] at hmeasured
    exact ⟨hfriction, hstored, hmeasured⟩
  · rintro ⟨hfriction, hstored, hmeasured⟩
    refine ⟨hfriction, ?_, ?_⟩
    · rwa [numbers_withLastDevices]
    · simpa only [hs.segmentLength_withLastDevices] using hmeasured

end Unchanged

section Apart

variable {d : Int × Device}

/-- Several devices can be attached exactly if each of them can. -/
theorem attachable_cons_iff :
    s.Attachable (d :: devices) ↔ s.Attachable [d] ∧ s.Attachable devices := by
  constructor
  · rintro ⟨hfriction, hstored, hmeasured⟩
    simp only [List.forall_mem_cons] at hfriction hstored hmeasured
    exact ⟨⟨hfriction.imp_right fun h => by simpa using h.1, by simpa using hstored.1,
      by simpa using hmeasured.1⟩, hfriction.imp_right And.right, hstored.2, hmeasured.2⟩
  · rintro ⟨⟨hfriction, hstored, hmeasured⟩, hfrictions, hstoreds, hmeasureds⟩
    simp only [List.forall_mem_singleton] at hfriction hstored hmeasured
    refine ⟨?_, List.forall_mem_cons.2 ⟨hstored, hstoreds⟩,
      List.forall_mem_cons.2 ⟨hmeasured, hmeasureds⟩⟩
    rcases hfriction with h | h
    · exact .inl h
    · exact hfrictions.imp_right fun hrest => List.forall_mem_cons.2 ⟨h, hrest⟩

/-- Whether devices can be attached does not depend on their order. -/
theorem attachable_of_perm (hperm : devices'.Perm devices) (h : s.Attachable devices) :
    s.Attachable devices' :=
  ⟨h.friction.imp_right fun hall d hd => hall d (hperm.mem_iff.1 hd),
    fun d hd => h.stored d (hperm.mem_iff.1 hd), fun d hd => h.measured d (hperm.mem_iff.1 hd)⟩

/-- **What is attached does not depend on the order**, where every device has a segment of its own.
-/
theorem withLastDevices_of_perm (hnd : (devices.map Prod.fst).Nodup)
    (hperm : devices'.Perm devices) : s.withLastDevices devices' = s.withLastDevices devices := by
  have hlast : s.withLastDevice devices' = s.withLastDevice devices := by
    funext t
    rw [withLastDevice, withLastDevice, lastDevice?_of_perm hnd hperm]
  rw [withLastDevices, withLastDevices, hlast]

/-- A device for a segment that is not among the others' can be attached before them. -/
theorem Indexed.withLastDevices_cons (hs : s.Indexed) (hd : d.1 ∉ devices.map Prod.fst) :
    (s.withLastDevices [d]).withLastDevices devices = s.withLastDevices (d :: devices) := by
  have hlength : (s.withLastDevices [d]).lengthOrZero = s.lengthOrZero := by
    funext n
    rw [lengthOrZero, lengthOrZero, hs.segmentLength_withLastDevices]
  have hone : ∀ t : Segment, s.withLastDevice [d] t
      = if d.1 = t.number then t.attach d.2 (s.lengthOrZero t.number) else t := by
    intro t
    rw [withLastDevice, lastDevice?_cons]
    split_ifs <;> rfl
  have htwice : (s.withLastDevices [d]).withLastDevice devices ∘ s.withLastDevice [d]
      = s.withLastDevice (d :: devices) := by
    funext t
    rw [Function.comp_apply, hone, withLastDevice, withLastDevice, lastDevice?_cons, hlength]
    split_ifs with hn
    · rw [Segment.attach_number, lastDevice?_eq_none_iff.2 (hn ▸ hd)]
      rfl
    · rw [Option.or_none]
  have hsegments : (s.segments.map (s.withLastDevice [d])).map
      ((s.withLastDevices [d]).withLastDevice devices)
        = s.segments.map (s.withLastDevice (d :: devices)) := by
    rw [List.map_map, htwice]
  exact congrArg (fun segments => { s with segments := segments }) hsegments

/-- **Devices for different segments can be attached one call at a time.** -/
theorem Indexed.foldlM_attachDevices_eq_ok_iff (hs : s.Indexed)
    (hnd : (devices.map Prod.fst).Nodup) :
    devices.foldlM (fun q d => q.attachDevices [d]) s = .ok r ↔
      s.Attachable devices ∧ r = s.withLastDevices devices := by
  induction devices generalizing s with
  | nil =>
    have hnone : s.withLastDevices [] = s := by
      show { s with segments := s.segments.map id } = s
      rw [List.map_id]
    have hattachable : s.Attachable [] := ⟨.inr (by simp), by simp, by simp⟩
    rw [hnone, and_iff_right hattachable, eq_comm]
    exact ⟨fun h => (Except.ok.inj h), fun h => congrArg Except.ok h⟩
  | cons d devices ih =>
    obtain ⟨hd, hrest⟩ := List.nodup_cons.1 hnd
    rw [List.foldlM_cons, bind_eq_ok, attachable_cons_iff, ← hs.withLastDevices_cons hd]
    constructor
    · rintro ⟨q, hq, h⟩
      obtain ⟨hfirst, rfl⟩ := hs.attachDevices_eq_ok_iff.1 hq
      obtain ⟨hothers, rfl⟩ := (ih (indexed_withLastDevices hs [d]) hrest).1 h
      exact ⟨⟨hfirst, (hs.attachable_withLastDevices_iff [d]).1 hothers⟩, rfl⟩
    · rintro ⟨⟨hfirst, hothers⟩, rfl⟩
      refine ⟨_, hs.attachDevices_eq_ok_iff.2 ⟨hfirst, rfl⟩, ?_⟩
      exact (ih (indexed_withLastDevices hs [d]) hrest).2
        ⟨(hs.attachable_withLastDevices_iff [d]).2 hothers, rfl⟩

end Apart

/-- **Attaching devices is a batch.**  It succeeds exactly if friction is part of the pressure
drop or all devices are regular, every number is stored, and the segment of every valve has a
length. Every segment is then what it was before with the last of its devices fitted to it;
nothing but pipes and devices has changed. So devices for different segments come to the same
in every order, and when they are attached one call at a time. -/
theorem attachDevices_independent (hs : Reachable s) (devices : List (Int × Device)) :
    ((∃ r, s.attachDevices devices = .ok r) ↔
      (s.pressureDrop.includesFriction = true ∨ ∀ d ∈ devices, d.2 = .regular) ∧
        (∀ d ∈ devices, d.1 ∈ s.numbers) ∧
        ∀ d ∈ devices, ∀ valve, d.2 = .valve valve →
          ∃ length, s.segmentLength d.1 = .ok length) ∧
      (∀ r, s.attachDevices devices = .ok r →
        r = { s with segments := r.segments } ∧
          List.Forall₂ (fun t u => Fitted s t (lastDevice? devices t.number) u)
            s.segments r.segments ∧
          r.segments.map Segment.bare = s.segments.map Segment.bare) ∧
      ((devices.map Prod.fst).Nodup → ∀ r,
        (∀ devices', devices'.Perm devices →
          (s.attachDevices devices' = .ok r ↔ s.attachDevices devices = .ok r)) ∧
        (devices.foldlM (fun q d => q.attachDevices [d]) s = .ok r ↔
          s.attachDevices devices = .ok r)) := by
  have hindexed := hs.indexed
  refine ⟨?_, fun r h => ?_, fun hnd r => ⟨fun devices' hperm => ?_, ?_⟩⟩
  · rw [hindexed.exists_attachDevices_iff]
    exact ⟨fun ⟨hf, hn, hl⟩ => ⟨hf, hn, hl⟩, fun ⟨hf, hn, hl⟩ => ⟨hf, hn, hl⟩⟩
  · obtain ⟨hattachable, rfl⟩ := hindexed.attachDevices_eq_ok_iff.1 h
    refine ⟨rfl, ?_, map_bare_withLastDevices s devices⟩
    exact List.forall₂_map_right_iff.2 (List.forall₂_same.2 fun t _ => hattachable.fitted t)
  · rw [hindexed.attachDevices_eq_ok_iff, hindexed.attachDevices_eq_ok_iff,
      withLastDevices_of_perm hnd hperm]
    exact and_congr_left fun _ => ⟨attachable_of_perm hperm.symm, attachable_of_perm hperm⟩
  · rw [hindexed.foldlM_attachDevices_eq_ok_iff hnd, hindexed.attachDevices_eq_ok_iff]

/-- A well of three segments with lengths, the last of which has a pipe. -/
def short : SegmentSet :=
  ofSegments "W" .friction
    [{ Segment.ofLink 1 1 0 with node := ⟨100.0, 1000.0, 0.0, 0.0⟩ },
      { Segment.ofLink 2 1 1 with node := ⟨120.0, 1010.0, 0.0, 0.0⟩ },
      { Segment.ofLink 3 2 2 with
        node := ⟨150.0, 1015.0, 0.0, 0.0⟩
        pipe := ⟨0.2, 1.0e-4, 0.03⟩ }]

/-- A valve and an inflow control device, for different segments. -/
def fitting : List (Int × Device) :=
  [(3, .valve { flowCoefficient := 0.7, crossArea := 0.002, pipeDiameter := some 0.1 }),
    (2, .spiralIcd { strength := 1.0e-5, length := 12.0 })]

/-- The valve counts and not the regular device in front of it. It narrows the pipe of segment
3, and takes the length of 30 and all other data from the segment. -/
theorem attachDevices_independent_fitting :
    Reachable short ∧ (fitting.map Prod.fst).Nodup ∧
      (∃ r, short.attachDevices ((3, .regular) :: fitting) = .ok r ∧
        r.segments.map (fun t => (t.number, t.pipe, t.device)) =
          [(1, Pipe.unknown, .regular),
            (2, Pipe.unknown, .spiralIcd { strength := 1.0e-5, length := 12.0 }),
            (3, ⟨0.1, 1.0e-4, 0.03⟩, .valve {
              flowCoefficient := 0.7, crossArea := 0.002, maxCrossArea := some 0.03
              additionalLength := some 30.0, pipeDiameter := some 0.1
              pipeRoughness := some 1.0e-4, pipeCrossArea := some 0.03 })] ∧
        List.Forall₂
          (fun t u => Fitted short t (lastDevice? ((3, .regular) :: fitting) t.number) u)
          short.segments r.segments) ∧
      ∃ r, short.attachDevices fitting = .ok r ∧ short.attachDevices fitting.reverse = .ok r ∧
        fitting.foldlM (fun q d => q.attachDevices [d]) short = .ok r := by
  have hreach : Reachable short := reachable_ofSegments ..
  have hnd : (fitting.map Prod.fst).Nodup := by decide
  obtain ⟨-, hwhat, -⟩ := attachDevices_independent hreach ((3, .regular) :: fitting)
  obtain ⟨-, -, hlaws⟩ := attachDevices_independent hreach fitting
  have hok : (short.attachDevices fitting).isOk = true := by decide +kernel
  obtain ⟨q, hq⟩ := exists_of_isOk hok
  obtain ⟨hperm, hfold⟩ := hlaws hnd q
  refine ⟨hreach, hnd, exists_ok_and ?_ fun r hr => (hwhat r hr).2.1, q, hq,
    (hperm _ fitting.reverse_perm).2 hq, hfold.2 hq⟩
  decide +kernel

end SegmentSet
end MultiSegmentWell
