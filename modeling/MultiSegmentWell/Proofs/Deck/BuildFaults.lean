/-
# Why a well cannot be built

Building a well loads its tree, allocates its perforations and attaches its devices. Where
perforations and devices name segments of the tree, nothing that is looked up on the way is
missing, with one exception: scaling an inflow control device asks for the length of the
outlet of its segment, and the top segment has none. So what goes wrong is a fault of the
tree, a perforation without a segment near it, a device that friction or its own data rule
out, or an inflow control device on the top segment (`BuildFault`, `buildFault_of_build`).

Every other outlet is stored in front of its segment, and every stored segment has a length
(`Rooted`); neither perforation lengths nor devices change that.
-/

import MultiSegmentWell.Proofs.Deck.Wells
import MultiSegmentWell.Proofs.Tree.LoadFaults

namespace MultiSegmentWell

/-- Whether a number is that of the top segment or of a segment that a record gives. -/
def TreeDefinition.Covers (d : TreeDefinition) (n : Int) : Prop :=
  n = topNumber ∨ ∃ record ∈ d.records, record.first ≤ n ∧ n ≤ record.last

namespace SegmentSet

variable {s r : SegmentSet} {d : TreeDefinition} {options : Options} {e : SegmentError}

/-- A settled tree whose top segment has no outlet. -/
structure Rooted (s : SegmentSet) : Prop extends Settled s where
  top_outlet : ∀ t ∈ s.segments, t.number = topNumber → t.outlet = 0
  zero_not_mem : (0 : Int) ∉ s.numbers

/-- **A loaded tree is rooted.** -/
theorem rooted_of_load (h : (s.load d options).outcome = .ok r) : Rooted r where
  toSettled := settled_of_load h
  top_outlet u hu hn := by
    obtain ⟨t, ht, heq, -⟩ := (exists_described_of_load h).2 u hu
    have htn : t.number = topNumber := by rw [← hn, heq]
    obtain rfl | ⟨hne, -⟩ := cases_of_mem_described (load_eq_ok.1 h).2.1 ht
    · rw [heq]
      rfl
    · exact absurd htn hne
  zero_not_mem hzero := by
    obtain ⟨t, ht, hn⟩ := List.mem_map.1 ((exists_described_of_load h).1.mem_iff.1 hzero)
    have hpos := number_pos_of_mem_described (load_eq_ok.1 h).2.1 ht
    omega

/-- A loaded set is marked resolved. -/
theorem resolved_of_load (h : (s.load d options).outcome = .ok r) : r.resolved = true := by
  obtain ⟨_, -, -, rfl⟩ := exists_builtOf_of_load h
  rfl

/-- Numbers that the definition covers are stored in the loaded tree. -/
theorem mem_numbers_of_load (h : (s.load d options).outcome = .ok r) {n : Int} (hn : d.Covers n) :
    n ∈ r.numbers :=
  ((expands_of_load h).mem_numbers n).2 hn

/-- A set of the layouts of a rooted one is rooted. -/
theorem Rooted.congr (hs : Rooted s) (hr : r.Indexed) (hw : r.well = s.well)
    (hl : r.segments.map Segment.layout = s.segments.map Segment.layout) : Rooted r where
  toSettled := hs.toSettled.congr hr hw hl
  top_outlet t ht hn := by
    obtain ⟨i, hi⟩ := List.getElem?_of_mem ht
    obtain ⟨u, hu, hlink⟩ := exists_link_eq (links_eq_of_layouts hl).symm hi
    obtain ⟨hnumber, hlink⟩ := Prod.mk.inj hlink
    obtain ⟨-, houtlet⟩ := Prod.mk.inj hlink
    exact houtlet.symm.trans (hs.top_outlet u (List.mem_of_getElem? hu) (hnumber.trans hn))
  zero_not_mem := by
    rw [numbers, numbers_eq_of_links (links_eq_of_layouts hl)]
    exact hs.zero_not_mem

/-- Perforation lengths leave a tree rooted. -/
theorem Rooted.assignPerfLengths (hs : Rooted s) (connections : List Connection) :
    Rooted (s.assignPerfLengths connections) :=
  hs.congr (hs.indexed.assignPerfLengths connections) rfl (layouts_assignPerfLengths s connections)

/-- The outlet of the top segment is unknown. -/
theorem Rooted.segmentLength_top_outlet (hs : Rooted s) {t : Segment} (ht : t ∈ s.segments)
    (hn : t.number = topNumber) : s.segmentLength t.outlet = .error (.unknownSegment s.well 0) := by
  rw [hs.top_outlet t ht hn, segmentLength, hs.indexed.get_of_not_mem hs.zero_not_mem]
  rfl

/-- **The length of an outlet is missing for the top segment only.** -/
theorem Rooted.top_of_segmentLength_outlet (hs : Rooted s) {t : Segment} (ht : t ∈ s.segments)
    (h : s.segmentLength t.outlet = .error e) :
    t.number = topNumber ∧ e = .unknownSegment s.well 0 := by
  by_cases hn : t.number = topNumber
  · rw [hs.segmentLength_top_outlet ht hn] at h
    exact ⟨hn, (Except.error.inj h).symm⟩
  · obtain ⟨outlet, ho, hon⟩ := hs.inOrder.outlet_mem ht hn
    obtain ⟨l, hl⟩ := hs.length t.outlet (hon ▸ List.mem_map_of_mem ho)
    rw [hl] at h
    cases h

section Allocating

/-- A set that is marked resolved is not refused. -/
theorem requireResolved_ne_error (h : s.resolved = true) : s.requireResolved ≠ .error e := by
  rw [requireResolved, if_pos h]
  exact fun hunresolved => by cases hunresolved

variable (hs : s.Indexed)
include hs

/-- Where named segments are stored, only a perforation without a segment near it has no target. -/
theorem Indexed.eq_of_target_eq_error {p : Perforation}
    (hp : ∀ n, p.segment = some n → n ∈ s.numbers) (h : s.target p = .error e) :
    e = .connectionNotAllocated s.well p.branch p.start p.finish := by
  unfold target at h
  split at h
  · rename_i n hn
    exact absurd (map_eq_error.1 h) (hs.get_ne_error (hp n (Option.eq_some_of_filter_eq_some hn)))
  · split at h
    · cases h
    · exact (Except.error.inj h).symm

/-- On a stored segment of a resolved set, only the want of another node leaves a depth open. -/
theorem Indexed.eq_of_centerDepth_eq_error (hresolved : s.resolved = true) {n branch : Int}
    {center : Float} (hn : n ∈ s.numbers) (h : s.centerDepth n branch center = .error e) :
    e = .connectionNotAllocated s.well branch center center := by
  unfold centerDepth at h
  obtain hunresolved | ⟨_, -, h⟩ := bind_eq_error.1 h
  · exact absurd hunresolved (requireResolved_ne_error hresolved)
  split_ifs at h
  obtain hmissing | ⟨u, -, h⟩ := bind_eq_error.1 h
  · exact absurd hmissing (hs.get_ne_error hn)
  split at h
  · cases h
  · exact (Except.error.inj h).symm

/-- **Allocating on a resolved tree fails** at a perforation that is not near a segment. -/
theorem Indexed.exists_of_allocate_eq_error (hresolved : s.resolved = true)
    {perforations : List Perforation}
    (hnamed : ∀ p ∈ perforations, ∀ n, p.segment = some n → n ∈ s.numbers)
    (h : s.allocate perforations = .error e) :
    ∃ p ∈ perforations, ∃ start finish,
      e = .connectionNotAllocated s.well p.branch start finish := by
  obtain hunresolved | ⟨_, -, h⟩ := bind_eq_error.1 h
  · exact absurd hunresolved (requireResolved_ne_error hresolved)
  obtain ⟨before, p, after, rfl, -, hp⟩ := mapM_eq_error.1 h
  have hmem : p ∈ before ++ p :: after := by simp
  refine ⟨p, hmem, ?_⟩
  obtain htarget | ⟨n, hn, h⟩ := bind_eq_error.1 hp
  · exact ⟨_, _, hs.eq_of_target_eq_error (hnamed p hmem) htarget⟩
  split at h
  · cases h
  · obtain hdepth | ⟨_, -, h⟩ := bind_eq_error.1 h
    · exact ⟨_, _, hs.eq_of_centerDepth_eq_error hresolved (hs.mem_numbers_of_target hn) hdepth⟩
    · cases h

end Allocating

/-- Why devices cannot be scaled and attached to segments of a loaded tree. -/
inductive EquipFault (well : String) (devices : List (Int × Device)) : SegmentError → Prop where
  | friction {d : Int × Device} (mem : d ∈ devices) (irregular : d.2.kind ≠ .regular) :
    EquipFault well devices (.frictionRequired well d.2.kind)
  | scaling {d : Int × Device} {icd : Icd} {fault : ScalingFault} (mem : d ∈ devices)
    (icd_eq : d.2.icd? = some icd) : EquipFault well devices (.invalidScaling icd.method fault)
  | topOutlet {d : Int × Device} (mem : d ∈ devices) (top : d.1 = topNumber)
    (icd : d.2.icd?.isSome = true) : EquipFault well devices (.unknownSegment well 0)

section Equipping

variable {devices scaled : List (Int × Device)} {connections : List Connection}

/-- What friction rules out is a fault of the devices. -/
theorem equipFault_of_requireFriction (h : s.requireFriction devices = .error e) :
    EquipFault s.well devices e := by
  unfold requireFriction at h
  split_ifs at h
  split at h
  · rename_i n device hfound
    obtain ⟨hmem, hirregular⟩ := mem_and_irregular_of_find? hfound
    obtain rfl := Except.error.inj h
    exact .friction hmem hirregular
  · cases h

/-- A scaling factor is refused for the method of the device. -/
theorem invalidScaling_of_scale {icd : Icd} {outletLength connectionLength : Float}
    (h : icd.scale outletLength connectionLength = .error e) :
    ∃ fault, e = .invalidScaling icd.method fault := by
  have hfactor := map_eq_error.1 h
  unfold Icd.factor at hfactor
  dsimp only at hfactor
  split_ifs at hfactor <;> exact ⟨_, (Except.error.inj hfactor).symm⟩

/-- Scaling fails for the data of an inflow control device or for its place on the top segment. -/
theorem Rooted.equipFault_of_scaledDevice (hs : Rooted s) {d : Int × Device} (hmem : d ∈ devices)
    (hn : d.1 ∈ s.numbers) (h : s.scaledDevice connections d.1 d.2 = .error e) :
    EquipFault s.well devices e := by
  unfold scaledDevice at h
  split at h
  · cases h
  rename_i icd hicd
  obtain hmissing | ⟨t, hget, h⟩ := bind_eq_error.1 h
  · exact absurd hmissing (hs.indexed.get_ne_error hn)
  obtain ⟨ht, htn⟩ := hs.indexed.get?_eq_some_iff.1 (get_eq_ok.1 hget)
  obtain houtlet | ⟨l, -, h⟩ := bind_eq_error.1 h
  · obtain ⟨htop, rfl⟩ := hs.top_of_segmentLength_outlet ht houtlet
    exact .topOutlet hmem (htn.symm.trans htop) (by rw [hicd]; rfl)
  · obtain ⟨fault, rfl⟩ := invalidScaling_of_scale (map_eq_error.1 h)
    exact .scaling hmem hicd

/-- Scaling keeps the kind of a device. -/
theorem scaledDevice_kind {n : Int} {device device' : Device}
    (h : s.scaledDevice connections n device = .ok device') : device'.kind = device.kind := by
  unfold scaledDevice at h
  split at h
  · rw [Except.ok.inj h]
  · obtain ⟨_, -, h⟩ := bind_eq_ok.1 h
    obtain ⟨_, -, h⟩ := bind_eq_ok.1 h
    obtain ⟨icd, -, rfl⟩ := map_eq_ok.1 h
    cases device <;> rfl

/-- Scaled devices are on the segments of the devices and of the same kinds. -/
theorem exists_of_mem_scaled
    (h : devices.mapM (fun d => (s.scaledDevice connections d.1 d.2).map (d.1, ·)) = .ok scaled)
    {d' : Int × Device} (hmem : d' ∈ scaled) :
    ∃ d ∈ devices, d'.1 = d.1 ∧ d'.2.kind = d.2.kind := by
  obtain ⟨d, hd, hscaled⟩ := exists_of_forall₂ (mapM_eq_ok.1 h).flip hmem
  obtain ⟨device', hdevice, rfl⟩ := map_eq_ok.1 hscaled
  exact ⟨d, hd, rfl, scaledDevice_kind hdevice⟩

/-- Where friction allows them, devices can be attached to stored segments. -/
theorem Settled.exists_attachDevices (hs : Settled s)
    (hfriction : s.requireFriction devices = .ok ()) (hn : ∀ d ∈ devices, d.1 ∈ s.numbers) :
    ∃ r, s.attachDevices devices = .ok r := by
  refine exists_attachDevices_iff_equipped.2 ⟨hfriction, fun d hd => ?_⟩
  obtain ⟨t, -, -, hget⟩ := hs.indexed.exists_get (hn d hd)
  obtain ⟨l, hl⟩ : ∃ l, s.attachmentLength d.1 d.2 = .ok l := by
    cases hdevice : d.2 with
    | valve => exact hs.length d.1 (hn d hd)
    | _ => exact ⟨0.0, rfl⟩
  exact ⟨t.attach d.2 l, bind_eq_ok.2 ⟨t, hget, bind_eq_ok.2 ⟨l, hl, rfl⟩⟩⟩

/-- **Equipping a rooted tree fails** for friction, for scaling or for the top segment. -/
theorem Rooted.equipFault_of_equip (hs : Rooted s) (hn : ∀ d ∈ devices, d.1 ∈ s.numbers)
    (h : s.equip devices connections = .error e) : EquipFault s.well devices e := by
  unfold SegmentSet.equip at h
  split_ifs at h
  obtain hfriction | ⟨_, hfriction, h⟩ := bind_eq_error.1 h
  · exact equipFault_of_requireFriction hfriction
  obtain hscaled | ⟨scaled, hscaled, h⟩ := bind_eq_error.1 h
  · obtain ⟨before, d, after, rfl, -, hd⟩ := mapM_eq_error.1 hscaled
    have hmem : d ∈ before ++ d :: after := by simp
    exact hs.equipFault_of_scaledDevice hmem (hn d hmem) (map_eq_error.1 hd)
  · have hrequired : s.requireFriction scaled = .ok () := by
      refine requireFriction_eq_ok.2 ((requireFriction_eq_ok.1 hfriction).imp_right fun hall => ?_)
      intro d' hd'
      obtain ⟨d, hd, -, hkind⟩ := exists_of_mem_scaled hscaled hd'
      rw [hkind, hall d hd]
    obtain ⟨r, hr⟩ := hs.exists_attachDevices hrequired fun d' hd' => by
      obtain ⟨d, hd, hsame, -⟩ := exists_of_mem_scaled hscaled hd'
      exact hsame ▸ hn d hd
    rw [hr] at h
    cases h

/-- Devices leave a tree rooted. -/
theorem Rooted.equip (hs : Rooted s) (h : s.equip devices connections = .ok r) : Rooted r := by
  unfold SegmentSet.equip at h
  split_ifs at h
  · exact Except.ok.inj h ▸ hs
  · obtain ⟨hr, hw, hl⟩ := hs.indexed.attachScaledDevices h
    exact hs.congr hr hw hl

/-- **No inflow control device can be scaled on the top segment.** -/
theorem Rooted.equip_ne_ok (hs : Rooted s) {d : Int × Device} (hmem : d ∈ devices)
    (htop : d.1 = topNumber) (hicd : d.2.icd?.isSome = true) :
    s.equip devices connections ≠ .ok r := by
  intro h
  unfold SegmentSet.equip at h
  have hnonempty : ¬ devices.isEmpty = true := by
    rw [List.isEmpty_iff]
    exact List.ne_nil_of_mem hmem
  rw [if_neg hnonempty] at h
  obtain ⟨-, scaled, hscaled, -⟩ := attachScaledDevices_eq_ok.1 h
  obtain ⟨d', -, hd⟩ := exists_of_forall₂ (mapM_eq_ok.1 hscaled) hmem
  obtain ⟨device, hdevice, -⟩ := map_eq_ok.1 hd
  obtain ⟨icd, hicd⟩ := Option.isSome_iff_exists.1 hicd
  unfold scaledDevice at hdevice
  rw [hicd] at hdevice
  obtain ⟨t, ht, hdevice⟩ := bind_eq_ok.1 hdevice
  obtain ⟨l, hl, -⟩ := bind_eq_ok.1 hdevice
  obtain ⟨htmem, htn⟩ := hs.indexed.get?_eq_some_iff.1 (get_eq_ok.1 ht)
  rw [hs.segmentLength_top_outlet htmem (htn.trans htop)] at hl
  cases hl

end Equipping

end SegmentSet

open SegmentSet

variable {input : WellInput} {options : Options} {e : SegmentError}

/-- Why a well cannot be built whose perforations and devices name segments of its tree. -/
inductive BuildFault (input : WellInput) : SegmentError → Prop where
  | tree {e : SegmentError} (fault : LoadFault input.definition e) : BuildFault input e
  | perforation {p : Perforation} {start finish : Float} (mem : p ∈ input.perforations) :
    BuildFault input (.connectionNotAllocated input.definition.header.well p.branch start finish)
  | devices {e : SegmentError}
    (fault : EquipFault input.definition.header.well input.devices e) : BuildFault input e

/-- Perforations and devices name segments of the tree. -/
structure WellInput.Referring (input : WellInput) : Prop where
  perforations : ∀ p ∈ input.perforations, ∀ n, p.segment = some n → input.definition.Covers n
  devices : ∀ d ∈ input.devices, input.definition.Covers d.1

/-- **What keeps a well from being built** is one of the faults listed. -/
theorem buildFault_of_build (hreferring : input.Referring)
    (h : (input.build options).outcome = .error e) : BuildFault input e := by
  obtain hload | ⟨s, hload, h⟩ := Reported.bind_eq_error.1 h
  · exact .tree (loadFault_of_load hload)
  have hs := rooted_of_load hload
  have hwell := well_of_load hload
  have hresolved := resolved_of_load hload
  obtain hallocate | ⟨connections, -, h⟩ := bind_eq_error.1 h
  · obtain ⟨p, hp, start, finish, rfl⟩ := hs.indexed.exists_of_allocate_eq_error hresolved
      (fun p hp n hn => mem_numbers_of_load hload (hreferring.perforations p hp n hn)) hallocate
    rw [hwell]
    exact .perforation hp
  obtain hequip | ⟨_, -, h⟩ := bind_eq_error.1 h
  · have hdevices : ∀ d ∈ input.devices, d.1 ∈ (s.assignPerfLengths connections).numbers := by
      intro d hd
      rw [numbers_assignPerfLengths]
      exact mem_numbers_of_load hload (hreferring.devices d hd)
    have hfault := (hs.assignPerfLengths connections).equipFault_of_equip hdevices hequip
    exact .devices (hwell ▸ hfault)
  · cases h

/-- **The segments of a built well are rooted**: connections and devices change neither their
places nor their lengths. -/
theorem rooted_of_build {b : BuiltWell} (h : (input.build options).outcome = .ok b) :
    Rooted b.segments := by
  obtain ⟨s, hload, h⟩ := Reported.bind_eq_ok.1 h
  obtain ⟨connections, -, h⟩ := bind_eq_ok.1 h
  obtain ⟨equipped, hequip, h⟩ := bind_eq_ok.1 h
  obtain rfl := Except.ok.inj h
  exact ((rooted_of_load hload).assignPerfLengths connections).equip hequip

/-- **A well with an inflow control device on its top segment is never built.** -/
theorem WellInput.not_build_of_topIcd {d : Int × Device} (hmem : d ∈ input.devices)
    (htop : d.1 = topNumber) (hicd : d.2.icd?.isSome = true) (b : BuiltWell) :
    (input.build options).outcome ≠ .ok b := by
  intro h
  obtain ⟨s, hload, h⟩ := Reported.bind_eq_ok.1 h
  obtain ⟨connections, -, h⟩ := bind_eq_ok.1 h
  obtain ⟨equipped, hequip, -⟩ := bind_eq_ok.1 h
  exact ((rooted_of_load hload).assignPerfLengths connections).equip_ne_ok hmem htop hicd hequip

end MultiSegmentWell
