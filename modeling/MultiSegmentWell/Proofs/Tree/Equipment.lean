/-
# Equipping does not move segments

The layout of a segment is its link together with its node. Attaching devices and
assigning perforation lengths replace segments by others of the same layout, so the
segments stay in their places (`Indexed.attachDevices`). The length of a segment
depends on layouts alone (`segmentLength_congr`): it can be read off them
(`lengthFrom`).
-/

import MultiSegmentWell.SegmentSet.Equipment
import MultiSegmentWell.Proofs.Tree.Processing

namespace MultiSegmentWell

namespace Segment

/-- What ties a segment into the tree, and its node. -/
def layout (s : Segment) : (Int × Int × Int) × Node := (s.link, s.node)

/-- A device does not move its segment. -/
@[simp] theorem attach_layout (s : Segment) (d : Device) (l : Float) :
    (s.attach d l).layout = s.layout := by
  cases d <;> rfl

end Segment

/-- Segments with the same layouts have the same links. -/
theorem links_eq_of_layouts {xs ys : List Segment}
    (h : xs.map Segment.layout = ys.map Segment.layout) :
    xs.map Segment.link = ys.map Segment.link := by
  have hfst := congrArg (List.map Prod.fst) h
  rw [List.map_map, List.map_map] at hfst
  exact hfst

namespace SegmentSet

variable {s r : SegmentSet}

/-- Getting a segment succeeds with what a look-up finds. -/
theorem get_eq_ok {n : Int} {t : Segment} : s.get n = .ok t ↔ s.get? n = some t := by
  unfold get
  cases s.get? n <;> simp

/-- A stored number is found. -/
theorem Indexed.exists_get (hs : s.Indexed) {n : Int} (h : n ∈ s.numbers) :
    ∃ t ∈ s.segments, t.number = n ∧ s.get n = .ok t := by
  obtain ⟨t, ht, hn⟩ := List.mem_map.1 h
  exact ⟨t, ht, hn, get_eq_ok.2 (hs.get?_eq_some_iff.2 ⟨ht, hn⟩)⟩

/-- Getting a stored segment does not fail. -/
theorem Indexed.get_ne_error (hs : s.Indexed) {n : Int} (h : n ∈ s.numbers) {e : SegmentError} :
    s.get n ≠ .error e := by
  obtain ⟨t, -, -, hget⟩ := hs.exists_get h
  rw [hget]
  exact fun hmissing => by cases hmissing

/-- A number that is not stored is unknown. -/
theorem Indexed.get_of_not_mem (hs : s.Indexed) {n : Int} (h : n ∉ s.numbers) :
    s.get n = .error (.unknownSegment s.well n) := by
  have hget : s.get? n = none := by
    rw [Option.eq_none_iff_forall_ne_some]
    intro t ht
    obtain ⟨hmem, hn⟩ := hs.get?_eq_some_iff.1 ht
    exact h (List.mem_map.2 ⟨t, hmem, hn⟩)
  rw [get, hget]

/-- Adding a segment keeps the name of the well. -/
@[simp] theorem add_well (s : SegmentSet) (a : Segment) : (s.add a).well = s.well := by
  unfold add; split <;> rfl

/-- Adding segments keeps the name of the well. -/
@[simp] theorem addAll_well (s : SegmentSet) (segments : List Segment) :
    (s.addAll segments).well = s.well := by
  induction segments generalizing s with
  | nil => rfl
  | cons a segments ih => exact (ih (s.add a)).trans (s.add_well a)

/-- A stored number is replaced where it stands. -/
theorem Indexed.add_eq_set (hs : s.Indexed) {i : Nat} {a t : Segment}
    (ht : s.segments[i]? = some t) (hn : t.number = a.number) :
    s.add a = { s with segments := s.segments.set i a } := by
  have hi : s.index.get? a.number = some i := by
    rw [hs.get?, numbers, List.getElem?_map, ht, Option.map_some, hn]
  rw [SegmentSet.add, hi]

/-- A segment put in the place of one of the same layout leaves layouts alone. -/
theorem Indexed.layouts_add (hs : s.Indexed) {a : Segment}
    (ha : a.layout ∈ s.segments.map Segment.layout) :
    (s.add a).segments.map Segment.layout = s.segments.map Segment.layout := by
  obtain ⟨t, ht, hl⟩ := List.mem_map.1 ha
  obtain ⟨i, hi⟩ := List.getElem?_of_mem ht
  obtain ⟨hlt, hget⟩ := List.getElem?_eq_some_iff.1 hi
  rw [hs.add_eq_set hi (congrArg (fun l => l.1.1) hl), List.map_set, ← hl, ← hget,
    ← List.getElem_map Segment.layout]
  · exact List.set_getElem_self _
  · rwa [List.length_map]

/-- Segments that replace stored ones of the same layout keep all layouts. -/
theorem Indexed.layouts_addAll (hs : s.Indexed) {segments : List Segment}
    (h : ∀ a ∈ segments, a.layout ∈ s.segments.map Segment.layout) :
    (s.addAll segments).segments.map Segment.layout = s.segments.map Segment.layout := by
  induction segments generalizing s with
  | nil => rfl
  | cons a segments ih =>
    obtain ⟨ha, hrest⟩ := List.forall_mem_cons.1 h
    have hadd := hs.layouts_add ha
    refine (ih (hs.add a) ?_).trans hadd
    rwa [hadd]

/-- The device that friction is asked for is one of the given ones and no regular one. -/
theorem mem_and_irregular_of_find? {devices : List (Int × Device)} {n : Int} {device : Device}
    (h : devices.find? (fun (_, d) => d.kind != .regular) = some (n, device)) :
    (n, device) ∈ devices ∧ device.kind ≠ .regular :=
  ⟨List.mem_of_find?_eq_some h, by simpa using List.find?_some h⟩

/-- Friction is required where a device is not regular. -/
theorem requireFriction_eq_ok {devices : List (Int × Device)} : s.requireFriction devices = .ok () ↔
    s.pressureDrop.includesFriction = true ∨ ∀ d ∈ devices, d.2.kind = .regular := by
  unfold requireFriction
  split_ifs with hfriction
  · simp [hfriction]
  · split
    · rename_i n device hfound
      obtain ⟨hmem, hirregular⟩ := mem_and_irregular_of_find? hfound
      exact iff_of_false (fun h => by cases h) fun h =>
        hirregular (h.resolve_left hfriction _ hmem)
    · rename_i hnone
      simp only [List.find?_eq_none, bne_iff_ne, ne_eq, not_not] at hnone
      exact iff_of_true rfl (.inr hnone)

/-- Devices are attached when friction allows them and every segment can be equipped;
the equipped segments are then stored one after the other. -/
theorem attachDevices_eq_ok {devices : List (Int × Device)} :
    s.attachDevices devices = .ok r ↔
      s.requireFriction devices = .ok () ∧
        ∃ segments, List.Forall₂ (fun d t => s.equipped d.1 d.2 = .ok t) devices segments ∧
          r = s.addAll segments := by
  rw [attachDevices, check_bind_eq_ok]
  simp only [bind_eq_ok, mapM_eq_ok, Except.ok.injEq, eq_comm (a := r)]

/-- What has to be known of each device is that its segment can be equipped with it. -/
theorem exists_attachDevices_iff_equipped {devices : List (Int × Device)} :
    (∃ r, s.attachDevices devices = .ok r) ↔
      s.requireFriction devices = .ok () ∧ ∀ d ∈ devices, ∃ t, s.equipped d.1 d.2 = .ok t := by
  simp only [attachDevices_eq_ok]
  constructor
  · rintro ⟨_, hfriction, segments, hall, -⟩
    refine ⟨hfriction, fun d hd => ?_⟩
    obtain ⟨t, -, ht⟩ := exists_of_forall₂ hall hd
    exact ⟨t, ht⟩
  · rintro ⟨hfriction, hequipped⟩
    obtain ⟨segments, hsegments⟩ := exists_mapM_eq_ok hequipped
    exact ⟨_, hfriction, segments, mapM_eq_ok.1 hsegments, rfl⟩

/-- Scaled devices are attached with the scaling factors computed first. -/
theorem attachScaledDevices_eq_ok {devices : List (Int × Device)} {connections : List Connection} :
    s.attachScaledDevices devices connections = .ok r ↔
      s.requireFriction devices = .ok () ∧
        ∃ scaled, devices.mapM (fun d => (s.scaledDevice connections d.1 d.2).map (d.1, ·))
            = .ok scaled ∧ s.attachDevices scaled = .ok r := by
  rw [attachScaledDevices, check_bind_eq_ok, bind_eq_ok]

/-- An equipped segment has the layout of the stored one. -/
theorem Indexed.layout_of_equipped (hs : s.Indexed) {n : Int} {d : Device} {t : Segment}
    (h : s.equipped n d = .ok t) : t.layout ∈ s.segments.map Segment.layout := by
  obtain ⟨u, hu, h⟩ := bind_eq_ok.1 h
  obtain ⟨l, -, h⟩ := bind_eq_ok.1 h
  obtain rfl := Except.ok.inj h
  rw [Segment.attach_layout]
  exact List.mem_map_of_mem (hs.get?_eq_some_iff.1 (get_eq_ok.1 hu)).1

/-- **Attaching devices moves no segment.** -/
theorem Indexed.attachDevices (hs : s.Indexed) {devices : List (Int × Device)}
    (h : s.attachDevices devices = .ok r) :
    r.Indexed ∧ r.well = s.well ∧
      r.segments.map Segment.layout = s.segments.map Segment.layout := by
  obtain ⟨-, segments, hall, rfl⟩ := attachDevices_eq_ok.1 h
  refine ⟨hs.addAll segments, addAll_well s segments, hs.layouts_addAll fun a ha => ?_⟩
  obtain ⟨i, hi, rfl⟩ := List.getElem_of_mem ha
  exact hs.layout_of_equipped (hall.get (by rw [hall.length_eq]; exact hi) hi)

/-- Attaching scaled devices does not move segments either. -/
theorem Indexed.attachScaledDevices (hs : s.Indexed) {devices : List (Int × Device)}
    {connections : List Connection} (h : s.attachScaledDevices devices connections = .ok r) :
    r.Indexed ∧ r.well = s.well ∧
      r.segments.map Segment.layout = s.segments.map Segment.layout := by
  obtain ⟨-, scaled, -, h⟩ := attachScaledDevices_eq_ok.1 h
  exact hs.attachDevices h

/-- Assigning perforation lengths moves no segment. -/
theorem layouts_assignPerfLengths (s : SegmentSet) (connections : List Connection) :
    (s.assignPerfLengths connections).segments.map Segment.layout
      = s.segments.map Segment.layout := by
  rw [assignPerfLengths, List.map_map]
  rfl

/-- Assigning perforation lengths keeps all numbers. -/
theorem numbers_assignPerfLengths (s : SegmentSet) (connections : List Connection) :
    (s.assignPerfLengths connections).numbers = s.numbers :=
  numbers_eq_of_links (links_eq_of_layouts (layouts_assignPerfLengths s connections))

/-- Assigning perforation lengths keeps the position map exact. -/
theorem Indexed.assignPerfLengths (hs : s.Indexed) (connections : List Connection) :
    (s.assignPerfLengths connections).Indexed :=
  hs.congr rfl (numbers_assignPerfLengths s connections)

/-- Where layouts are the same, segments of the same layout are found. -/
theorem Indexed.get?_layout_congr (hs : s.Indexed) (hr : r.Indexed)
    (h : r.segments.map Segment.layout = s.segments.map Segment.layout) (n : Int) :
    (r.get? n).map Segment.layout = (s.get? n).map Segment.layout := by
  have hn : r.numbers = s.numbers := numbers_eq_of_links (links_eq_of_layouts h)
  unfold SegmentSet.get?
  rw [hs.index_get?_congr hr hn]
  cases s.index.get? n with
  | none => rfl
  | some i =>
    rw [Option.bind_some, Option.bind_some, ← List.getElem?_map, ← List.getElem?_map, h]

/-- The layout that is looked up depends on layouts alone. -/
theorem get_layout_congr (hs : s.Indexed) (hr : r.Indexed) (hw : r.well = s.well)
    (h : r.segments.map Segment.layout = s.segments.map Segment.layout) (n : Int) :
    Segment.layout <$> r.get n = Segment.layout <$> s.get n := by
  have hfound := hs.get?_layout_congr hr h n
  unfold get
  cases hrn : r.get? n with
  | none =>
    rw [hrn, Option.map_none, eq_comm, Option.map_eq_none_iff] at hfound
    rw [hfound, hw]
  | some u =>
    rw [hrn, Option.map_some, eq_comm, Option.map_eq_some_iff] at hfound
    obtain ⟨t, ht, hl⟩ := hfound
    rw [ht]
    exact congrArg Except.ok hl.symm

/-- The length of a segment, read off the layouts of the stored segments. -/
def lengthFrom (well : String) (layoutOf : Int → Except SegmentError ((Int × Int × Int) × Node))
    (number : Int) : Except SegmentError Float := do
  let segment ← layoutOf number
  if number = topNumber then .ok segment.2.length
  else
    let outlet ← layoutOf segment.1.2.2
    let length := segment.2.length - outlet.2.length
    if length <= 0.0 then .error (.nonPositiveLength well number length) else .ok length

/-- The length of a segment is read off layouts. -/
theorem segmentLength_eq_lengthFrom (s : SegmentSet) (n : Int) :
    s.segmentLength n = lengthFrom s.well (fun m => Segment.layout <$> s.get m) n := by
  simp only [segmentLength, lengthFrom, bind_map_left]
  rfl

/-- **The length of a segment depends on layouts alone.** -/
theorem segmentLength_congr (hs : s.Indexed) (hr : r.Indexed) (hw : r.well = s.well)
    (h : r.segments.map Segment.layout = s.segments.map Segment.layout) (n : Int) :
    r.segmentLength n = s.segmentLength n := by
  rw [segmentLength_eq_lengthFrom, segmentLength_eq_lengthFrom, hw,
    funext (get_layout_congr hs hr hw h)]

end SegmentSet
end MultiSegmentWell
