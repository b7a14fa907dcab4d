/-
# Where the perforations of a built well end up

SPEC_FULL.md, 6: `build_well`; 8: summation of perforation lengths.

Building a well allocates its perforations one by one, so its connections go with them
one to one and in their order (`PlacedOn`). The summed lengths are then assigned to all
segments, and devices are attached last. Attaching takes a segment as it is stored and
puts it back with its number and its summed length (`exists_source_of_attachDevices`),
so the sums still stand in the built well (`SegmentSet.Indexed.complete`).
-/

import MultiSegmentWell.Deck.Building
import MultiSegmentWell.Proofs.Tree.Resolved

namespace MultiSegmentWell

/-- Attaching a device leaves the perforation length alone. -/
@[simp] theorem Segment.attach_perfLength (s : Segment) (d : Device) (l : Float) :
    (s.attach d l).perfLength = s.perfLength := by
  cases d <;> rfl

namespace SegmentSet

variable {s r : SegmentSet} {connections : List Connection}

/-- The connection of a perforation on a tree. -/
structure PlacedOn (s : SegmentSet) (p : Perforation) (c : Connection) : Prop where
  start : c.start = p.start
  finish : c.finish = p.finish
  /-- It lies on a stored segment. -/
  stored : c.segment ∈ s.numbers
  /-- A segment that the perforation names is taken as it is. -/
  named : ∀ n, p.segment = some n → n ≠ 0 → c.segment = n
  /-- Otherwise the segment is found from the middle of the interval. -/
  found : p.segment = none ∨ p.segment = some 0 →
    s.segmentAt p.branch p.center = some c.segment

/-- The closest segment is one of those looked at. -/
theorem mem_of_closest {center : Float} {segments : List Segment} {t : Segment}
    (h : closest center segments = some t) : t ∈ segments := by
  induction segments generalizing t with
  | nil => cases h
  | cons a segments ih =>
    rw [closest] at h
    split at h
    · obtain rfl := Option.some.inj h
      exact List.mem_cons_self
    · rename_i u hu
      obtain rfl := Option.some.inj h
      split_ifs
      · exact List.mem_cons_of_mem a (ih hu)
      · exact List.mem_cons_self

/-- The segment found for a length is a stored one. -/
theorem mem_numbers_of_segmentAt {branch n : Int} {center : Float}
    (h : s.segmentAt branch center = some n) : n ∈ s.numbers := by
  obtain ⟨t, ht, rfl⟩ := Option.map_eq_some_iff.1 h
  exact List.mem_map_of_mem (List.mem_of_mem_filter (mem_of_closest ht))

/-- The target of a perforation is stored. -/
theorem Indexed.mem_numbers_of_target (hs : s.Indexed) {p : Perforation} {n : Int}
    (h : s.target p = .ok n) : n ∈ s.numbers := by
  unfold target at h
  split at h
  · obtain ⟨t, ht, rfl⟩ := map_eq_ok.1 h
    obtain ⟨hmem, rfl⟩ := hs.get?_eq_some_iff.1 (get_eq_ok.1 ht)
    exact List.mem_map_of_mem hmem
  · split at h
    · rename_i m hm
      obtain rfl := Except.ok.inj h
      exact mem_numbers_of_segmentAt hm
    · cases h

/-- A perforation that names a segment goes to that one. -/
theorem target_eq_of_named {p : Perforation} {m n : Int} (hp : p.segment = some n) (hn : n ≠ 0)
    (h : s.target p = .ok m) : m = n := by
  have hnamed : p.segment.filter (· != 0) = some n := by
    rw [hp, Option.filter_some, if_pos (bne_iff_ne.2 hn)]
  rw [target, hnamed] at h
  obtain ⟨_, -, rfl⟩ := map_eq_ok.1 h
  rfl

/-- A perforation that names none goes to the segment found for its middle. -/
theorem segmentAt_of_target {p : Perforation} {n : Int}
    (hp : p.segment = none ∨ p.segment = some 0) (h : s.target p = .ok n) :
    s.segmentAt p.branch p.center = some n := by
  have hnone : p.segment.filter (· != 0) = none := by
    obtain hp | hp := hp <;> rw [hp] <;> rfl
  rw [target, hnone] at h
  cases hfound : s.segmentAt p.branch p.center with
  | some m =>
    rw [hfound] at h
    rw [Except.ok.inj h]
  | none =>
    rw [hfound] at h
    cases h

/-- A connection has the ends of its perforation, and the segment that it goes to. -/
theorem target_of_connect {p : Perforation} {c : Connection} (h : s.connect p = .ok c) :
    s.target p = .ok c.segment ∧ c.start = p.start ∧ c.finish = p.finish := by
  obtain ⟨n, hn, h⟩ := bind_eq_ok.1 h
  split at h
  all_goals
    obtain ⟨depth, -, h⟩ := bind_eq_ok.1 h
    obtain rfl := Except.ok.inj h
    exact ⟨hn, rfl, rfl⟩

/-- An allocated perforation is placed on its target. -/
theorem Indexed.placedOn_of_connect (hs : s.Indexed) {p : Perforation} {c : Connection}
    (h : s.connect p = .ok c) : s.PlacedOn p c := by
  obtain ⟨htarget, hstart, hfinish⟩ := target_of_connect h
  exact ⟨hstart, hfinish, hs.mem_numbers_of_target htarget,
    fun n hp hn => target_eq_of_named hp hn htarget, fun hp => segmentAt_of_target hp htarget⟩

/-- **Allocating gives one connection for each perforation**, in their order. -/
theorem Indexed.placedOn_of_allocate (hs : s.Indexed) {perforations : List Perforation}
    (h : s.allocate perforations = .ok connections) :
    List.Forall₂ s.PlacedOn perforations connections := by
  obtain ⟨-, -, h⟩ := bind_eq_ok.1 h
  exact (mapM_eq_ok.1 h).imp fun _ _ hc => hs.placedOn_of_connect hc

/-- Attaching devices leaves every number with the summed length it had. -/
theorem Indexed.exists_source_of_attachDevices (hs : s.Indexed) {devices : List (Int × Device)}
    (h : s.attachDevices devices = .ok r) {t : Segment} (ht : t ∈ r.segments) :
    ∃ u ∈ s.segments, t.number = u.number ∧ t.perfLength = u.perfLength := by
  obtain ⟨-, segments, hall, rfl⟩ := attachDevices_eq_ok.1 h
  obtain hnew | hold := hs.mem_or_mem_of_mem_addAll ht
  · obtain ⟨d, -, hd⟩ := exists_of_forall₂ hall.flip hnew
    obtain ⟨u, hu, hd⟩ := bind_eq_ok.1 hd
    obtain ⟨l, -, hd⟩ := bind_eq_ok.1 hd
    obtain rfl := Except.ok.inj hd
    exact ⟨u, (hs.get?_eq_some_iff.1 (get_eq_ok.1 hu)).1, u.attach_number d.2 l,
      u.attach_perfLength d.2 l⟩
  · exact ⟨t, hold, rfl, rfl⟩

/-- Equipping a set moves no segment and changes no summed length. -/
theorem Indexed.equip (hs : s.Indexed) {devices : List (Int × Device)}
    (h : s.equip devices connections = .ok r) :
    r.Indexed ∧ r.numbers = s.numbers ∧
      ∀ t ∈ r.segments, ∃ u ∈ s.segments, t.number = u.number ∧ t.perfLength = u.perfLength := by
  unfold SegmentSet.equip at h
  split_ifs at h
  · obtain rfl := Except.ok.inj h
    exact ⟨hs, rfl, fun t ht => ⟨t, ht, rfl, rfl⟩⟩
  · obtain ⟨hr, -, hl⟩ := hs.attachScaledDevices h
    obtain ⟨-, scaled, -, hattach⟩ := attachScaledDevices_eq_ok.1 h
    exact ⟨hr, numbers_eq_of_links (links_eq_of_layouts hl),
      fun t ht => hs.exists_source_of_attachDevices hattach ht⟩

end SegmentSet

open SegmentSet

variable {input : WellInput} {options : Options} {s : SegmentSet} {b : BuiltWell}

/-- **What completing a tree gives**: connections that go with the perforations, and the
segments of the tree with the lengths of the connections summed. -/
theorem SegmentSet.Indexed.complete (hs : s.Indexed) (h : input.complete s = .ok b) :
    List.Forall₂ s.PlacedOn input.perforations b.connections ∧ b.segments.Indexed ∧
      b.segments.numbers = s.numbers ∧
      ∀ t ∈ b.segments.segments,
        t.perfLength = some (Connection.perfLength b.connections t.number) := by
  obtain ⟨connections, hconnections, h⟩ := bind_eq_ok.1 h
  obtain ⟨equipped, hequip, h⟩ := bind_eq_ok.1 h
  obtain rfl := Except.ok.inj h
  obtain ⟨hindexed, hnumbers, hsource⟩ := (hs.assignPerfLengths connections).equip hequip
  refine ⟨hs.placedOn_of_allocate hconnections, hindexed, ?_, fun t ht => ?_⟩
  · exact hnumbers.trans (numbers_assignPerfLengths s connections)
  · obtain ⟨u, hu, hn, hlength⟩ := hsource t ht
    obtain ⟨v, -, rfl⟩ := List.mem_map.1 hu
    rw [hlength, hn]
    rfl

/-- **No perforation is lost, duplicated or moved.**  A well that is built has one
connection for each perforation, in their order and with the same ends. Each lies on
exactly one stored segment: the one that the perforation names or, if it names none or 0,
the one that is found for the middle of the interval on the loaded tree. And every
segment, whatever devices were attached, has the lengths of exactly the connections on it
added up from the left, starting from negative zero. -/
theorem placed_and_summed_of_build (h : (input.build options).outcome = .ok b) :
    ∃ s, (SegmentSet.load {} input.definition options).outcome = .ok s ∧
      List.Forall₂ s.PlacedOn input.perforations b.connections ∧
      (∀ c ∈ b.connections, ∃! t, t ∈ b.segments.segments ∧ t.number = c.segment) ∧
      ∀ t ∈ b.segments.segments, t.perfLength =
        some (((b.connections.filter (·.segment == t.number)).map
          fun c => c.finish - c.start).foldl (· + ·) (-0.0)) := by
  obtain ⟨s, hs, h⟩ := Reported.bind_eq_ok.1 h
  obtain ⟨hplaced, hindexed, hnumbers, hsums⟩ := (settled_of_load hs).indexed.complete h
  refine ⟨s, hs, hplaced, fun c hc => ?_, hsums⟩
  obtain ⟨p, -, hp⟩ := exists_of_forall₂ hplaced.flip hc
  obtain ⟨t, ht, hn⟩ := List.mem_map.1 (hnumbers ▸ hp.stored)
  exact ⟨t, ⟨ht, hn⟩, fun u ⟨hu, hun⟩ =>
    List.inj_on_of_nodup_map hindexed.nodup hu ht (hun.trans hn.symm)⟩

/-- Perforations that name their segment between others that do not, with an inflow
control device on one of the segments and a valve on another. -/
def perforated : WellInput where
  definition := scrambled
  devices := [(6, .spiralIcd { strength := 1.0e-5, length := 12.0, method := 2 }),
    (4, .valve ⟨0.7, 0.01, none, none, none, none, none, .opened⟩)]
  perforations := [⟨2, 38.0, 41.0, none, none⟩, ⟨1, 31.0, 33.0, some 4, none⟩,
    ⟨2, 30.0, 31.0, some 0, none⟩, ⟨2, 36.0, 37.5, some 6, some 1010.0⟩]

/-- All four perforations are placed and summed up, on segments with devices and without. -/
theorem placed_and_summed_of_build_perforated :
    ∃ b, (perforated.build {}).outcome = .ok b ∧
      ∃ s, (SegmentSet.load {} perforated.definition {}).outcome = .ok s ∧
        List.Forall₂ s.PlacedOn perforated.perforations b.connections ∧
        (∀ c ∈ b.connections, ∃! t, t ∈ b.segments.segments ∧ t.number = c.segment) ∧
        ∀ t ∈ b.segments.segments, t.perfLength =
          some (((b.connections.filter (·.segment == t.number)).map
            fun c => c.finish - c.start).foldl (· + ·) (-0.0)) := by
  obtain ⟨b, hb⟩ := exists_of_isOk (by decide +kernel : (perforated.build {}).outcome.isOk = true)
  exact ⟨b, hb, placed_and_summed_of_build hb⟩

end MultiSegmentWell
