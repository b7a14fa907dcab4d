/-
# A tree is determined by its segments

What becomes of a segment is settled by the segment as it was given and by its outlet in
final form (`TreeSettled`). Building leaves such a tree (`treeSettled_of_build`), unless
there are runs of absolute nodes, which depend on the storage order. Along the outlet chains
this leaves no choice: two trees that are settled from the same segments are the same, in
whatever order those are stored and resolved (`TreeSettled.eq`).
-/

import MultiSegmentWell.Proofs.Tree.Expansion
import MultiSegmentWell.Proofs.Tree.Repetition
import MultiSegmentWell.Proofs.Tree.RunChains

namespace MultiSegmentWell

namespace Segment

/-- The top segment of a tree with its node settled. -/
def settledFirst (mode : GeometryMode) (topDepth topLength : Float) (t : Segment) : Segment :=
  match mode with
  | .incremental => SegmentSet.settledTop t topDepth topLength
  | .absolute => t

/-- A segment with what is settled from its outlet: the node that it holds changes of, or
the volume that is not known. -/
def settledBehind (mode : GeometryMode) (outlet t : Segment) : Segment :=
  match mode with
  | .incremental => if t.ready then t else t.settle (outlet.node.add t.node)
  | .absolute =>
    if Quantity.isKnown t.volume then t
    else t.withVolume (t.pipe.area * (t.node.length - outlet.node.length))

variable {mode : GeometryMode} {topDepth topLength : Float} {outlet t : Segment}

/-- With incremental records a ready segment is settled already. -/
theorem settledBehind_of_ready (h : t.ready = true) : settledBehind .incremental outlet t = t := by
  rw [settledBehind, if_pos h]

/-- With incremental records the changes of a segment are added to the node of its outlet. -/
theorem settledBehind_of_unready (h : t.ready = false) :
    settledBehind .incremental outlet t = t.settle (outlet.node.add t.node) := by
  rw [settledBehind, if_neg (Bool.eq_false_iff.1 h)]

/-- With absolute records a known volume is kept. -/
theorem settledBehind_of_known (h : Quantity.isKnown t.volume = true) :
    settledBehind .absolute outlet t = t := by
  rw [settledBehind, if_pos h]

/-- With absolute records an unknown volume is that of the segment's own area and length. -/
theorem settledBehind_of_unknown (h : Quantity.isKnown t.volume = false) :
    settledBehind .absolute outlet t
      = t.withVolume (t.pipe.area * (t.node.length - outlet.node.length)) := by
  rw [settledBehind, if_neg (Bool.eq_false_iff.1 h)]

/-- Settling a segment keeps its link. -/
@[simp] theorem settledBehind_link : (settledBehind mode outlet t).link = t.link := by
  cases mode with
  | incremental => simp only [settledBehind]; split <;> rfl
  | absolute => simp only [settledBehind]; split <;> rfl

/-- Settling a segment keeps its outlet. -/
@[simp] theorem settledBehind_outlet : (settledBehind mode outlet t).outlet = t.outlet :=
  congrArg (fun l => l.2.2) settledBehind_link

/-- Inlets have no part in what is settled. -/
theorem settledFirst_inlets (inlets : List Int) :
    settledFirst mode topDepth topLength { t with inlets }
      = { t.settledFirst mode topDepth topLength with inlets } := by
  cases mode <;> rfl

/-- Settling a segment does not look at its inlets. -/
theorem settledBehind_inlets (inlets : List Int) :
    settledBehind mode outlet { t with inlets }
      = { settledBehind mode outlet t with inlets } := by
  cases mode with
  | incremental => simp only [settledBehind]; split <;> rfl
  | absolute => simp only [settledBehind]; split <;> rfl

end Segment

namespace SegmentSet

open Segment (settledFirst settledBehind)

variable {s r : SegmentSet} {d : TreeDefinition} {given given' segments : List Segment}
variable {mode : GeometryMode} {topDepth topLength : Float} {options : Options}
variable {t u : Segment}

/-- Segments that are settled from given ones, each behind its outlet. -/
structure TreeSettled (mode : GeometryMode) (topDepth topLength : Float)
    (given segments : List Segment) : Prop where
  top : ∀ u ∈ segments, u.number = topNumber → ∃ t ∈ given, t.number = u.number ∧
    u = { t.settledFirst mode topDepth topLength with inlets := u.inlets }
  other : ∀ u ∈ segments, u.number ≠ topNumber → ∃ t ∈ given, t.number = u.number ∧
    ∃ outlet ∈ segments, outlet.number = u.outlet ∧
      u = { settledBehind mode outlet t with inlets := u.inlets }

namespace TreeSettled

/-- Segments may be given with other inlets. -/
theorem of_forall₂ (h : TreeSettled mode topDepth topLength given' segments)
    (hgiven : List.Forall₂ (fun t t' => t' = { t with inlets := t'.inlets }) given given') :
    TreeSettled mode topDepth topLength given segments := by
  refine ⟨fun u hu hn => ?_, fun u hu hn => ?_⟩
  · obtain ⟨t', ht', htn, heq⟩ := h.top u hu hn
    obtain ⟨t, ht, htt⟩ := exists_of_forall₂ hgiven.flip ht'
    refine ⟨t, ht, by rw [← htn, htt], ?_⟩
    rw [htt, Segment.settledFirst_inlets] at heq
    exact heq
  · obtain ⟨t', ht', htn, outlet, houtlet, hon, heq⟩ := h.other u hu hn
    obtain ⟨t, ht, htt⟩ := exists_of_forall₂ hgiven.flip ht'
    refine ⟨t, ht, by rw [← htn, htt], outlet, houtlet, hon, ?_⟩
    rw [htt, Segment.settledBehind_inlets] at heq
    exact heq

/-- **A tree is determined by the segments that are given.**  The induction goes along the
outlet chain, from the top segment on. -/
theorem eq {xs ys chain : List Segment} {u' : Segment}
    (h : TreeSettled mode topDepth topLength given xs)
    (h' : TreeSettled mode topDepth topLength given' ys) (hperm : given'.Perm given)
    (hgiven : (given.map Segment.number).Nodup) (hnd : (xs.map Segment.number).Nodup)
    (hchain : OutletChain xs u chain) (hu' : u' ∈ ys) (hn : u'.number = u.number) :
    u' = { u with inlets := u'.inlets } := by
  have hsame : ∀ t ∈ given, ∀ t' ∈ given', t'.number = t.number → t' = t := fun t ht t' ht' =>
    List.inj_on_of_nodup_map hgiven (hperm.mem_iff.1 ht') ht
  induction hchain generalizing u' with
  | @top u hu htop =>
    obtain ⟨t, ht, htn, heq⟩ := h.top u hu htop
    obtain ⟨t', ht', htn', heq'⟩ := h'.top u' hu' (hn.trans htop)
    obtain rfl := hsame t ht t' ht' (by rw [htn', hn, htn])
    rw [heq]
    exact heq'
  | @step u v chain hu hne hvo hrest ih =>
    obtain ⟨t, ht, htn, outlet, houtlet, hon, heq⟩ := h.other u hu hne
    obtain ⟨t', ht', htn', outlet', houtlet', hon', heq'⟩ := h'.other u' hu' (hn ▸ hne)
    obtain rfl := hsame t ht t' ht' (by rw [htn', hn, htn])
    obtain rfl : outlet = v := List.inj_on_of_nodup_map hnd houtlet hrest.mem (hon.trans hvo.symm)
    have ho : u'.outlet = u.outlet := by
      have hu'o : u'.outlet = t'.outlet :=
        (congrArg Segment.outlet heq').trans Segment.settledBehind_outlet
      have huo : u.outlet = t'.outlet :=
        (congrArg Segment.outlet heq).trans Segment.settledBehind_outlet
      rw [hu'o, huo]
    have hnode : outlet'.node = outlet.node := by
      rw [ih houtlet' (by rw [hon', ho, hon])]
    have hbehind : settledBehind mode outlet' t' = settledBehind mode outlet t' := by
      simp only [settledBehind, hnode]
    rw [hbehind] at heq'
    rw [heq]
    exact heq'

end TreeSettled

/-- In order, every segment but the top one has its outlet among the others. -/
theorem InOrder.outlet_mem (hv : InOrder segments) (hu : u ∈ segments)
    (hn : u.number ≠ topNumber) : ∃ outlet ∈ segments, outlet.number = u.outlet := by
  obtain ⟨i, hi⟩ := List.getElem?_of_mem hu
  obtain ⟨j, -, outlet, hj, hon⟩ := hv.exists_outlet hi hn
  exact ⟨outlet, List.mem_of_getElem? hj, hon⟩

/-- **Adding changes leaves a settled tree.** -/
theorem treeSettled_of_buildIncremental (hs : s.Indexed)
    (h : s.build .incremental topDepth topLength = .ok r) :
    TreeSettled .incremental topDepth topLength s.segments r.segments := by
  have hadded := changesAdded_of_build hs h
  have hr := hs.build h
  have hv := inOrder_of_build hs h
  have hsame : ∀ u ∈ r.segments, ∀ v ∈ r.segments, v.number = u.number → v = u :=
    fun u hu v hv hn => List.inj_on_of_nodup_map hr.nodup hv hu hn
  refine ⟨fun u hu hn => ?_, fun u hu hn => ?_⟩
  · obtain ⟨t, ht, htn, v, hv, heq⟩ := hadded.top
    have hvn : v.number = t.number := by rw [heq]
    obtain rfl := hsame u hu v hv (by rw [hvn, htn, hn])
    exact ⟨t, ht, hvn.symm, heq⟩
  · obtain ⟨t, ht, htn⟩ := List.mem_map.1 (hadded.numbers.mem_iff.1 (List.mem_map_of_mem hu))
    refine ⟨t, ht, htn, ?_⟩
    cases hready : t.ready with
    | true =>
      obtain ⟨v, hv', heq⟩ := hadded.kept t ht (htn ▸ hn) hready
      obtain rfl := hsame u hu v hv' (by rw [heq, ← htn])
      obtain ⟨outlet, houtlet, hon⟩ := hv.outlet_mem hu hn
      refine ⟨outlet, houtlet, hon, ?_⟩
      rw [Segment.settledBehind_of_ready hready]
      exact heq
    | false =>
      obtain ⟨outlet, houtlet, hon, v, hv', heq⟩ := hadded.added t ht (htn ▸ hn) hready
      obtain rfl := hsame u hu v hv' (by rw [heq, ← htn])
      refine ⟨outlet, houtlet, by rw [hon, heq], ?_⟩
      rw [Segment.settledBehind_of_unready hready]
      exact heq

/-- Where all segments behind the top one are ready, there are no runs. -/
theorem InOrder.not_unreadyRun {v : List Segment} (hv : InOrder v)
    (hnd : (v.map Segment.number).Nodup) {b e : Nat}
    (hready : ∀ t ∈ v, t.number ≠ topNumber → t.ready = true) : ¬ UnreadyRun v b e := by
  intro hrun
  obtain ⟨k, rfl⟩ := Nat.exists_eq_add_of_le' hrun.start.1
  obtain ⟨t, ht, hunready⟩ := Option.map_eq_some_iff.1 (hrun.unready _ (Nat.le_refl _) hrun.lt)
  rw [hready t (List.mem_of_getElem? ht) (hv.number_ne_top hnd ht)] at hunready
  cases hunready

/-- What spreading makes of ready segments: only the volume of one behind the top one is
settled. -/
theorem RunsSpread.cases_of_ready {v w : List Segment} (h : RunsSpread v w) (hv : InOrder v)
    (hnd : (v.map Segment.number).Nodup)
    (hready : ∀ t ∈ v, t.number ≠ topNumber → t.ready = true) {k : Nat} (ht : v[k]? = some t)
    (hu : w[k]? = some u) :
    (t.number = topNumber ∧ u = t) ∨
      t.number ≠ topNumber ∧ u = t.withVolume u.volume ∧ VolumeFilled w u t.volume := by
  have hother := h.other k t u ht hu
  cases k with
  | zero =>
    have hn := hv.top
    rw [List.getElem?_map, ht] at hn
    obtain ⟨hnode, hmark⟩ := h.kept 0 t u ht hu (.inl rfl)
    rw [hnode, hmark, h.volume_top t u ht hu] at hother
    exact .inl ⟨Option.some.inj hn, hother⟩
  | succ k =>
    have hn := hv.number_ne_top hnd ht
    obtain ⟨hnode, hmark⟩ := h.kept (k + 1) t u ht hu (.inr (hready t (List.mem_of_getElem? ht) hn))
    rw [hnode, hmark] at hother
    refine .inr ⟨hn, hother, h.volume_other (k + 1) t u (Nat.le_add_left 1 k) ?_ ht hu⟩
    intro b e hrun
    exact absurd hrun.toUnreadyRun (hv.not_unreadyRun hnd hready)

/-- A segment whose volume was filled in is settled behind its outlet. -/
theorem VolumeFilled.exists_settledBehind (h : VolumeFilled segments u t.volume)
    (hv : InOrder segments) (hu : u ∈ segments) (hn : u.number ≠ topNumber)
    (hsame : u = { t with volume := u.volume, inlets := u.inlets }) :
    ∃ outlet ∈ segments, outlet.number = u.outlet ∧
      u = { settledBehind .absolute outlet t with inlets := u.inlets } := by
  cases hknown : Quantity.isKnown t.volume with
  | true =>
    obtain ⟨outlet, houtlet, hon⟩ := hv.outlet_mem hu hn
    refine ⟨outlet, houtlet, hon, ?_⟩
    rw [Segment.settledBehind_of_known hknown]
    rw [h.known (Quantity.isKnown_iff.1 hknown)] at hsame
    exact hsame
  | false =>
    have hunknown : ¬ t.volume > Quantity.unknown := fun h =>
      Bool.false_ne_true (hknown.symm.trans (Quantity.isKnown_iff.2 h))
    obtain ⟨outlet, houtlet, hon, hproduct⟩ := h.unknown hunknown
    have hpipe : u.pipe = t.pipe := by rw [hsame]
    have hnode : u.node = t.node := by rw [hsame]
    refine ⟨outlet, houtlet, hon, ?_⟩
    rw [Segment.settledBehind_of_unknown hknown, ← hpipe, ← hnode, ← hproduct]
    exact hsame

/-- **Where no run is open, absolute nodes leave a settled tree.** -/
theorem treeSettled_of_buildAbsolute (hs : s.Indexed)
    (hready : ∀ t ∈ s.segments, t.number ≠ topNumber → t.ready = true)
    (h : s.build .absolute topDepth topLength = .ok r) :
    TreeSettled .absolute topDepth topLength s.segments r.segments := by
  have hv := inOrder_of_build hs h
  obtain ⟨q, hq, hlink⟩ := build_eq_ok.1 h
  obtain ⟨ordered, hordered, -⟩ := resolveAbsolute_eq_ok.1 hq
  obtain ⟨-, hspread⟩ := runsSpread_of_eq_ok hs hordered hq
  obtain ⟨_, -, hperm, -⟩ := exists_placement_of_order hs hordered
  -- What stands at a position of the result, and what it was before.
  have hcases : ∀ u ∈ r.segments, ∃ t ∈ s.segments, ∃ w : Segment,
      u = { w with inlets := u.inlets } ∧ ((t.number = topNumber ∧ w = t) ∨
        t.number ≠ topNumber ∧ w = t.withVolume w.volume ∧ VolumeFilled q.segments w t.volume) := by
    intro u hu
    obtain ⟨k, hk⟩ := List.getElem?_of_mem hu
    obtain ⟨w, hw, heq⟩ := exists_getElem?_of_forall₂ (forall₂_of_linkInlets hlink).flip hk
    obtain ⟨t, ht⟩ := hspread.exists_before hw
    refine ⟨t, hperm.mem_iff.2 (List.mem_of_getElem? ht), w, heq, ?_⟩
    exact hspread.cases_of_ready (inOrder_of_order hs hordered) (hs.order hordered).nodup
      (fun t ht => hready t (hperm.mem_iff.2 ht)) ht hw
  refine ⟨fun u hu hn => ?_, fun u hu hn => ?_⟩
  · obtain ⟨t, ht, w, heq, ⟨htn, rfl⟩ | ⟨htn, hwt, -⟩⟩ := hcases u hu
    · exact ⟨w, ht, htn.trans hn.symm, heq⟩
    · rw [heq, hwt] at hn
      exact absurd hn htn
  · obtain ⟨t, ht, w, heq, ⟨htn, rfl⟩ | ⟨htn, hwt, hvolume⟩⟩ := hcases u hu
    · rw [heq] at hn
      exact absurd htn hn
    · have hsame : u = { t with volume := u.volume, inlets := u.inlets } := by
        have huw : u.volume = w.volume := by rw [heq]
        rw [huw]
        rw [hwt] at heq
        exact heq
      have hun : t.number = u.number := by rw [hsame]
      exact ⟨t, ht, hun, (hvolume.linkInlets hlink heq).exists_settledBehind hv hu hn hsame⟩

/-- **Building settles a tree**, as long as absolute nodes leave no runs to be spread. -/
theorem treeSettled_of_build (hs : s.Indexed)
    (hready : mode = .absolute → ∀ t ∈ s.segments, t.number ≠ topNumber → t.ready = true)
    (h : s.build mode topDepth topLength = .ok r) :
    TreeSettled mode topDepth topLength s.segments r.segments := by
  cases mode with
  | incremental => exact treeSettled_of_buildIncremental hs h
  | absolute => exact treeSettled_of_buildAbsolute hs (hready rfl) h

/-- Records of absolute nodes give ready segments. -/
theorem ready_of_mem_described
    (hcheck : ∀ record ∈ d.records, record.check d.header.well d.header.mode = .ok ())
    (hmode : d.header.mode = .absolute) (ht : t ∈ (described d).segments)
    (hn : t.number ≠ topNumber) : t.ready = true := by
  rcases cases_of_mem_described hcheck ht with rfl | ⟨-, record, hrecord, heq⟩
  · exact absurd rfl hn
  · obtain ⟨hmem, hfirst, hlast⟩ := TreeDefinition.mem_and_covers_of_recordOf? hrecord
    rw [heq, hmode]
    exact RangeRecord.ready_of_check (hmode ▸ hcheck record hmem) hfirst hlast

/-- Linking keeps the marks. -/
theorem ready_of_mem_linked {linked : SegmentSet}
    (hcheck : ∀ record ∈ d.records, record.check d.header.well d.header.mode = .ok ())
    (hlink : (described d).linkInlets = .ok linked) (hmode : d.header.mode = .absolute)
    (ht : t ∈ linked.segments) (hn : t.number ≠ topNumber) : t.ready = true := by
  obtain ⟨t₀, ht₀, heq⟩ := exists_of_forall₂ (forall₂_of_linkInlets hlink).flip ht
  have hn₀ : t₀.number = t.number := by rw [heq]
  have hready : t.ready = t₀.ready := by rw [heq]
  rw [hready]
  exact ready_of_mem_described hcheck hmode ht₀ (hn₀ ▸ hn)

/-- The set is built of what a definition describes; whether it passes the check is left
open. -/
def BuiltOf (d : TreeDefinition) (r : SegmentSet) : Prop :=
  ∃ linked, (described d).linkInlets = .ok linked ∧
    linked.build d.header.mode d.header.top.depth d.header.top.length = .ok r

namespace BuiltOf

/-- What is built has an exact position map. -/
theorem indexed (h : BuiltOf d r) : r.Indexed := by
  obtain ⟨linked, hlink, hbuild⟩ := h
  exact ((indexed_described d).linkInlets hlink).build hbuild

/-- What is built is in order. -/
theorem inOrder (h : BuiltOf d r) : InOrder r.segments := by
  obtain ⟨linked, hlink, hbuild⟩ := h
  exact inOrder_of_build ((indexed_described d).linkInlets hlink) hbuild

/-- The same numbers are stored. -/
theorem numbers (h : BuiltOf d r) : r.numbers.Perm (described d).numbers := by
  obtain ⟨linked, hlink, hbuild⟩ := h
  obtain ⟨q, hq, hr⟩ := build_eq_ok.1 hbuild
  have hlinked : linked.numbers = (described d).numbers :=
    numbers_eq_of_links (links_of_linkInlets hlink).1
  have hbuilt : r.numbers = q.numbers := numbers_eq_of_links (links_of_linkInlets hr).1
  rw [hbuilt, ← hlinked]
  exact (exists_settledFrom_of_resolve ((indexed_described d).linkInlets hlink) hq).1

/-- What is built of a definition is settled from the segments that it describes. -/
theorem treeSettled (h : BuiltOf d r)
    (hcheck : ∀ record ∈ d.records, record.check d.header.well d.header.mode = .ok ()) :
    TreeSettled d.header.mode d.header.top.depth d.header.top.length (described d).segments
      r.segments := by
  obtain ⟨linked, hlink, hbuild⟩ := h
  have hsettled := treeSettled_of_build ((indexed_described d).linkInlets hlink)
    (fun hmode _ => ready_of_mem_linked hcheck hlink hmode) hbuild
  exact hsettled.of_forall₂ (forall₂_of_linkInlets hlink)

end BuiltOf

/-- A loaded set is a built one, marked as resolved. -/
theorem exists_builtOf_of_load (h : (s.load d options).outcome = .ok r) :
    ∃ built, BuiltOf d built ∧ (built.check options).outcome = .ok () ∧
      r = { built with resolved := true } := by
  obtain ⟨-, -, linked, hlink, hprocess⟩ := load_eq_ok.1 h
  obtain ⟨built, hbuild, hcheck, heq⟩ := process_eq_ok.1 hprocess
  exact ⟨built, ⟨linked, hlink, hbuild⟩, hcheck, heq⟩

end SegmentSet
end MultiSegmentWell
