/-
# When the order of records decides

SPEC_FULL.md, 4.2 and 4.3: records in another order.

Records with disjoint ranges that can be loaded in one order can be loaded in every other
one, unless ordering then comes upon two segments that continue a branch which is entered
twice (`load_iff_load_of_perm`). So the order of records decides nothing where every branch
is entered at one segment at most.

All steps but ordering go through in any order: the same records are checked, the same
outlets are stored, and what is built holds the same nodes, so the check finds the same
lengths (`check_of_same_layouts`).

A branch that is entered twice is accepted or not as the records come
(`acceptance_depends_on_order`): two segments that enter it are ambiguous only where a
segment of the branch was placed last.
-/

import MultiSegmentWell.Proofs.Order.Entries
import MultiSegmentWell.Proofs.Tree.Orderable
import MultiSegmentWell.Proofs.Tree.RecordOrder

namespace MultiSegmentWell
namespace SegmentSet

variable {s q r ordered : SegmentSet} {d : TreeDefinition} {header : Header}
variable {records records' : List RangeRecord} {e : SegmentError}
variable {mode : GeometryMode} {topDepth topLength : Float} {options : Options}

section Wells

/-- Ordering keeps the name of the well. -/
theorem well_of_order (h : s.order = .ok r) : r.well = s.well := by
  rw [order] at h
  split at h
  · cases h
  · rw [← Except.ok.inj h]
    rfl

/-- Resolving keeps the name of the well. -/
theorem well_of_resolve (h : s.resolve mode topDepth topLength = .ok r) : r.well = s.well := by
  cases mode with
  | incremental =>
    obtain ⟨t, ordered, -, hordered, h⟩ := resolveIncremental_eq_ok.1 h
    have hwell := (well_of_order hordered).trans (s.add_well _)
    split at h
    · rw [h, hwell]
    · obtain ⟨settled, -, rfl⟩ := h
      exact hwell
  | absolute =>
    obtain ⟨ordered, hordered, h⟩ := resolveAbsolute_eq_ok.1 h
    have hwell := well_of_order hordered
    split at h
    · rw [h, hwell]
    · obtain ⟨settled, filled, -, -, rfl⟩ := h
      exact hwell

/-- Linking keeps the name of the well. -/
theorem well_of_linkInlets (h : s.linkInlets = .ok r) : r.well = s.well := by
  obtain ⟨-, rfl⟩ := linkInlets_eq_ok.1 h
  rfl

/-- The described set has the name in the header. -/
theorem described_well (d : TreeDefinition) : (described d).well = d.header.well := by
  simp only [described, ofHeader, addAll_well, add_well]

/-- What is built of a definition belongs to the well that it names. -/
theorem BuiltOf.well_eq (h : BuiltOf d r) : r.well = d.header.well := by
  obtain ⟨linked, hlink, hbuild⟩ := h
  obtain ⟨q, hq, hr⟩ := build_eq_ok.1 hbuild
  rw [well_of_linkInlets hr, well_of_resolve hq, well_of_linkInlets hlink, described_well]

end Wells

section Checking

variable (hs : s.Indexed) (hr : r.Indexed) (hwell : r.well = s.well)
variable (hnumbers : r.numbers.Perm s.numbers)
variable (hsame : ∀ t ∈ s.segments, ∀ u ∈ r.segments, u.number = t.number → u.layout = t.layout)
include hs hr hwell hnumbers hsame

/-- Sets that store the same layouts find the same under each number. -/
theorem layout_get_of_same_layouts (n : Int) :
    Segment.layout <$> r.get n = Segment.layout <$> s.get n := by
  by_cases hn : n ∈ s.numbers
  · obtain ⟨t, ht, htn, hget⟩ := hs.exists_get hn
    obtain ⟨u, hu, hun, hgot⟩ := hr.exists_get (hnumbers.mem_iff.2 hn)
    rw [hget, hgot]
    exact congrArg Except.ok (hsame t ht u hu (hun.trans htn.symm))
  · have hnot : n ∉ r.numbers := fun hmem => hn (hnumbers.mem_iff.1 hmem)
    rw [hs.get_of_not_mem hn, hr.get_of_not_mem hnot, hwell]

/-- **Whether a set passes the check is told by its layouts**, in whatever order they are
stored. -/
theorem check_of_same_layouts (h : (s.check options).outcome = .ok ()) :
    (r.check options).outcome = .ok () := by
  refine checkSegments_eq_ok.2 fun u hu hn => ?_
  obtain ⟨t, ht, htn⟩ := List.mem_map.1 (hnumbers.mem_iff.1 (List.mem_map_of_mem hu))
  rw [extent_congr hwell (layout_get_of_same_layouts hs hr hwell hnumbers hsame), ← htn]
  exact exists_extent_of_check h t ht (htn ▸ hn)

end Checking

/-- Whether inlets can be linked does not depend on the storage order. -/
theorem exists_linkInlets_of_perm (hs : s.Indexed) (hr : r.Indexed)
    (hperm : r.segments.Perm s.segments) (h : ∃ q, s.linkInlets = .ok q) :
    ∃ q, r.linkInlets = .ok q := by
  rw [exists_linkInlets_iff] at h ⊢
  intro t ht hpos
  have hstored := hs.contains_iff.1 (h t (hperm.mem_iff.1 ht) hpos)
  exact hr.contains_iff.2 ((hperm.map Segment.number).mem_iff.2 hstored)

/-- Behind checks and links, loading is processing. -/
theorem outcome_load_of_linkInlets (hnew : s.resolved = false) (hempty : s.isEmpty = true)
    (hcheck : ∀ record ∈ d.records, record.check d.header.well d.header.mode = .ok ())
    (hlink : (described d).linkInlets = .ok q) :
    (s.load d options).outcome
      = (q.process d.header.mode d.header.top.depth d.header.top.length options).outcome := by
  have hfull := addRecords_ofHeader_eq_ok.2 ⟨hcheck, rfl⟩
  unfold load
  rw [if_neg (by simp [hnew, hempty]), ofDefinition, Reported.outcome_bind_of_ok hfull]
  exact Reported.outcome_bind_of_ok hlink

section Loading

variable (hcheck : ∀ record ∈ d.records, record.check d.header.well d.header.mode = .ok ())

/-- What is loaded can be ordered as it is described. -/
theorem exists_order_described_of_load (h : (s.load d options).outcome = .ok r) :
    ∃ ordered, (described d).order = .ok ordered := by
  obtain ⟨-, -, linked, hlink, hprocess⟩ := load_eq_ok.1 h
  obtain ⟨built, hbuild, -, -⟩ := process_eq_ok.1 hprocess
  obtain ⟨q, hq, -⟩ := build_eq_ok.1 hbuild
  have hs := indexed_described d
  have horder := exists_order_of_resolve (hs.linkInlets hlink) hq
  rw [eq_withInlets_of_linkInlets hs hlink, withInlets] at horder
  exact (exists_order_recast_iff (Segment.withInlets_link _) _ _ _).1 horder

include hcheck

/-- **What a definition describes is built if it can be ordered.** -/
theorem exists_build_of_order (hlink : (described d).linkInlets = .ok q)
    (h : (described d).order = .ok ordered) :
    ∃ built, q.build d.header.mode d.header.top.depth d.header.top.length = .ok built := by
  have hs := indexed_described d
  have hlinked := eq_withInlets_of_linkInlets hs hlink
  obtain ⟨o, ho⟩ : ∃ o, q.order = .ok o := by
    rw [hlinked]
    exact (exists_order_recast_iff (Segment.withInlets_link _) _ _ _).2 ⟨ordered, h⟩
  obtain ⟨resolved, hresolved⟩ := exists_resolve_of_order (hs.linkInlets hlink)
    (fun hmode _ => ready_of_mem_linked hcheck hlink hmode) ho
  have hagain : ∃ p, q.linkInlets = .ok p := by
    rw [hlinked]
    exact (exists_linkInlets_withInlets_iff _ _ _).2 ⟨q, hlink⟩
  obtain ⟨built, hbuilt⟩ :=
    (exists_linkInlets_iff_of_resolve (hs.linkInlets hlink) hresolved).2 hagain
  exact ⟨built, build_eq_ok.2 ⟨resolved, hresolved, hbuilt⟩⟩

/-- **Loading fails where what is described cannot be ordered**, for the same reason. -/
theorem load_eq_error_of_order (hnew : s.resolved = false) (hempty : s.isEmpty = true)
    (hlink : (described d).linkInlets = .ok q) (h : (described d).order = .error e) :
    (s.load d options).outcome = .error e := by
  have hs := indexed_described d
  have horder : q.order = .error e := by
    rw [eq_withInlets_of_linkInlets hs hlink]
    exact order_recast_eq_error (Segment.withInlets_link _) _ _ _ h
  have htop : topNumber ∈ q.numbers := by
    rw [numbers, numbers_eq_of_links (links_of_linkInlets hlink).1, ← numbers,
      numbers_described hcheck]
    exact List.mem_cons_self
  have hresolve : q.resolve d.header.mode d.header.top.depth d.header.top.length = .error e :=
    resolve_eq_error_of_order (hs.linkInlets hlink) htop horder
  have hbuild : q.build d.header.mode d.header.top.depth d.header.top.length = .error e := by
    unfold build
    rw [hresolve]
    rfl
  rw [outcome_load_of_linkInlets hnew hempty hcheck hlink, process]
  exact Reported.outcome_bind_of_error hbuild

end Loading

/-- **Records that can be loaded can be loaded in every order**, or ordering comes upon a
branch that is entered twice. -/
theorem load_or_ambiguous_of_perm (hperm : records'.Perm records)
    (hdisjoint : DisjointRanges records)
    (h : (s.load ⟨header, records⟩ options).outcome = .ok r) :
    (∃ r', (s.load ⟨header, records'⟩ options).outcome = .ok r') ∨
      ∃ branch first second, (s.load ⟨header, records'⟩ options).outcome
          = .error (.ambiguousOutlet header.well branch first second) ∧
        EnteredTwice (described ⟨header, records⟩).segments branch := by
  obtain ⟨⟨hnew, hempty⟩, hcheck, linked, hlink, -⟩ := load_eq_ok.1 h
  have hcheck' : ∀ record ∈ records', record.check header.well header.mode = .ok () :=
    fun record hrecord => hcheck record (hperm.mem_iff.1 hrecord)
  have hs := indexed_described ⟨header, records⟩
  have hs' := indexed_described ⟨header, records'⟩
  have hsegments : (described ⟨header, records'⟩).segments.Perm
      (described ⟨header, records⟩).segments := described_perm hdisjoint hperm
  obtain ⟨linked', hlink'⟩ := exists_linkInlets_of_perm hs hs' hsegments ⟨linked, hlink⟩
  obtain ⟨ordered, hordered⟩ := exists_order_described_of_load h
  rcases order_of_perm hs hs' hsegments hordered with
    ⟨ordered', hordered'⟩ | ⟨branch, first, second, hambiguous, htwice⟩
  · obtain ⟨built, hbuilt, hpassed, rfl⟩ := exists_builtOf_of_load h
    obtain ⟨built', hbuild'⟩ := exists_build_of_order hcheck' hlink' hordered'
    have hbuilt' : BuiltOf ⟨header, records'⟩ built' := ⟨linked', hlink', hbuild'⟩
    have hnumbers := hbuilt.numbers_of_perm hbuilt' hdisjoint hperm
    have hpassed' : (built'.check options).outcome = .ok () := by
      refine check_of_same_layouts hbuilt.indexed hbuilt'.indexed
        (hbuilt'.well_eq.trans hbuilt.well_eq.symm) hnumbers (fun t ht u hu hn => ?_) hpassed
      rw [hbuilt.eq_of_perm hbuilt' hcheck hdisjoint hperm ht hu hn]
      rfl
    refine .inl ⟨{ built' with resolved := true }, ?_⟩
    rw [outcome_load_of_linkInlets hnew hempty hcheck' hlink']
    exact process_eq_ok.2 ⟨built', hbuild', hpassed', rfl⟩
  · refine .inr ⟨branch, first, second, ?_, htwice.of_perm hsegments⟩
    rw [described_well] at hambiguous
    exact load_eq_error_of_order hcheck' hnew hempty hlink' hambiguous

/-- **Record order decides acceptance only where a branch is entered twice.**  Records with
disjoint ranges that can be loaded can also be loaded in any other order, or loading is then
given up as ambiguous on a branch with two segments that enter it, as the top segment or
from another branch. So where no branch is entered twice, records can be loaded in one
order if and only if they can be in another. -/
theorem load_iff_load_of_perm (hperm : records'.Perm records)
    (hdisjoint : DisjointRanges records) (s : SegmentSet) (header : Header) (options : Options) :
    (∀ r, (s.load ⟨header, records⟩ options).outcome = .ok r →
      (∃ r', (s.load ⟨header, records'⟩ options).outcome = .ok r') ∨
        ∃ branch first second, (s.load ⟨header, records'⟩ options).outcome
            = .error (.ambiguousOutlet header.well branch first second) ∧
          EnteredTwice (described ⟨header, records⟩).segments branch) ∧
      ((∀ branch, ¬ EnteredTwice (described ⟨header, records⟩).segments branch) →
        ((∃ r, (s.load ⟨header, records⟩ options).outcome = .ok r) ↔
          ∃ r', (s.load ⟨header, records'⟩ options).outcome = .ok r')) := by
  refine ⟨fun r h => load_or_ambiguous_of_perm hperm hdisjoint h, fun hone => ⟨?_, ?_⟩⟩
  · rintro ⟨r, h⟩
    rcases load_or_ambiguous_of_perm hperm hdisjoint h with hok | ⟨branch, _, _, -, htwice⟩
    · exact hok
    · exact absurd htwice (hone branch)
  · rintro ⟨r', h'⟩
    have hback := load_or_ambiguous_of_perm hperm.symm (hdisjoint.of_perm hperm) h'
    rcases hback with hok | ⟨branch, _, _, -, htwice⟩
    · exact hok
    · exact absurd (htwice.of_perm (described_perm hdisjoint hperm)) (hone branch)

/-- A segment of its own, on a branch and behind an outlet. -/
def singleRecord (number branch join : Int) : RangeRecord where
  first := number
  last := number
  branch := branch
  join := join
  node := ⟨10.0, 5.0, 0.0, 0.0⟩
  diameter := 0.2
  roughness := 1.0e-4

/-- A branch that is entered from the top segment twice and once more from a side branch. -/
def reentered : TreeDefinition where
  header := { well := "W", top := ⟨100.0, 1000.0, 0.0, 0.0⟩, volume := 1.0, mode := .incremental }
  records := [singleRecord 2 2 1, singleRecord 3 2 1, singleRecord 4 3 1, singleRecord 5 2 4]

/-- The same records with the side branch first. -/
def reenteredLate : TreeDefinition :=
  { reentered with
    records := [singleRecord 4 3 1, singleRecord 5 2 4, singleRecord 2 2 1, singleRecord 3 2 1] }

/-- Both definitions have the same records. -/
theorem reenteredLate_perm : reenteredLate.records.Perm reentered.records := by
  decide +kernel

/-- **The order of records can decide acceptance.**  Of the same records one order is loaded:
neither segment that enters branch 2 at the top one lies on the branch placed last, so the
first is taken. The other is refused: segment 5 of branch 2 is placed by then, and both
continue it. -/
theorem acceptance_depends_on_order :
    reenteredLate.header = reentered.header ∧ reenteredLate.records.Perm reentered.records ∧
      DisjointRanges reentered.records ∧
      (({} : SegmentSet).load reenteredLate {}).outcome
        = .error (.ambiguousOutlet "W" 2 2 3) ∧
      ¬ ((∃ r, (({} : SegmentSet).load reentered {}).outcome = .ok r) ↔
        ∃ r', (({} : SegmentSet).load reenteredLate {}).outcome = .ok r') := by
  have hrefused : (({} : SegmentSet).load reenteredLate {}).outcome
      = .error (.ambiguousOutlet "W" 2 2 3) := by
    decide +kernel
  have hloaded : (({} : SegmentSet).load reentered {}).outcome.isOk = true := by decide +kernel
  refine ⟨rfl, reenteredLate_perm, by decide +kernel, hrefused, fun hiff => ?_⟩
  obtain ⟨r', hr'⟩ := hiff.1 (exists_of_isOk hloaded)
  rw [hrefused] at hr'
  cases hr'

/-- No branch of the trident is entered twice. -/
theorem not_enteredTwice_trident (branch : Int) :
    ¬ EnteredTwice (described trident).segments branch := by
  have hpairs : ∀ t ∈ (described trident).segments, ∀ u ∈ (described trident).segments, t ≠ u →
      t.branch = u.branch → ¬ (Enters (described trident).segments t ∧
        Enters (described trident).segments u) := by
    decide +kernel
  rintro ⟨t, ht, u, hu, hne, ⟨htb, hte⟩, hub, hue⟩
  exact hpairs t ht u hu hne (htb.trans hub.symm) ⟨hte, hue⟩

/-- The trident, of which no branch is entered twice, is loaded in reverse as well; the definition
that is refused in one order has a branch that is entered twice. -/
theorem load_iff_load_of_perm_trident :
    (trident.records.reverse.Perm trident.records ∧ DisjointRanges trident.records ∧
      (∀ branch, ¬ EnteredTwice (described trident).segments branch) ∧
      ∃ r', (({} : SegmentSet).load ⟨trident.header, trident.records.reverse⟩ {}).outcome
        = .ok r') ∧
      ∃ branch, EnteredTwice (described reentered).segments branch := by
  have hperm : trident.records.reverse.Perm trident.records := List.reverse_perm _
  have hdisjoint : DisjointRanges trident.records := by decide +kernel
  have hiff := (load_iff_load_of_perm hperm hdisjoint {} trident.header {}).2
    not_enteredTwice_trident
  have hloaded : (({} : SegmentSet).load trident {}).outcome.isOk = true := by decide +kernel
  refine ⟨⟨hperm, hdisjoint, not_enteredTwice_trident, hiff.1 (exists_of_isOk hloaded)⟩, ?_⟩
  -- The order that is refused names a branch that is entered twice.
  have hreentered : DisjointRanges reentered.records := by decide +kernel
  obtain ⟨r, hr⟩ := exists_of_isOk
    (show (({} : SegmentSet).load reentered {}).outcome.isOk = true by decide +kernel)
  have hends := (load_iff_load_of_perm reenteredLate_perm hreentered {} reentered.header {}).1 r hr
  have hrefused : (({} : SegmentSet).load ⟨reentered.header, reenteredLate.records⟩ {}).outcome.isOk
      = false := by
    decide +kernel
  rcases hends with ⟨r', hr'⟩ | ⟨branch, _, _, -, htwice⟩
  · rw [hr'] at hrefused
    cases hrefused
  · exact ⟨branch, htwice⟩

end SegmentSet
end MultiSegmentWell
