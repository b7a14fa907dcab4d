/-
# Options decide nothing

SPEC_FULL.md, 4.5: units of display and tolerance; 10: their defaults.

Options are read in one place: where a segment that was checked and has a length turns out to
be steep, which is worth a finding but no reason to stop. So two runs with different options
come to the same outcome, and they differ in findings about steep segments at most. If only
the units differ, so do only the units in which these findings show lengths.

Both are one argument. Each of the two runs has its findings looked at in its own way, where
looking at a finding may change it or leave it out. Outcomes that are the same, with findings
that look the same (`SeenAlike`), stay so behind every step that is taken in both runs
(`SeenAlike.bind`). So it is enough that the two ways agree on the findings about one segment
(`Indifferent`), and loading and building are seen alike (`Indifferent.load`,
`Indifferent.build`).
-/

import MultiSegmentWell.Deck.Building
import MultiSegmentWell.Proofs.Tree.Findings

namespace MultiSegmentWell

namespace Finding

/-- Whether the finding is about a steep segment. -/
def isSteep : Finding → Bool
  | steepSegment .. => true
  | _ => false

/-- The finding with its lengths in other units, if it shows any. -/
def inUnits (units : UnitSystem) : Finding → Finding
  | steepSegment well number _ depthChange length =>
    steepSegment well number units depthChange length
  | other => other

/-- Only findings about steep segments show units. -/
theorem inUnits_of_not_isSteep {units : UnitSystem} {f : Finding} (h : f.isSteep = false) :
    f.inUnits units = f := by
  cases f with
  | steepSegment => cases h
  | _ => rfl

end Finding

namespace Reported

variable {ε α β : Type} {look look' : Finding → Option Finding}

/-- The same outcome, its findings with lengths in other units. -/
def inUnits (units : UnitSystem) (r : Reported ε α) : Reported ε α :=
  ⟨r.findings.map (Finding.inUnits units), r.outcome⟩

/-- The same outcome, and the same findings but for those about steep segments. -/
structure SameButSteep (r r' : Reported ε α) : Prop where
  outcome : r'.outcome = r.outcome
  findings : (r'.findings.filter fun f => !f.isSteep) = r.findings.filter fun f => !f.isSteep

/-- The same outcome, and findings that are the same when those of either side are looked at in
their own way. -/
structure SeenAlike (look look' : Finding → Option Finding) (r r' : Reported ε α) : Prop where
  outcome : r'.outcome = r.outcome
  findings : r'.findings.filterMap look' = r.findings.filterMap look

/-- What reports nothing that the two ways see differently is seen alike from both sides. -/
theorem seenAlike_self {r : Reported ε α} (h : ∀ f ∈ r.findings, look' f = look f) :
    SeenAlike look look' r r :=
  ⟨rfl, List.filterMap_congr h⟩

/-- A step without findings is seen alike. -/
theorem seenAlike_ofExcept (x : Except ε α) :
    SeenAlike look look' (ofExcept x) (ofExcept x) :=
  seenAlike_self fun _ hf => absurd hf List.not_mem_nil

/-- **Steps that are seen alike one by one are seen alike in turn.** -/
theorem SeenAlike.bind {r r' : Reported ε α} {next next' : α → Reported ε β}
    (h : SeenAlike look look' r r') (hnext : ∀ a, SeenAlike look look' (next a) (next' a)) :
    SeenAlike look look' (r >>= next) (r' >>= next') := by
  cases hr : r.outcome with
  | error e =>
    have hr' : r'.outcome = .error e := h.outcome.trans hr
    constructor
    · rw [outcome_bind_of_error hr, outcome_bind_of_error hr']
    · rw [findings_bind_of_error hr, findings_bind_of_error hr', h.findings]
  | ok a =>
    have hr' : r'.outcome = .ok a := h.outcome.trans hr
    constructor
    · rw [outcome_bind_of_ok hr, outcome_bind_of_ok hr', (hnext a).outcome]
    · rw [findings_bind_of_ok hr, findings_bind_of_ok hr', List.filterMap_append,
        List.filterMap_append, h.findings, (hnext a).findings]

/-- Findings about steep segments are left out on both sides. -/
theorem SeenAlike.sameButSteep {r r' : Reported ε α}
    (h : SeenAlike (Option.guard fun f => !f.isSteep) (Option.guard fun f => !f.isSteep) r r') :
    SameButSteep r r' := by
  refine ⟨h.outcome, ?_⟩
  have hfindings := h.findings
  rwa [List.filterMap_eq_filter] at hfindings

/-- One side is looked at as it is, the other with lengths in other units. -/
theorem SeenAlike.eq_inUnits {units : UnitSystem} {r r' : Reported ε α}
    (h : SeenAlike (fun f => some (f.inUnits units)) some r r') : r' = r.inUnits units := by
  obtain ⟨findings, outcome⟩ := r
  obtain ⟨findings', outcome'⟩ := r'
  obtain ⟨houtcome, hfindings⟩ := h
  simp only [List.filterMap_some, List.filterMap_eq_map'] at hfindings houtcome
  rw [inUnits, houtcome, hfindings]

end Reported

open Reported SegmentSet

/-- Two ways to look at findings that see the same of every segment, each under its own options. -/
structure Indifferent (options options' : Options) (look look' : Finding → Option Finding) :
    Prop where
  /-- Findings that are not about steep segments are the same for both. -/
  other : ∀ f : Finding, f.isSteep = false → look' f = look f
  steep : ∀ (s : SegmentSet) (number : Int) (length depthChange : Float),
    (s.steepFindings options' number length depthChange).filterMap look'
      = (s.steepFindings options number length depthChange).filterMap look

/-- A segment may be steep under one of the options only, so findings about it are left out. -/
theorem indifferent_to_steep (options options' : Options) :
    Indifferent options options' (Option.guard fun f => !f.isSteep)
      (Option.guard fun f => !f.isSteep) := by
  have hnone : ∀ (o : Options) (s : SegmentSet) (n : Int) (length change : Float),
      (s.steepFindings o n length change).filter (fun f => !f.isSteep) = [] := by
    intro o s n length change
    unfold steepFindings
    split_ifs <;> rfl
  refine ⟨fun _ _ => rfl, fun s n length change => ?_⟩
  rw [List.filterMap_eq_filter, hnone, hnone]

/-- Whether a segment is steep does not depend on the units. -/
theorem indifferent_to_units (options : Options) (units : UnitSystem) :
    Indifferent options { options with units } (fun f => some (f.inUnits units)) some := by
  constructor
  · intro f hf
    rw [Finding.inUnits_of_not_isSteep hf]
  · intro s n length change
    unfold steepFindings
    split_ifs <;> rfl

namespace Indifferent

variable {options options' : Options} {look look' : Finding → Option Finding}
variable (h : Indifferent options options' look look')
include h

/-- Segments are refused for their lengths alone, under all options the same. -/
theorem checkSegments (s : SegmentSet) (segments : List Segment) :
    SeenAlike look look' (s.checkSegments options segments)
      (s.checkSegments options' segments) := by
  induction segments with
  | nil => exact seenAlike_ofExcept _
  | cons t rest ih =>
    unfold SegmentSet.checkSegments
    split_ifs with hn
    · exact ih
    · cases s.extent t.number with
      | error e => exact seenAlike_ofExcept _
      | ok extent => exact SeenAlike.bind ⟨rfl, h.steep s t.number _ _⟩ fun _ => ih

/-- Processing with other options is seen alike. -/
theorem process (s : SegmentSet) (mode : GeometryMode) (topDepth topLength : Float) :
    SeenAlike look look' (s.process mode topDepth topLength options)
      (s.process mode topDepth topLength options') := by
  refine (seenAlike_ofExcept _).bind fun built => ?_
  refine (h.checkSegments built built.segments).bind fun _ => ?_
  refine SeenAlike.bind (seenAlike_self fun f hf => ?_) fun _ => seenAlike_ofExcept _
  obtain rfl := List.mem_singleton.1 hf
  exact h.other _ rfl

/-- Expanding records reads no options, and nothing that it reports is about steep segments. -/
theorem addRecords (s : SegmentSet) (mode : GeometryMode) (records : List RangeRecord) :
    SeenAlike look look' (s.addRecords mode records) (s.addRecords mode records) := by
  refine seenAlike_self fun f hf => h.other f ?_
  rw [findings_addRecords] at hf
  obtain ⟨r, -, rfl⟩ := List.mem_map.1 hf
  rfl

/-- **Loading with other options is seen alike.** -/
theorem load (s : SegmentSet) (d : TreeDefinition) :
    SeenAlike look look' (s.load d options) (s.load d options') := by
  unfold SegmentSet.load
  split_ifs
  · exact seenAlike_ofExcept _
  · refine (h.addRecords _ _ _).bind fun full => ?_
    refine (seenAlike_ofExcept full.linkInlets).bind fun linked => ?_
    exact h.process linked _ _ _

/-- **Building with other options is seen alike.** -/
theorem build (input : WellInput) :
    SeenAlike look look' (input.build options) (input.build options') :=
  (h.load {} input.definition).bind fun s => seenAlike_ofExcept (input.complete s)

end Indifferent

/-- **Options only affect what is reported.**  Loading a tree under other options fails for the
same reason or gives the same set, and all findings but those about steep segments are the
same; so are the segments and connections of every well that is built. Where only the units
are other ones, the findings about steep segments are about the same segments as well, in the
same order and with the same values, which are shown in those units. -/
theorem sameButSteep_and_eq_inUnits (s : SegmentSet) (d : TreeDefinition) (input : WellInput)
    (options options' : Options) :
    (SameButSteep (s.load d options) (s.load d options') ∧
      SameButSteep (input.build options) (input.build options')) ∧
    ∀ units : UnitSystem,
      s.load d { options with units } = (s.load d options).inUnits units ∧
        input.build { options with units } = (input.build options).inUnits units := by
  have hsteep := indifferent_to_steep options options'
  refine ⟨⟨(hsteep.load s d).sameButSteep, (hsteep.build input).sameButSteep⟩, fun units => ?_⟩
  have hunits := indifferent_to_units options units
  exact ⟨(hunits.load s d).eq_inUnits, (hunits.build input).eq_inUnits⟩

end MultiSegmentWell
