/-
# Decks read back from JSON

SPEC_FULL.md, 8: round trip of deck descriptions.

A deck is written as a value from which it is read back (`read_toJson`), field by field and
entry by entry: what is left out is read as absent or as its default, and the shared data of an
inflow control device is found among the fields of the entry that it is merged into
(`AutonomousIcdEntry.read_toJson`). If all numbers of the deck are finite, the value is one that
formats read back when they have written it (`TextFormats.Lawful`, `isTree_toJson`), and so the
deck is read back from its text (`parse_print`).

The numbers of a deck are collected in `integers` and `reals`; the integers are those of 32
bits, as they are wherever a deck comes from.
-/

import MultiSegmentWell.Deck.File
import MultiSegmentWell.Proofs.Deck.Fields
import MultiSegmentWell.Proofs.Deck.Validation
import MultiSegmentWell.Proofs.Json.Values

namespace MultiSegmentWell
namespace Deck

open Json (IsTree)

/-- Integers of 32 bits and finite numbers. -/
structure Representable (integers : List Int) (reals : List Float) : Prop where
  integers : ∀ n ∈ integers, IsInt32 n
  reals : ∀ x ∈ reals, x.isFinite = true

/-- Numbers of two lists are representable if those of each are. -/
theorem representable_append {ns ms : List Int} {xs ys : List Float} :
    Representable (ns ++ ms) (xs ++ ys) ↔ Representable ns xs ∧ Representable ms ys := by
  constructor
  · rintro ⟨hi, hr⟩
    rw [List.forall_mem_append] at hi hr
    exact ⟨⟨hi.1, hr.1⟩, ⟨hi.2, hr.2⟩⟩
  · rintro ⟨h₁, h₂⟩
    exact ⟨List.forall_mem_append.2 ⟨h₁.integers, h₂.integers⟩,
      List.forall_mem_append.2 ⟨h₁.reals, h₂.reals⟩⟩

/-- The numbers of a list of entries are representable if those of every entry are. -/
theorem representable_flatMap {α : Type} {entries : List α} {integers : α → List Int}
    {reals : α → List Float} : Representable (entries.flatMap integers) (entries.flatMap reals) ↔
      ∀ e ∈ entries, Representable (integers e) (reals e) := by
  constructor
  · rintro ⟨hi, hr⟩ e he
    exact ⟨fun n hn => hi n (List.mem_flatMap.2 ⟨e, he, hn⟩),
      fun x hx => hr x (List.mem_flatMap.2 ⟨e, he, hx⟩)⟩
  · intro h
    constructor
    · intro n hn
      obtain ⟨e, he, hn⟩ := List.mem_flatMap.1 hn
      exact (h e he).integers n hn
    · intro x hx
      obtain ⟨e, he, hx⟩ := List.mem_flatMap.1 hx
      exact (h e he).reals x hx

section Numbers

/-- The segment numbers and the branch of a range. -/
def RangeEntry.integers (r : RangeEntry) : List Int := [r.first, r.last, r.branch, r.join]

/-- The measures of a range. -/
def RangeEntry.reals (r : RangeEntry) : List Float :=
  [r.length, r.depth, r.diameter, r.roughness, r.x, r.y] ++ r.area.toList ++ r.volume.toList

/-- The integers of a segment tree. -/
def TreeEntry.integers (t : TreeEntry) : List Int := t.records.flatMap RangeEntry.integers

/-- The measures of a segment tree. -/
def TreeEntry.reals (t : TreeEntry) : List Float :=
  [t.topDepth, t.topLength, t.volume, t.topX, t.topY] ++ t.records.flatMap RangeEntry.reals

/-- The segment and the method of an inflow control device. -/
def IcdEntry.integers (d : IcdEntry) : List Int := d.segment :: d.method.toList

/-- The data that inflow control devices share. -/
def IcdEntry.reals (d : IcdEntry) : List Float :=
  [d.strength, d.length] ++ d.densityCalibration.toList ++ d.viscosityCalibration.toList ++
    d.criticalValue.toList ++ d.widthTransition.toList ++ d.maxViscosityRatio.toList ++
    d.maxAbsoluteRate.toList

/-- The integers of an autonomous inflow control device. -/
def AutonomousIcdEntry.integers (d : AutonomousIcdEntry) : List Int := d.icd.integers

/-- The data of an autonomous inflow control device. -/
def AutonomousIcdEntry.reals (d : AutonomousIcdEntry) : List Float :=
  d.icd.reals ++ [d.flowRateExponent, d.viscosityExponent] ++ d.oilFlowFraction.toList ++
    d.waterFlowFraction.toList ++ d.gasFlowFraction.toList ++ d.oilViscosityFraction.toList ++
    d.waterViscosityFraction.toList ++ d.gasViscosityFraction.toList

/-- The segment of a valve. -/
def ValveEntry.integers (v : ValveEntry) : List Int := [v.segment]

/-- The data of a valve. -/
def ValveEntry.reals (v : ValveEntry) : List Float :=
  [v.flowCoefficient, v.crossArea] ++ v.additionalLength.toList ++ v.pipeDiameter.toList ++
    v.pipeRoughness.toList ++ v.pipeCrossArea.toList ++ v.maxCrossArea.toList

/-- The branch and the segment of a connection. -/
def ConnectionEntry.integers (c : ConnectionEntry) : List Int := c.branch :: c.segment.toList

/-- The ends of a connection and its depth. -/
def ConnectionEntry.reals (c : ConnectionEntry) : List Float :=
  [c.start, c.finish] ++ c.centerDepth.toList

/-- The integers of a well. -/
def WellEntry.integers (w : WellEntry) : List Int :=
  w.tree.integers ++ w.spiralIcds.flatMap IcdEntry.integers ++
    w.autonomousIcds.flatMap AutonomousIcdEntry.integers ++
    w.valves.flatMap ValveEntry.integers ++ w.connections.flatMap ConnectionEntry.integers

/-- The numbers of a well. -/
def WellEntry.reals (w : WellEntry) : List Float :=
  w.tree.reals ++ w.spiralIcds.flatMap IcdEntry.reals ++
    w.autonomousIcds.flatMap AutonomousIcdEntry.reals ++ w.valves.flatMap ValveEntry.reals ++
    w.connections.flatMap ConnectionEntry.reals

/-- The integers of a deck. -/
def integers (d : Deck) : List Int := d.wells.flatMap WellEntry.integers

/-- The numbers of a deck that are no integers. -/
def reals (d : Deck) : List Float := d.wells.flatMap WellEntry.reals

variable {t : TreeEntry} {d : AutonomousIcdEntry}

/-- The numbers of each range are among those of the tree. -/
theorem Representable.records (h : Representable t.integers t.reals) :
    ∀ r ∈ t.records, Representable r.integers r.reals :=
  representable_flatMap.1 ⟨h.integers, fun x hx => h.reals x (List.mem_append_right _ hx)⟩

/-- The numbers of the shared data are among those of the device. -/
theorem Representable.icd (h : Representable d.integers d.reals) :
    Representable d.icd.integers d.icd.reals :=
  ⟨h.integers, fun x hx => h.reals x (by simp [AutonomousIcdEntry.reals, hx])⟩

end Numbers

section Leaves

variable {level : Nat}

/-- An integer of 32 bits is a value that readers take. -/
theorem isTree_integer {n : Int} (hn : IsInt32 n) : IsTree level (.integer n) :=
  .integer hn.1 (Int.lt_trans hn.2 (by decide))

/-- A field that may be missing holds a value that readers take, if it is there. -/
theorem isTree_optional_real {name : String} {value : Option Float}
    (h : ∀ x, value = some x → x.isFinite = true) :
    ∀ f ∈ Json.optionalField name .real value, IsTree level f.2 :=
  forall_mem_optionalField.2 fun x hx => .real (h x hx)

/-- An integer that may be missing is a value that readers take, if it is there. -/
theorem isTree_optional_integer {name : String} {value : Option Int}
    (h : ∀ n, value = some n → IsInt32 n) :
    ∀ f ∈ Json.optionalField name .integer value, IsTree level f.2 :=
  forall_mem_optionalField.2 fun n hn => isTree_integer (h n hn)

/-- The shared data of an inflow control device nests nothing. -/
theorem IcdEntry.isTree_fields {d : IcdEntry} (h : Representable d.integers d.reals) :
    ∀ f ∈ d.fields, IsTree level f.2 := by
  obtain ⟨hi, hr⟩ := h
  simp only [integers, reals, List.forall_mem_append, List.forall_mem_cons, Option.mem_toList,
    List.not_mem_nil, false_imp_iff, implies_true, and_true] at hi hr
  obtain ⟨hsegment, hmethod⟩ := hi
  obtain ⟨⟨⟨⟨⟨⟨⟨hstrength, hlength⟩, hdensity⟩, hviscosity⟩, hcritical⟩, hwidth⟩, hratio⟩, hrate⟩ :=
    hr
  simp only [fields, List.forall_mem_append, List.forall_mem_cons, List.not_mem_nil,
    false_imp_iff, implies_true, and_true]
  exact ⟨⟨⟨⟨⟨⟨⟨⟨⟨isTree_integer hsegment, .real hstrength, .real hlength⟩,
    isTree_optional_real hdensity⟩, isTree_optional_real hviscosity⟩,
    isTree_optional_real hcritical⟩, isTree_optional_real hwidth⟩, isTree_optional_real hratio⟩,
    isTree_optional_integer hmethod⟩, isTree_optional_real hrate⟩, .text _⟩

end Leaves

section Entries

variable {source : Source Json} (hsource : source.Faithful)
include hsource

/-- A range is read back. -/
theorem RangeEntry.read_toJson {r : RangeEntry} (h : Representable r.integers r.reals) :
    RangeEntry.read source r.toJson = some r := by
  obtain ⟨hi, hr⟩ := h
  simp only [integers, reals, List.forall_mem_append, List.forall_mem_cons, Option.mem_toList,
    List.not_mem_nil, false_imp_iff, implies_true, and_true] at hi hr
  obtain ⟨hfirst, hlast, hbranch, hjoin⟩ := hi
  obtain ⟨⟨⟨hlength, hdepth, hdiameter, hroughness, hx, hy⟩, harea⟩, hvolume⟩ := hr
  rw [RangeEntry.read, toJson, hsource.fields_eq, Option.bind_eq_bind, Option.bind_some]
  dsimp only
  rw [required_integer hsource hfirst, required_integer hsource hlast,
    required_integer hsource hbranch, required_integer hsource hjoin,
    required_real hsource hlength, required_real hsource hdepth, required_real hsource hdiameter,
    required_real hsource hroughness, optional_real hsource harea, optional_real hsource hvolume,
    defaulted_real hsource hx, defaulted_real hsource hy]
  · rfl
  all_goals simp [filter_optionalField]

/-- A segment tree is read back, each of its ranges in its place. -/
theorem TreeEntry.read_toJson {t : TreeEntry} (h : Representable t.integers t.reals) :
    TreeEntry.read source t.toJson = some t := by
  have hr := h.reals
  simp only [reals, List.forall_mem_append, List.forall_mem_cons, List.not_mem_nil,
    false_imp_iff, implies_true, and_true] at hr
  obtain ⟨⟨hdepth, hlength, hvolume, hx, hy⟩, -⟩ := hr
  rw [TreeEntry.read, toJson, hsource.fields_eq, Option.bind_eq_bind, Option.bind_some]
  dsimp only
  rw [required_text hsource t.well, required_real hsource hdepth,
    required_real hsource hlength, required_real hsource hvolume,
    required_text hsource t.mode, defaulted_text hsource t.pressureDrop,
    defaulted_text hsource t.flowModel, defaulted_real hsource hx,
    defaulted_real hsource hy, defaulted_of_filter (v := .list (t.records.map RangeEntry.toJson)),
    list?_list hsource fun r hr =>
      RangeEntry.read_toJson hsource (h.records r hr)]
  · rfl
  all_goals simp

/-- A valve is read back, with the data that it does not give still missing. -/
theorem ValveEntry.read_toJson {v : ValveEntry} (h : Representable v.integers v.reals) :
    ValveEntry.read source v.toJson = some v := by
  obtain ⟨hi, hr⟩ := h
  simp only [integers, reals, List.forall_mem_append, List.forall_mem_cons, Option.mem_toList,
    List.not_mem_nil, false_imp_iff, implies_true, and_true] at hi hr
  obtain ⟨⟨⟨⟨⟨⟨hcoefficient, harea⟩, hadditional⟩, hdiameter⟩, hroughness⟩, hpipe⟩, hmax⟩ := hr
  rw [ValveEntry.read, toJson, hsource.fields_eq, Option.bind_eq_bind, Option.bind_some]
  dsimp only
  rw [required_integer hsource hi, required_real hsource hcoefficient, required_real hsource harea,
    optional_real hsource hadditional, optional_real hsource hdiameter,
    optional_real hsource hroughness, optional_real hsource hpipe, optional_real hsource hmax,
    defaulted_status hsource (s := v.status)]
  · rfl
  all_goals simp [filter_optionalField]

/-- A connection is read back. -/
theorem ConnectionEntry.read_toJson {c : ConnectionEntry} (h : Representable c.integers c.reals) :
    ConnectionEntry.read source c.toJson = some c := by
  obtain ⟨hi, hr⟩ := h
  simp only [integers, reals, List.forall_mem_append, List.forall_mem_cons, Option.mem_toList,
    List.not_mem_nil, false_imp_iff, implies_true, and_true] at hi hr
  obtain ⟨hbranch, hsegment⟩ := hi
  obtain ⟨⟨hstart, hfinish⟩, hdepth⟩ := hr
  rw [ConnectionEntry.read, toJson, hsource.fields_eq, Option.bind_eq_bind, Option.bind_some,
    defaulted_integer hsource hbranch, required_real hsource hstart,
    required_real hsource hfinish, optional_integer hsource hsegment,
    optional_real hsource hdepth]
  · rfl
  all_goals simp [filter_optionalField]

/-- The shared data of an inflow control device is read from fields among which it is. -/
theorem IcdEntry.readFields_fields {d : IcdEntry} (h : Representable d.integers d.reals) :
    IcdEntry.readFields source d.fields = some d := by
  obtain ⟨hi, hr⟩ := h
  simp only [integers, reals, List.forall_mem_append, List.forall_mem_cons, Option.mem_toList,
    List.not_mem_nil, false_imp_iff, implies_true, and_true] at hi hr
  obtain ⟨hsegment, hmethod⟩ := hi
  obtain ⟨⟨⟨⟨⟨⟨⟨hstrength, hlength⟩, hdensity⟩, hviscosity⟩, hcritical⟩, hwidth⟩, hratio⟩, hrate⟩ :=
    hr
  rw [IcdEntry.readFields]
  dsimp only
  rw [required_integer hsource hsegment, required_real hsource hstrength,
    required_real hsource hlength, optional_real hsource hdensity,
    optional_real hsource hviscosity, optional_real hsource hcritical,
    optional_real hsource hwidth, optional_real hsource hratio, optional_integer hsource hmethod,
    optional_real hsource hrate, defaulted_status hsource (s := d.status)]
  · rfl
  all_goals simp [IcdEntry.fields, filter_optionalField]

/-- Fields without nested values are in plain form as they are. -/
theorem describeFields_of_isTree {fields : List (String × Json)} (h : ∀ f ∈ fields, IsTree 0 f.2) :
    describeFields source fields = some fields := by
  have hmap : (fields.map id).mapM (fun f => (source.describe? f.2).map fun v => (f.1, v))
      = some fields :=
    mapM_map_eq_some fun f hf => by
      rw [id, hsource.describe_eq f.2 (h f hf).isSound (h f hf).depth_eq_zero]
      rfl
  rwa [List.map_id] at hmap

omit hsource in
/-- **What an autonomous device shares** is what is left of its fields without its own. -/
theorem IcdEntry.filter_fields_append (d : IcdEntry) {own : List (String × Json)}
    (hown : ∀ f ∈ own, f.1 ∈ autonomousFields) :
    (d.fields ++ own).filter (fun f => !autonomousFields.contains f.1) = d.fields := by
  have hshared : ∀ f ∈ d.fields, f.1 ∉ autonomousFields := by
    simp only [fields, List.forall_mem_append, List.forall_mem_cons, forall_mem_optionalField]
    simp [autonomousFields]
  rw [List.filter_append, List.filter_eq_self.2, List.filter_eq_nil_iff.2, List.append_nil]
  · intro f hf
    simpa using hown f hf
  · intro f hf
    simpa using hshared f hf

variable {plain : Source Json} (hplain : plain.Faithful)
include hplain

/-- A spiral device is read back, though its fields pass through plain form. -/
theorem IcdEntry.read_toJson {d : IcdEntry} (h : Representable d.integers d.reals) :
    IcdEntry.read source plain d.toJson = some d := by
  rw [IcdEntry.read, toJson, hsource.namedFields_eq, Option.bind_eq_bind, Option.bind_some,
    describeFields_of_isTree hsource (isTree_fields h), Option.bind_some,
    readFields_fields hplain h]

/-- **An autonomous device is read back**: its own fields and the shared data are told apart in the
object that holds both. -/
theorem AutonomousIcdEntry.read_toJson {d : AutonomousIcdEntry}
    (h : Representable d.integers d.reals) :
    AutonomousIcdEntry.read source plain d.toJson = some d := by
  have hr := h.reals
  simp only [reals, List.forall_mem_append, List.forall_mem_cons, Option.mem_toList,
    List.not_mem_nil, false_imp_iff, implies_true, and_true] at hr
  obtain ⟨⟨⟨⟨⟨⟨⟨-, hrate, hviscosity⟩, hoil⟩, hwater⟩, hgas⟩, hoil'⟩, hwater'⟩, hgas'⟩ := hr
  simp only [AutonomousIcdEntry.read, toJson, List.append_assoc, hsource.namedFields_eq]
  rw [Option.bind_eq_bind, Option.bind_some, d.icd.filter_fields_append ?own,
    describeFields_of_isTree hsource (IcdEntry.isTree_fields h.icd), Option.bind_eq_bind,
    Option.bind_some, IcdEntry.readFields_fields hplain h.icd,
    required_real hsource hrate, required_real hsource hviscosity, optional_real hsource hoil,
    optional_real hsource hwater, optional_real hsource hgas, optional_real hsource hoil',
    optional_real hsource hwater', optional_real hsource hgas']
  · rfl
  case own =>
    simp only [List.forall_mem_append, List.forall_mem_cons, forall_mem_optionalField]
    simp [autonomousFields]
  all_goals simp [IcdEntry.fields, filter_optionalField]

/-- A well is read back, lists that are empty and left out included. -/
theorem WellEntry.read_toJson {w : WellEntry} (h : Representable w.integers w.reals) :
    WellEntry.read source plain w.toJson = some w := by
  obtain ⟨h, hconnections⟩ := representable_append.1 h
  obtain ⟨h, hvalves⟩ := representable_append.1 h
  obtain ⟨h, hautonomous⟩ := representable_append.1 h
  obtain ⟨htree, hspiral⟩ := representable_append.1 h
  rw [representable_flatMap] at hspiral hautonomous hvalves hconnections
  rw [WellEntry.read, toJson, hsource.fields_eq, Option.bind_eq_bind, Option.bind_some,
    required_of_filter (v := w.tree.toJson), TreeEntry.read_toJson hsource htree,
    defaulted_list hsource fun d hd => IcdEntry.read_toJson hsource hplain (hspiral d hd),
    defaulted_list hsource fun d hd =>
      AutonomousIcdEntry.read_toJson hsource hplain (hautonomous d hd),
    defaulted_list hsource fun v hv => ValveEntry.read_toJson hsource (hvalves v hv),
    defaulted_list hsource fun c hc => ConnectionEntry.read_toJson hsource (hconnections c hc)]
  · rfl
  all_goals simp [filter_listField]

/-- **A deck is read back from its value.** -/
theorem read_toJson {d : Deck} (hversion : d.version < 0x100000000)
    (h : Representable d.integers d.reals) : read source plain d.toJson = some d := by
  rw [read, toJson, hsource.fields_eq, Option.bind_eq_bind, Option.bind_some,
    required_of_filter (v := .integer d.version), nat32?_integer hsource hversion,
    defaulted_of_filter (v := .text (unitsName d.units)), units?_text hsource,
    defaulted_of_filter (v := .list (d.wells.map WellEntry.toJson)),
    list?_list hsource fun w hw =>
      WellEntry.read_toJson hsource hplain (representable_flatMap.1 h w hw)]
  · rfl
  all_goals simp

end Entries

section Trees

variable {level : Nat}

/-- A list goes one level deeper than its items. -/
theorem isTree_list {α : Type} {write : α → Json} {items : List α}
    (h : ∀ x ∈ items, IsTree level (write x)) : IsTree (level + 1) (.list (items.map write)) :=
  .list (List.forall_mem_map.2 h)

/-- A range is an object without anything nested. -/
theorem RangeEntry.isTree_toJson {r : RangeEntry} (h : Representable r.integers r.reals) :
    IsTree (level + 1) r.toJson := by
  obtain ⟨hi, hr⟩ := h
  simp only [integers, reals, List.forall_mem_append, List.forall_mem_cons, Option.mem_toList,
    List.not_mem_nil, false_imp_iff, implies_true, and_true] at hi hr
  obtain ⟨hfirst, hlast, hbranch, hjoin⟩ := hi
  obtain ⟨⟨⟨hlength, hdepth, hdiameter, hroughness, hx, hy⟩, harea⟩, hvolume⟩ := hr
  refine .ofFields ?_
  simp only [List.forall_mem_append, List.forall_mem_cons, List.not_mem_nil, false_imp_iff,
    implies_true, and_true]
  exact ⟨⟨⟨⟨isTree_integer hfirst, isTree_integer hlast, isTree_integer hbranch,
    isTree_integer hjoin, .real hlength, .real hdepth, .real hdiameter,
    .real hroughness⟩, isTree_optional_real harea⟩, isTree_optional_real hvolume⟩,
    .real hx, .real hy⟩

/-- A segment tree nests the objects of its ranges in a list. -/
theorem TreeEntry.isTree_toJson {t : TreeEntry} (h : Representable t.integers t.reals) :
    IsTree (level + 3) t.toJson := by
  have hr := h.reals
  simp only [reals, List.forall_mem_append, List.forall_mem_cons, List.not_mem_nil,
    false_imp_iff, implies_true, and_true] at hr
  obtain ⟨⟨hdepth, hlength, hvolume, hx, hy⟩, -⟩ := hr
  have hrecords : IsTree (level + 2) (.list (t.records.map RangeEntry.toJson)) :=
    isTree_list fun r hr => RangeEntry.isTree_toJson (h.records r hr)
  refine .ofFields ?_
  simp only [List.forall_mem_cons, List.not_mem_nil, false_imp_iff, implies_true, and_true]
  exact ⟨.text _, .real hdepth, .real hlength, .real hvolume, .text _, .text _, .text _, .real hx,
    .real hy, hrecords⟩

/-- A spiral device is an object without anything nested. -/
theorem IcdEntry.isTree_toJson {d : IcdEntry} (h : Representable d.integers d.reals) :
    IsTree (level + 1) d.toJson :=
  .ofFields (isTree_fields h)

/-- An autonomous device is one object, the shared data in it included. -/
theorem AutonomousIcdEntry.isTree_toJson {d : AutonomousIcdEntry}
    (h : Representable d.integers d.reals) : IsTree (level + 1) d.toJson := by
  have hr := h.reals
  simp only [reals, List.forall_mem_append, List.forall_mem_cons, Option.mem_toList,
    List.not_mem_nil, false_imp_iff, implies_true, and_true] at hr
  obtain ⟨⟨⟨⟨⟨⟨⟨-, hrate, hviscosity⟩, hoil⟩, hwater⟩, hgas⟩, hoil'⟩, hwater'⟩, hgas'⟩ := hr
  refine .ofFields ?_
  simp only [List.forall_mem_append, List.forall_mem_cons, List.not_mem_nil, false_imp_iff,
    implies_true, and_true]
  exact ⟨⟨⟨⟨⟨⟨⟨IcdEntry.isTree_fields h.icd, .real hrate, .real hviscosity⟩,
    isTree_optional_real hoil⟩, isTree_optional_real hwater⟩, isTree_optional_real hgas⟩,
    isTree_optional_real hoil'⟩, isTree_optional_real hwater'⟩, isTree_optional_real hgas'⟩

/-- A valve is an object without anything nested. -/
theorem ValveEntry.isTree_toJson {v : ValveEntry} (h : Representable v.integers v.reals) :
    IsTree (level + 1) v.toJson := by
  obtain ⟨hi, hr⟩ := h
  simp only [integers, reals, List.forall_mem_append, List.forall_mem_cons, Option.mem_toList,
    List.not_mem_nil, false_imp_iff, implies_true, and_true] at hi hr
  obtain ⟨⟨⟨⟨⟨⟨hcoefficient, harea⟩, hadditional⟩, hdiameter⟩, hroughness⟩, hpipe⟩, hmax⟩ := hr
  refine .ofFields ?_
  simp only [List.forall_mem_append, List.forall_mem_cons, List.not_mem_nil, false_imp_iff,
    implies_true, and_true]
  exact ⟨⟨⟨⟨⟨⟨⟨isTree_integer hi, .real hcoefficient, .real harea⟩,
    isTree_optional_real hadditional⟩, isTree_optional_real hdiameter⟩,
    isTree_optional_real hroughness⟩, isTree_optional_real hpipe⟩, isTree_optional_real hmax⟩,
    .text _⟩

/-- A connection is an object without anything nested. -/
theorem ConnectionEntry.isTree_toJson {c : ConnectionEntry}
    (h : Representable c.integers c.reals) : IsTree (level + 1) c.toJson := by
  obtain ⟨hi, hr⟩ := h
  simp only [integers, reals, List.forall_mem_append, List.forall_mem_cons, Option.mem_toList,
    List.not_mem_nil, false_imp_iff, implies_true, and_true] at hi hr
  obtain ⟨hbranch, hsegment⟩ := hi
  obtain ⟨⟨hstart, hfinish⟩, hdepth⟩ := hr
  refine .ofFields ?_
  simp only [List.forall_mem_append, List.forall_mem_cons, List.not_mem_nil, false_imp_iff,
    implies_true, and_true]
  exact ⟨⟨⟨isTree_integer hbranch, .real hstart, .real hfinish⟩,
    isTree_optional_integer hsegment⟩, isTree_optional_real hdepth⟩

/-- A list that may be left out goes one level deeper than its items, if it is there. -/
theorem isTree_listField {α : Type} {name : String} {write : α → Json} {items : List α}
    (h : ∀ x ∈ items, IsTree level (write x)) :
    ∀ f ∈ Json.listField name write items, IsTree (level + 1) f.2 :=
  forall_mem_listField (isTree_list h)

/-- A well nests its tree, the deepest of its parts. -/
theorem WellEntry.isTree_toJson {w : WellEntry} (h : Representable w.integers w.reals) :
    IsTree (level + 4) w.toJson := by
  obtain ⟨h, hconnections⟩ := representable_append.1 h
  obtain ⟨h, hvalves⟩ := representable_append.1 h
  obtain ⟨h, hautonomous⟩ := representable_append.1 h
  obtain ⟨htree, hspiral⟩ := representable_append.1 h
  rw [representable_flatMap] at hspiral hautonomous hvalves hconnections
  refine .ofFields ?_
  simp only [List.forall_mem_append, List.forall_mem_singleton]
  exact ⟨⟨⟨⟨TreeEntry.isTree_toJson htree,
    isTree_listField fun d hd => IcdEntry.isTree_toJson (hspiral d hd)⟩,
    isTree_listField fun d hd => AutonomousIcdEntry.isTree_toJson (hautonomous d hd)⟩,
    isTree_listField fun v hv => ValveEntry.isTree_toJson (hvalves v hv)⟩,
    isTree_listField fun c hc => ConnectionEntry.isTree_toJson (hconnections c hc)⟩

/-- **The value of a deck of finite numbers** is one that readers of JSON take. -/
theorem isTree_toJson {d : Deck} (hversion : d.version < 0x100000000)
    (h : Representable d.integers d.reals) : IsTree (level + 6) d.toJson := by
  have hwells : IsTree (level + 5) (.list (d.wells.map WellEntry.toJson)) :=
    isTree_list fun w hw => WellEntry.isTree_toJson (representable_flatMap.1 h w hw)
  have hinteger : IsTree (level + 5) (.integer d.version) := .integer (by omega) (by omega)
  refine .ofFields ?_
  simp only [List.forall_mem_cons, List.not_mem_nil, false_imp_iff, implies_true, and_true]
  exact ⟨hinteger, .text _, hwells⟩

end Trees

end Deck

namespace TextFormats

/-- How deep lists and objects may be nested in a JSON text. -/
def deepest : Nat := 127

/-- What decks rely on: a JSON value of finite numbers that is not nested too deep is read back
from the text that is written of it. -/
structure Lawful [TextFormats] : Prop where
  readJson_writeJson : ∀ v, Json.IsTree deepest v → readJson (writeJson v) = some v

/-- **Reading every numeral as the nearest double is lawful**, for values of any depth. -/
theorem lawful_nearest : Lawful where
  readJson_writeJson _ hv := Json.parse_print Json.blank_spread hv.isSound

end TextFormats

namespace Deck

section Texts

variable {d : Deck}

section Formats

variable [TextFormats] (hformats : TextFormats.Lawful)

include hformats in
/-- **A deck is read back from its text.** -/
theorem parse_print (hversion : d.version < 0x100000000)
    (h : Representable d.integers d.reals) : parse .json (d.print .json) = .ok d := by
  have hread : parse? .json (d.print .json) = some d := by
    show (TextFormats.readJson (TextFormats.writeJson d.toJson)).bind ofJson? = some d
    rw [hformats.readJson_writeJson d.toJson (isTree_toJson hversion h), Option.bind_some]
    exact read_toJson Source.faithful_json Source.faithful_plain hversion h
  rw [parse, hread]

/-- A valid deck is saved as its text. -/
theorem save_eq_ok {format : FileFormat} (hvalid : d.validate = .ok ()) :
    d.save format = .ok (d.print format) := by
  rw [save, hvalid]
  rfl

include hformats in
/-- **Decks survive being saved and loaded**, if JSON values are read back from what is written of
them.  A valid deck whose numbers are finite, and whose integers are of 32 bits, is saved as a text
from which the very same deck is loaded, whatever it leaves out; and the deck that is loaded is
saved as the same text. -/
theorem ofText_save (hvalid : d.validate = .ok ()) (hintegers : ∀ n ∈ d.integers, IsInt32 n)
    (hreals : ∀ x ∈ d.reals, x.isFinite = true) :
    ∃ text, d.save .json = .ok text ∧ ∃ r, ofText .json text = .ok r ∧ r = d ∧
      r.save .json = .ok text := by
  have hversion : d.version < 0x100000000 := by
    rw [(validate_eq_ok.1 hvalid).1]
    decide
  refine ⟨d.print .json, save_eq_ok hvalid, d, ?_, rfl, save_eq_ok hvalid⟩
  rw [ofText, parse_print hformats hversion ⟨hintegers, hreals⟩]
  show (d.validate.mapError DeckError.validation >>= fun _ => Except.ok d) = .ok d
  rw [hvalid]
  rfl

end Formats

/-- A well with devices of each kind, given with what they need or with more. -/
def equippedEntry : WellEntry where
  tree := {
    well := "PROD01", topDepth := 2512.5, topLength := 2512.5, volume := 1.0e-5, mode := "ABS"
    pressureDrop := "HF-"
    records := [
      { first := 2, last := 3, branch := 1, join := 1, length := 2562.5, depth := 2562.5
        diameter := 0.2, roughness := 1.0e-4 },
      { first := 4, last := 5, branch := 2, join := 2, length := 2737.5, depth := 2537.5
        diameter := 0.2, roughness := 1.0e-4, volume := some 0.4, x := -0.0 }] }
  spiralIcds := [{ segment := 3, strength := 0.002, length := -0.7, method := some (-1) }]
  autonomousIcds := [{
    icd := { segment := 5, strength := 0.1, length := 12.0, maxViscosityRatio := some 5.0 }
    flowRateExponent := 1.0e-300, viscosityExponent := 1.0, gasFlowFraction := some 1.0e22 }]
  valves := [{
    segment := 4, flowCoefficient := 0.7, crossArea := 1.0e-4, maxCrossArea := some 2.0e-4
    status := .shut }]
  connections := [
    { start := 2550.0, finish := 2575.0, segment := some 3 },
    { branch := 2, start := 2575.0, finish := 2600.0, centerDepth := some 2580.0 }]

/-- A deck of this well and of one without devices. -/
def equippedDeck : Deck where
  version := 1
  units := .field
  wells := [equippedEntry, { tree := { equippedEntry.tree with well := "\"PROD\n02\"" } }]

/-- The two wells, quotes and line breaks in a name included, come back from the text that is
written with numbers of as few digits as tell them apart. -/
theorem ofText_save_equippedDeck :
    TextFormats.Lawful ∧ equippedDeck.validate = .ok () ∧ ∃ text, equippedDeck.save .json = .ok text ∧
      ∃ r, ofText .json text = .ok r ∧ r = equippedDeck ∧ r.save .json = .ok text := by
  have hvalid : equippedDeck.validate = .ok () := by decide +kernel
  have hintegers : ∀ n ∈ equippedDeck.integers, IsInt32 n := by
    unfold IsInt32
    decide
  have hreals : ∀ x ∈ equippedDeck.reals, x.isFinite = true := by decide +kernel
  exact ⟨TextFormats.lawful_nearest, hvalid,
    ofText_save TextFormats.lawful_nearest hvalid hintegers hreals⟩

end Texts

end Deck
end MultiSegmentWell
