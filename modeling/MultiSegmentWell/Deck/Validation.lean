/-
# Validating a deck

SPEC_FULL.md, 6: `validate_deck`; 7: validation errors.

What can be checked before a segment tree is resolved: the version, the names of
the wells, the words for settings, the ranges of segment numbers and the references
to segments. Ranges that cannot be expanded are passed over here; they are refused
when the tree is built. The first fault in the order of the deck is reported.
-/

import MultiSegmentWell.Deck.Basic
import MultiSegmentWell.Error
import MultiSegmentWell.SegmentRange

namespace MultiSegmentWell
namespace Deck

/-- The version of decks that is understood. -/
def latestVersion : Nat := 1

/-- The lists of a well whose entries refer to segments. -/
inductive Referrer where
  | spiralIcds
  | autonomousIcds
  | valves
  | connections
deriving Repr, DecidableEq

/-- What a list is called in a deck. -/
def Referrer.name : Referrer → String
  | spiralIcds => "sicd"
  | autonomousIcds => "aicd"
  | valves => "valves"
  | connections => "connections"

/-- What is wrong with a single value. -/
inductive ValueFault where
  | blankName
  | unknownSetting (setting : Setting) (text : String)
  | lengthNotPositive (length : Float)
  | diameterNotPositive (diameter : Float)
  | branchTooLow (branch : Int)
  | endsBeforeStart (finish : Float)
deriving Repr, DecidableEq

/-- Why a deck is refused. -/
inductive ValidationError where
  | duplicateWell (well : String)
  | duplicateSegment (well : String) (number : Int)
  | missingSegment (well : String) (referrer : Referrer) (number : Int)
  | duplicateDevice (well : String) (number : Int)
  | invalidValue (fault : ValueFault)
  | unsupportedVersion (version : Nat)
deriving Repr, DecidableEq

/-- The field of a deck that holds a setting. -/
def settingField : Setting → String
  | .geometryMode => "info_type"
  | .pressureDrop => "pressure_components"
  | .flowModel => "flow_model"

namespace ValueFault

/-- The field with the value. -/
def field : ValueFault → String
  | blankName => "welsegs.well"
  | unknownSetting setting _ => settingField setting
  | lengthNotPositive _ => "records.length"
  | diameterNotPositive _ => "records.diameter"
  | branchTooLow _ => "connections.branch"
  | endsBeforeStart _ => "connections.perf_end"

/-- The value as it is shown. -/
def value : ValueFault → String
  | blankName => ""
  | unknownSetting _ text => text
  | lengthNotPositive v | diameterNotPositive v | endsBeforeStart v => realText v
  | branchTooLow n => integerText n

/-- Why the value is refused. -/
def reason : ValueFault → String
  | blankName => "well name must not be empty"
  | unknownSetting .. => "unknown setting"
  | lengthNotPositive _ | diameterNotPositive _ => "must be positive"
  | branchTooLow _ => "must be at least 1"
  | endsBeforeStart _ => "must not be smaller than perf_start"

end ValueFault

namespace ValidationError

/-- The text of a fault. -/
def message : ValidationError → String
  | duplicateWell well => "Duplicate well: " ++ well
  | duplicateSegment well number =>
    "Duplicate segment " ++ integerText number ++ " in well " ++ well
  | missingSegment well referrer number =>
    aboutWell well (referrer.name ++ " references undefined segment " ++ integerText number)
  | duplicateDevice well number =>
    aboutWell well ("segment " ++ integerText number ++ " carries more than one device")
  | invalidValue fault =>
    "Invalid value: " ++ fault.field ++ " = " ++ fault.value ++ " (" ++ fault.reason ++ ")"
  | unsupportedVersion version => "Unsupported version: " ++ Layout.digitText version

end ValidationError

namespace RangeEntry

/-- Whether the range can be expanded. -/
def isWellFormed (r : RangeEntry) : Bool := 2 ≤ r.first && r.first ≤ r.last

/-- Whether the range holds a number. -/
def covers (r : RangeEntry) (n : Int) : Bool := r.first ≤ n && n ≤ r.last

/-- The numbers of the range. -/
def numbers (r : RangeEntry) : List Int := numbersBetween r.first r.last

end RangeEntry

namespace TreeEntry

/-- Whether a number belongs to the top segment or to a range that can be expanded. -/
def defines (t : TreeEntry) (n : Int) : Bool :=
  n == 1 || t.records.any fun r => r.isWellFormed && r.covers n

/-- Checks the words for settings. -/
def checkSettings (t : TreeEntry) : Except ValidationError Unit :=
  let refuse (setting : Setting) (text : String) :=
    .error (.invalidValue (.unknownSetting setting text))
  if (GeometryMode.ofText? t.mode).isNone then refuse .geometryMode t.mode
  else if (PressureDrop.ofText? t.pressureDrop).isNone then refuse .pressureDrop t.pressureDrop
  else if (FlowModel.ofText? t.flowModel).isNone then refuse .flowModel t.flowModel
  else .ok ()

/-- Whether the word for the mode is the one for changes, the case of its letters aside. -/
def isIncremental (t : TreeEntry) : Bool :=
  Text.toAsciiUpper t.mode == GeometryMode.incremental.name

/-- Checks ranges in turn, given those in front of them. -/
def checkRanges (t : TreeEntry) (earlier : List RangeEntry) :
    List RangeEntry → Except ValidationError Unit
  | [] => .ok ()
  | r :: rest =>
    if !r.isWellFormed then t.checkRanges earlier rest
    else
      match r.numbers.find? fun n => earlier.any fun e => e.covers n with
      | some n => .error (.duplicateSegment t.well n)
      | none =>
        if r.length <= 0.0 && t.isIncremental then
          .error (.invalidValue (.lengthNotPositive r.length))
        else if r.diameter <= 0.0 then .error (.invalidValue (.diameterNotPositive r.diameter))
        else t.checkRanges (r :: earlier) rest

end TreeEntry

namespace WellEntry

/-- The segments with devices, in the order of the lists. -/
def deviceSegments (w : WellEntry) : List (Referrer × Int) :=
  w.spiralIcds.map (fun d => (.spiralIcds, d.segment))
  ++ w.autonomousIcds.map (fun d => (.autonomousIcds, d.icd.segment))
  ++ w.valves.map (fun v => (.valves, v.segment))

/-- Checks that a reference is to a defined segment. -/
def checkReference (w : WellEntry) (referrer : Referrer) (n : Int) : Except ValidationError Unit :=
  if w.tree.defines n then .ok () else .error (.missingSegment w.name referrer n)

/-- Checks segments with devices in turn, given the numbers of those in front of them. -/
def checkDevices (w : WellEntry) (earlier : List Int) :
    List (Referrer × Int) → Except ValidationError Unit
  | [] => .ok ()
  | (referrer, n) :: rest => do
    w.checkReference referrer n
    if earlier.contains n then .error (.duplicateDevice w.name n)
    else w.checkDevices (n :: earlier) rest

/-- Checks a connection. -/
def checkConnection (w : WellEntry) (c : ConnectionEntry) : Except ValidationError Unit := do
  match c.segment with
  | some n => w.checkReference .connections n
  | none => .ok ()
  if c.branch < 1 then .error (.invalidValue (.branchTooLow c.branch))
  else if c.finish < c.start then .error (.invalidValue (.endsBeforeStart c.finish))
  else .ok ()

/-- Checks a well. -/
def check (w : WellEntry) : Except ValidationError Unit := do
  w.tree.checkSettings
  w.tree.checkRanges [] w.tree.records
  w.checkDevices [] w.deviceSegments
  w.connections.forM w.checkConnection

/-- Whether the name of a well is blank. -/
def isNameBlank (w : WellEntry) : Bool := (Text.trim w.name).isEmpty

end WellEntry

/-- Checks wells in turn, given the names of those in front of them. -/
def checkWells (earlier : List String) : List WellEntry → Except ValidationError Unit
  | [] => .ok ()
  | w :: rest =>
    if w.isNameBlank then .error (.invalidValue .blankName)
    else if earlier.contains w.name then .error (.duplicateWell w.name)
    else do
      w.check
      checkWells (w.name :: earlier) rest

/-- Checks a deck. -/
def validate (d : Deck) : Except ValidationError Unit :=
  if d.version = latestVersion then checkWells [] d.wells
  else .error (.unsupportedVersion d.version)

end Deck
end MultiSegmentWell
