/-
# Building the wells of a deck

SPEC_FULL.md, 6: `build_well`, `build_deck` and `build_named_well`.

A well is built from its input in this order: its tree is loaded, its perforations
are allocated, their lengths are assigned to the segments, and its devices are
scaled and attached. Building a deck builds its wells in turn, up to the first that
fails.
-/

import MultiSegmentWell.Deck.Conversion
import MultiSegmentWell.Deck.Validation
import MultiSegmentWell.SegmentSet.Allocation
import MultiSegmentWell.SegmentSet.Equipment
import MultiSegmentWell.SegmentSet.Processing

namespace MultiSegmentWell

/-- A resolved well with its connections. -/
structure BuiltWell where
  segments : SegmentSet
  connections : List Connection
deriving Repr, DecidableEq

/-- The set with devices attached after scaling them, unchanged if there are none. -/
def SegmentSet.equip (s : SegmentSet) (devices : List (Int × Device))
    (connections : List Connection) : Except SegmentError SegmentSet :=
  if devices.isEmpty then .ok s else s.attachScaledDevices devices connections

/-- A resolved tree with connections and devices. -/
def WellInput.complete (input : WellInput) (s : SegmentSet) : Except SegmentError BuiltWell := do
  let connections ← s.allocate input.perforations
  let equipped ← (s.assignPerfLengths connections).equip input.devices connections
  .ok ⟨equipped, connections⟩

/-- The well that an input describes. -/
def WellInput.build (input : WellInput) (options : Options) : Reported SegmentError BuiltWell := do
  let s ← SegmentSet.load {} input.definition options
  .ofExcept (input.complete s)

/-- The formats of deck files. -/
inductive FileFormat where
  | json
  | yaml
deriving Repr, DecidableEq

/-- Why work on a deck fails. -/
inductive DeckError where
  | validation (fault : Deck.ValidationError)
  | segment (fault : SegmentError)
  | unknownWell (well : String)
  /-- The text is no deck in this format. -/
  | unreadable (format : FileFormat)
  | missingFile
deriving Repr, DecidableEq

namespace DeckError

/-- The text of a failure; a file that cannot be read has none of its own. -/
def message? : DeckError → Option String
  | validation fault => some ("Validation error: " ++ fault.message)
  | segment fault => some ("Segment error: " ++ fault.message)
  | unknownWell well => some ("Unknown well: " ++ well)
  | unreadable _ | missingFile => none

end DeckError

namespace Deck

/-- How the wells of a deck are checked and reported on. -/
def options (d : Deck) : Options := { units := d.units }

variable [UnitConversions]

/-- Builds a well of a deck. -/
def buildWell (d : Deck) (w : WellEntry) : Reported DeckError BuiltWell :=
  Reported.mapError .segment do
    let input ← .ofExcept (w.toInput d.units)
    input.build d.options

/-- Builds wells of a deck in turn. -/
def buildWells (d : Deck) : List WellEntry → Reported DeckError (List BuiltWell)
  | [] => pure []
  | w :: rest => do
    let built ← d.buildWell w
    let others ← d.buildWells rest
    pure (built :: others)

/-- Builds all wells of a deck. -/
def build (d : Deck) : Reported DeckError (List BuiltWell) := d.buildWells d.wells

/-- Builds the first well with a name. -/
def buildNamed (d : Deck) (name : String) : Reported DeckError BuiltWell :=
  match d.wells.find? fun w => w.name == name with
  | some w => d.buildWell w
  | none => .ofExcept (.error (.unknownWell name))

/-- All wells of a deck in SI units. -/
def inputs (d : Deck) : Except DeckError (List WellInput) :=
  (d.wells.mapM fun (w : WellEntry) => w.toInput d.units).mapError .segment

end Deck
end MultiSegmentWell
