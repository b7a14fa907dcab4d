/-
# Settings of a segment tree

SPEC_FULL.md, 3: the enumerations of settings and their words.

Three choices are made once for a well: how its range records give length and
depth, which components the pressure drop has, and which model its multiphase
flow follows. Each is named by a short word, read with the blanks around it left
out and with its case kept.
-/

import MultiSegmentWell.Units

namespace MultiSegmentWell

/-- How range records give length and depth. -/
inductive GeometryMode where
  /-- As changes from the outlet, the same for each segment of a range. -/
  | incremental
  /-- As values at the node of the last segment of a range. -/
  | absolute
deriving Repr, DecidableEq, Inhabited

/-- The components of the pressure drop along a segment. -/
inductive PressureDrop where
  /-- Hydrostatic, friction and acceleration. -/
  | acceleration
  /-- Hydrostatic and friction. -/
  | friction
  /-- Hydrostatic only. -/
  | hydrostatic
deriving Repr, DecidableEq, Inhabited

/-- The model of the multiphase flow. -/
inductive FlowModel where
  | homogeneous
  | driftFlux
deriving Repr, DecidableEq, Inhabited

/-- The settings that are read from words. -/
inductive Setting where
  | geometryMode
  | pressureDrop
  | flowModel
deriving Repr, DecidableEq

/-- What a setting is called in messages. -/
def Setting.name : Setting → String
  | geometryMode => "length/depth type"
  | pressureDrop => "pressure drop components"
  | flowModel => "multiphase model"

namespace GeometryMode

/-- The word for a mode. -/
def name : GeometryMode → String
  | incremental => "INC"
  | absolute => "ABS"

/-- The mode that a word names. -/
def ofText? (text : String) : Option GeometryMode :=
  [incremental, absolute].find? fun mode => mode.name == Text.trim text

end GeometryMode

namespace PressureDrop

/-- The word for a choice of components. -/
def name : PressureDrop → String
  | acceleration => "HFA"
  | friction => "HF-"
  | hydrostatic => "H--"

/-- The components that a word names. -/
def ofText? (text : String) : Option PressureDrop :=
  [acceleration, friction, hydrostatic].find? fun components =>
    components.name == Text.trim text

/-- Whether friction is among the components. -/
def includesFriction : PressureDrop → Bool
  | hydrostatic => false
  | _ => true

end PressureDrop

namespace FlowModel

/-- The word for a model. -/
def name : FlowModel → String
  | homogeneous => "HO"
  | driftFlux => "DF"

/-- The model that a word names; `H0`, with a zero, is the homogeneous one too. -/
def ofText? (text : String) : Option FlowModel :=
  match Text.trim text with
  | "HO" | "H0" => some homogeneous
  | "DF" => some driftFlux
  | _ => none

end FlowModel

/-- How a segment tree is checked and reported on. -/
structure Options where
  /-- The units of lengths in findings. -/
  units : UnitSystem := .metric
  /-- A segment is steep when its depth changes by more than this multiple of its length. -/
  tolerance : Float := 1.001
deriving Repr, DecidableEq

end MultiSegmentWell
