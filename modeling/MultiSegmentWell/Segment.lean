/-
# Segments

SPEC_FULL.md, 3: the data of a segment; 4.1: its updates.

A segment is one pipe element of a well. Its node is the end away from the well
head; its outlet is the segment next to it towards the head. Node and volume may
still be unknown, and before a tree with incremental records is resolved a node
holds the changes from the outlet instead of values of its own; `ready` tells the
two apart.

Attaching a valve completes both sides: pipe data given on the valve replaces that
of the segment, and what is not given is filled in from the segment.
-/

import MultiSegmentWell.Device.Basic
import MultiSegmentWell.Quantity

namespace MultiSegmentWell

/-- Where a node lies: its length along the well, its depth and its horizontal position. -/
structure Node where
  length : Float
  depth : Float
  x : Float := 0.0
  y : Float := 0.0
deriving Repr, DecidableEq

/-- The pipe of a segment. -/
structure Pipe where
  diameter : Float
  roughness : Float
  area : Float
deriving Repr, DecidableEq

/-- One pipe element of a well. -/
structure Segment where
  number : Int
  /-- The branch; the main bore and the top segment are on branch 1. -/
  branch : Int
  /-- The number of the outlet; 0 for the top segment. -/
  outlet : Int
  /-- The numbers of the segments that flow in, each once. -/
  inlets : List Int := []
  node : Node
  pipe : Pipe
  volume : Float
  /-- Whether the node holds values of its own. -/
  ready : Bool
  /-- The summed length of the connections, once assigned. -/
  perfLength : Option Float := none
  device : Device := .regular
deriving Repr, DecidableEq

/-- A node of which only the horizontal position is known. -/
def Node.unknown : Node := ⟨Quantity.unknown, Quantity.unknown, 0.0, 0.0⟩

/-- A pipe of which nothing is known. -/
def Pipe.unknown : Pipe := ⟨Quantity.unknown, Quantity.unknown, Quantity.unknown⟩

/-- A node reached by adding changes to another. -/
def Node.add (outlet change : Node) : Node where
  length := outlet.length + change.length
  depth := outlet.depth + change.depth
  x := outlet.x + change.x
  y := outlet.y + change.y

namespace Segment

/-- The segment with its node settled. -/
def settle (s : Segment) (node : Node) : Segment := { s with node, ready := true }

/-- The segment with another volume. -/
def withVolume (s : Segment) (volume : Float) : Segment := { s with volume }

/-- The segment with the summed length of its connections assigned. -/
def withPerfLength (s : Segment) (length : Float) : Segment := { s with perfLength := some length }

/-- The segment with one more inlet, unless it has it already. -/
def addInlet (s : Segment) (number : Int) : Segment :=
  if s.inlets.contains number then s else { s with inlets := s.inlets ++ [number] }

/-- The pipe of the segment with the data that a valve gives. -/
def valvePipe (s : Segment) (v : Valve) : Pipe where
  diameter := v.pipeDiameter.getD s.pipe.diameter
  roughness := v.pipeRoughness.getD s.pipe.roughness
  area := v.pipeCrossArea.getD s.pipe.area

/-- A valve with what it does not give filled in from a length and a pipe. -/
def completeValve (v : Valve) (length : Float) (pipe : Pipe) : Valve :=
  { v with
    additionalLength := some (v.additionalLength.getD length)
    pipeDiameter := some (v.pipeDiameter.getD pipe.diameter)
    pipeRoughness := some (v.pipeRoughness.getD pipe.roughness)
    pipeCrossArea := some (v.pipeCrossArea.getD pipe.area)
    maxCrossArea := some (v.maxCrossArea.getD pipe.area) }

/-- The segment with a valve attached, given its own length. -/
def attachValve (s : Segment) (v : Valve) (length : Float) : Segment :=
  let pipe := s.valvePipe v
  { s with pipe, device := .valve (completeValve v length pipe) }

/-- The segment with a device attached in place of the one it has; only a valve
needs the length of the segment. -/
def attach (s : Segment) (device : Device) (length : Float) : Segment :=
  match device with
  | .valve v => s.attachValve v length
  | other => { s with device := other }

/-- Attaching a device keeps the number of a segment. -/
@[simp] theorem attach_number (s : Segment) (d : Device) (l : Float) :
    (s.attach d l).number = s.number := by
  cases d <;> rfl

/-- Settling a node keeps the number. -/
@[simp] theorem settle_number (s : Segment) (n : Node) : (s.settle n).number = s.number := rfl

/-- Filling a volume in keeps the number. -/
@[simp] theorem withVolume_number (s : Segment) (v : Float) : (s.withVolume v).number = s.number :=
  rfl

/-- Entering an inlet keeps the number. -/
@[simp] theorem addInlet_number (s : Segment) (n : Int) : (s.addInlet n).number = s.number := by
  unfold addInlet; split <;> rfl

end Segment
end MultiSegmentWell
