/-
# Connections

SPEC_FULL.md, 4.6: connections and the records to allocate.

A perforation is an interval along a branch through which the reservoir flows into
the well. Once it is allocated to a segment it is a connection.
-/

namespace MultiSegmentWell

/-- A perforated interval before it is allocated. A segment that is missing or 0 is
found from the lengths along the branch; a depth that is missing or 0 is computed
from the tree. -/
structure Perforation where
  branch : Int
  start : Float
  finish : Float
  segment : Option Int := none
  centerDepth : Option Float := none
deriving Repr, DecidableEq

/-- The middle of the interval. -/
def Perforation.center (p : Perforation) : Float := (p.start + p.finish) / 2.0

/-- A perforated interval on a segment. -/
structure Connection where
  segment : Int
  start : Float
  finish : Float
  /-- The depth of the middle; `none` where the depth of the grid cell counts. -/
  centerDepth : Option Float := none
deriving Repr, DecidableEq

namespace Connection

/-- The length of the interval. -/
def length (c : Connection) : Float := c.finish - c.start

/-- The summed length of the connections on a segment, from negative zero on. -/
def perfLength (connections : List Connection) (number : Int) : Float :=
  ((connections.filter fun c => c.segment == number).map length).foldl (· + ·) (-0.0)

end Connection
end MultiSegmentWell
