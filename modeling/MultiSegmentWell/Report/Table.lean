/-
# Tables of a report

SPEC_FULL.md, 6: the tables of the command line.

Rows as lines of text. Columns are filled up with spaces, counted in characters.
-/

import MultiSegmentWell.Report.Rows

namespace MultiSegmentWell
namespace Report

/-- A text filled up on the left. -/
def padLeft (width : Nat) (text : String) : String :=
  String.ofList (List.replicate (width - text.length) ' ') ++ text

/-- A text filled up on the right. -/
def padRight (width : Nat) (text : String) : String :=
  text ++ String.ofList (List.replicate (width - text.length) ' ')

/-- A number of things. -/
def countText (n : Nat) : String := Layout.digitText n

/-- The line of a summary. -/
def Summary.line (s : Summary) : String :=
  "✓ " ++ s.well ++ ": " ++ countText s.segments ++ " segments on " ++ countText s.branches.length
    ++ " branches"

/-- The line of a well in a deck. -/
def wellLine (w : Deck.WellEntry) : String :=
  "  " ++ w.name ++ " - " ++ w.tree.mode ++ " (" ++ countText w.tree.records.length ++ " records, "
    ++ countText w.deviceCount ++ " devices, " ++ countText w.connections.length ++ " connections)"

/-- The lines about the wells of a deck. -/
def wellLines (d : Deck) : List String :=
  if d.wells.isEmpty then ["No wells found in deck"]
  else ("Wells in deck (" ++ d.units.name ++ "):") :: d.wells.map wellLine

/-- The first columns of a table of segments, filled up to their widths. -/
def segmentColumns (number branch outlet length total depth volume : String) : String :=
  "  " ++ String.intercalate " " [padLeft 5 number, padLeft 6 branch, padLeft 6 outlet,
    padLeft 12 length, padLeft 12 total, padLeft 12 depth, padLeft 10 volume] ++ "  "

/-- The line of a segment. -/
def SegmentRow.line (r : SegmentRow) : String :=
  segmentColumns (integerText r.number) (integerText r.branch) (integerText r.outlet)
      (Layout.fixed 3 r.length) (Layout.fixed 3 r.totalLength) (Layout.fixed 3 r.depth)
      (Layout.fixed 4 r.volume)
    ++ r.kind.name ++ " (" ++ integerText r.kind.typeId ++ ")"

/-- The lines about the segments of a well. -/
def segmentLines (well : String) (units : UnitSystem) (rows : List SegmentRow) : List String :=
  ("Segments of " ++ well ++ " (lengths in " ++ units.lengthName ++ "):")
    :: (segmentColumns "seg" "branch" "outlet" "length" "total" "depth" "volume" ++ "type")
    :: rows.map SegmentRow.line

/-- The line of a branch. -/
def BranchRow.line (r : BranchRow) : String :=
  "  branch " ++ integerText r.branch ++ ": " ++ String.intercalate " -> " (r.segments.map integerText)

/-- The line of a connection. -/
def ConnectionRow.line (r : ConnectionRow) : String :=
  "  segment " ++ padLeft 4 (integerText r.segment) ++ ": " ++ padLeft 10 (Layout.fixed 3 r.start)
    ++ " .. " ++ padRight 10 (Layout.fixed 3 r.finish) ++ " depth "
    ++ (match r.centerDepth with
      | some d => Layout.fixed 3 d
      | none => "cell")

/-- The lines about the connections of a well. -/
def connectionLines (well : String) (units : UnitSystem) (rows : List ConnectionRow) :
    List String :=
  if rows.isEmpty then ["No connections for " ++ well]
  else
    ("Connections of " ++ well ++ " (lengths in " ++ units.lengthName ++ "):")
      :: rows.map ConnectionRow.line

end Report
end MultiSegmentWell
