/-
# Positions of segment numbers

SPEC_FULL.md, 3: the map from segment numbers to positions.

Segment numbers are sparse, so their positions are kept as pairs in the order in
which the numbers were first entered. A number is entered once; entering it again
replaces its position.
-/

namespace MultiSegmentWell

/-- The position of each entered number. -/
structure SegmentIndex where
  entries : List (Int × Nat) := []
deriving Repr, DecidableEq

namespace SegmentIndex

/-- The position of a number. -/
def get? (index : SegmentIndex) (number : Int) : Option Nat := index.entries.lookup number

/-- Whether a number is entered. -/
def contains (index : SegmentIndex) (number : Int) : Bool := (index.get? number).isSome

/-- The number of entered numbers. -/
def size (index : SegmentIndex) : Nat := index.entries.length

/-- Whether no number is entered. -/
def isEmpty (index : SegmentIndex) : Bool := index.entries.isEmpty

/-- Entries with the position of a number replaced or added. -/
def enter (number : Int) (position : Nat) : List (Int × Nat) → List (Int × Nat)
  | [] => [(number, position)]
  | (n, p) :: entries =>
    if number = n then (number, position) :: entries else (n, p) :: enter number position entries

/-- The index with a number at a position. -/
def insert (index : SegmentIndex) (number : Int) (position : Nat) : SegmentIndex :=
  ⟨enter number position index.entries⟩

/-- The index of the numbers in a list; of a repeated number the last position counts. -/
def ofNumbers (numbers : List Int) : SegmentIndex :=
  numbers.zipIdx.foldl (fun index (number, position) => index.insert number position) {}

/-- Entering a number changes what is looked up under it, and nothing else. -/
theorem lookup_enter (number m : Int) (position : Nat) (entries : List (Int × Nat)) :
    (enter number position entries).lookup m =
      if m = number then some position else entries.lookup m := by
  induction entries with
  | nil => grind [enter]
  | cons e es ih => grind [enter]

/-- Entering a number changes the position of that number only. -/
theorem get?_insert (index : SegmentIndex) (number m : Int) (position : Nat) :
    (index.insert number position).get? m = if m = number then some position else index.get? m :=
  lookup_enter number m position index.entries

/-- An empty index has no position. -/
theorem get?_empty (m : Int) : get? {} m = none := rfl

end SegmentIndex
end MultiSegmentWell
