/-
# Decks in JSON

SPEC_FULL.md, 6: `from_json_str`.

How JSON values give the parts of a deck. An object may also be written as the list
of its values in the order of the schema, the last ones left out. Numbers with a
point are no integers, integers are numbers, and only what is optional may be null.
An alternative without contents is written as its name or as an object that gives
the name a null.

A value in plain form is read in the same way, but a number may then be infinite or
no number, objects are never lists, and a name may also be given an empty object.
-/

import MultiSegmentWell.Deck.Reading

namespace MultiSegmentWell
namespace Deck
namespace Source

/-- The fields of an object whose names are all well formed. -/
def objectFields? : Json → Option (List (String × Json))
  | .object fields => fields.mapM fun f => f.1.map fun name => (name, f.2)
  | _ => none

/-- The fields of an object, or of the list of its first values. -/
def schemaFields? (names : List String) : Json → Option (List (String × Json))
  | .list items => if items.length ≤ names.length then some (names.zip items) else none
  | v => objectFields? v

/-- The items of a list. -/
def listItems? : Json → Option (List Json)
  | .list items => some items
  | _ => none

/-- The text of a string. -/
def stringText? : Json → Option String
  | .string text => text
  | _ => none

/-- Whether a value is null. -/
def isNullJson : Json → Bool
  | .null => true
  | _ => false

/-- An integer. -/
def integerJson? : Json → Option Int
  | .integer n => some n
  | _ => none

/-- A natural number. -/
def naturalJson? (v : Json) : Option Nat := (integerJson? v).bind Int.toNat?

/-- A finite number. -/
def finite? (v : Json) : Option Float := v.toFloat?.filter Float.isFinite

/-- The name of an alternative, where `isEmpty` tells what may stand for its contents. -/
def alternative? (isEmpty : Json → Bool) : Json → Option String
  | .object [(name, v)] => if isEmpty v then name else none
  | v => stringText? v

/-- Whether a value in plain form is empty. -/
def isEmptyJson : Json → Bool
  | .null => true
  | .object [] => true
  | _ => false

mutual

/-- Whether all numbers in a value are finite and all strings well formed. -/
def isSound : Json → Bool
  | .integer n => (Json.floatOfInt n).isFinite
  | .real x => x.isFinite
  | .string text => text.isSome
  | .list items => areItemsSound items
  | .object fields => areFieldsSound fields
  | _ => true

/-- Whether all items are sound. -/
def areItemsSound : List Json → Bool
  | [] => true
  | v :: vs => isSound v && areItemsSound vs

/-- Whether all names and values of fields are sound. -/
def areFieldsSound : List (Option String × Json) → Bool
  | [] => true
  | (name, v) :: fs => name.isSome && isSound v && areFieldsSound fs

end

/-- How deep a value in an entry of a device may be nested. -/
def deepest : Nat := 122

/-- JSON values. -/
def json : Source Json where
  fields? := schemaFields?
  namedFields? := objectFields?
  describe? v := if isSound v && v.depth ≤ deepest then some v else none
  items? := listItems?
  isNull := isNullJson
  integer? := integerJson?
  natural? := naturalJson?
  real? := finite?
  text? := stringText?
  word? := alternative? isNullJson

/-- Values in plain form. -/
def plain : Source Json where
  fields? _ := objectFields?
  namedFields? := objectFields?
  describe? := some
  items? := listItems?
  isNull := isNullJson
  integer? := integerJson?
  natural? := naturalJson?
  real? := Json.toFloat?
  text? := stringText?
  word? := alternative? isEmptyJson

end Source

/-- The deck that a JSON value holds. -/
def ofJson? (v : Json) : Option Deck := read .json .plain v

end Deck
end MultiSegmentWell
