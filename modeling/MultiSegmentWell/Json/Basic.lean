/-
# JSON values

A value keeps the fields of an object in the order in which they stand, repeated
names included. A number without a point or an exponent is an integer of any
size; all others are doubles, and so is `-0`, which no integer is. A numeral that
is too large for a double is kept as an infinity, which readers of the value can
refuse.

A string may hold the escape of an unpaired surrogate, which is no character.
Such a string is well formed as long as nobody asks for its text, so its text is
`none`.
-/

import MultiSegmentWell.Number.Numeral

namespace MultiSegmentWell

/-- A JSON value. -/
inductive Json where
  | null
  | bool (b : Bool)
  | integer (n : Int)
  | real (x : Float)
  | string (text : Option String)
  | list (items : List Json)
  | object (fields : List (Option String × Json))
deriving Inhabited

namespace Json

/-- A string with a text. -/
def text (s : String) : Json := .string (some s)

/-- An object with plain field names. -/
def ofFields (fields : List (String × Json)) : Json :=
  .object (fields.map fun (name, value) => (some name, value))

/-- A field that is written only where there is a value. -/
def optionalField (name : String) (write : α → Json) (value : Option α) : List (String × Json) :=
  (value.map fun v => (name, write v)).toList

/-- A field that is written only where the list is not empty. -/
def listField (name : String) (write : α → Json) (items : List α) : List (String × Json) :=
  if items.isEmpty then [] else [(name, .list (items.map write))]

/-- A value or `null`. -/
def nullable (write : α → Json) (value : Option α) : Json :=
  match value with
  | some v => write v
  | none => .null

/-- The double nearest to an integer. -/
def floatOfInt (n : Int) : Float :=
  Numeral.toFloat ⟨n < 0, n.natAbs, 0⟩

/-- A number as a double. -/
def toFloat? : Json → Option Float
  | .integer n => some (floatOfInt n)
  | .real x => some x
  | _ => none

mutual

/-- How deep lists and objects are nested in a value. -/
def depth : Json → Nat
  | .list items => itemsDepth items + 1
  | .object fields => fieldsDepth fields + 1
  | _ => 0

/-- The greatest depth among items. -/
def itemsDepth : List Json → Nat
  | [] => 0
  | v :: vs => max (depth v) (itemsDepth vs)

/-- The greatest depth among the values of fields. -/
def fieldsDepth : List (Option String × Json) → Nat
  | [] => 0
  | (_, v) :: fs => max (depth v) (fieldsDepth fs)

end

end Json
end MultiSegmentWell
