/-
# What plain scalars stand for

A plain scalar stands for null, a truth value, an integer, a number or a text,
depending on its spelling. Quoted scalars and blocks are always texts.

Integers may be written with the marks `0x`, `0o` and `0b`. Decimal digits behind a
leading zero are no integer; where a spelling decides what a scalar is, they are a
text.
-/

import MultiSegmentWell.Json.Reader
import MultiSegmentWell.Yaml.Node

namespace MultiSegmentWell
namespace Yaml

/-- Whether a text is a word for null. -/
def isNullWord (text : String) : Bool := ["null", "Null", "NULL", "~"].contains text

/-- The truth value that a text is a word for. -/
def boolOfWord? (text : String) : Option Bool :=
  if ["true", "True", "TRUE"].contains text then some true
  else if ["false", "False", "FALSE"].contains text then some false
  else none

/-- The sign in front of a text and the rest of it. -/
def splitSign : List Char → Option Bool × List Char
  | '-' :: rest => (some true, rest)
  | '+' :: rest => (some false, rest)
  | text => (none, text)

/-- Whether a text starts with a sign. -/
def isSigned (text : List Char) : Bool := (splitSign text).1.isSome

/-- Whether a text is made of at least two digits, the first of them a zero. -/
def hasLeadingZero (text : List Char) : Bool :=
  match (splitSign text).2 with
  | '0' :: d :: rest => (d :: rest).all Char.isDigit
  | _ => false

/-- The value of a digit in a base up to sixteen. -/
def digit? (base : Nat) (c : Char) : Option Nat := (Json.hexDigit? c).filter (· < base)

/-- The number that digits in a base denote. -/
def numberInBase? (base : Nat) (digits : List Char) : Option Nat :=
  if digits.isEmpty then none
  else digits.foldlM (fun n c => (digit? base c).map (base * n + ·)) 0

/-- The number that a text behind its sign denotes, with or without the mark of a base. -/
def unsignedNumber? : List Char → Option Nat
  | '0' :: 'x' :: digits => numberInBase? 16 digits
  | '0' :: 'o' :: digits => numberInBase? 8 digits
  | '0' :: 'b' :: digits => numberInBase? 2 digits
  | digits => numberInBase? 10 digits

/-- The integer that a text denotes. -/
def integerOfText? (text : List Char) : Option Int :=
  if hasLeadingZero text then none
  else
    match splitSign text with
    | (some true, rest) => (unsignedNumber? rest).map fun n => -(n : Int)
    | (_, rest) => (unsignedNumber? rest).map Int.ofNat

/-- The natural number that a text without a minus denotes. -/
def naturalOfText? (text : List Char) : Option Nat :=
  if hasLeadingZero text then none
  else
    match splitSign text with
    | (some true, _) => none
    | (_, rest) => unsignedNumber? rest

/-- The double that is no number. -/
def notANumber : Float := 0.0 / 0.0

/-- The infinite double. -/
def infinite : Float := 1.0 / 0.0

/-- The double that a text denotes; only the words for it give an infinite one. -/
def realOfText? (text : String) : Option Float :=
  if [".inf", ".Inf", ".INF", "+.inf", "+.Inf", "+.INF"].contains text then some infinite
  else if ["-.inf", "-.Inf", "-.INF"].contains text then some (-infinite)
  else if [".nan", ".NaN", ".NAN"].contains text then some notANumber
  else ((Numeral.ofText? text.toList).map Numeral.toFloat).filter Float.isFinite

/-- Whether a plain scalar stands for null. -/
def standsForNull (text : String) : Bool := text.isEmpty || isNullWord text

/-- The integers that a scalar can stand for. -/
def isRepresentable (n : Int) : Bool := -Int.pow 2 63 ≤ n && n < Int.pow 2 64

/-- Integers that are read as integers but are out of range; larger ones are read as
numbers. -/
def isOutOfRange (n : Int) : Bool := !isRepresentable n && -Int.pow 2 127 ≤ n && n < Int.pow 2 128

/-- The number or text that a scalar other than null, a truth value or an integer
stands for. -/
def resolveReal (text : String) : Json :=
  match realOfText? text with
  | some x => if hasLeadingZero text.toList then .text text else .real x
  | none => .text text

/-- What a plain scalar stands for; `none` for an integer out of range. -/
def resolve? (text : String) : Option Json :=
  if standsForNull text then some .null
  else
    match boolOfWord? text, integerOfText? text.toList with
    | some b, _ => some (.bool b)
    | none, some n =>
      if isRepresentable n then some (.integer n)
      else if isOutOfRange n then none
      else some (resolveReal text)
    | none, none => some (resolveReal text)

namespace Node

mutual

/-- A node in plain form, with the texts of its keys. -/
def describe? : Node → Option Json
  | .scalar true text => resolve? text
  | .scalar false text => some (.text text)
  | .sequence items => (describeItems? items).map .list
  | .mapping entries => (describeEntries? entries).map .object

/-- Items in plain form. -/
def describeItems? : List Node → Option (List Json)
  | [] => some []
  | v :: vs => do some ((← describe? v) :: (← describeItems? vs))

/-- Entries in plain form; a key that is no scalar has no text. -/
def describeEntries? : List (Node × Node) → Option (List (Option String × Json))
  | [] => some []
  | (k, v) :: es => do
    let name ← match k with
      | .scalar _ text => some (some text)
      | other => (describe? other).map fun _ => none
    some ((name, ← describe? v) :: (← describeEntries? es))

end

end Node
end Yaml
end MultiSegmentWell
