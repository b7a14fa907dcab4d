/-
# Writing JSON

The writer that goes with the reader `Json.parse`; deck files may be written by another
one (`TextFormats`).

A value is written on one line or spread over lines with two spaces for each
level. In strings only the quote, the backslash and the control characters below
the space are escaped. A number that is not finite has no numeral and is written
as `null`.
-/

import MultiSegmentWell.Json.Basic
import MultiSegmentWell.Number.Layout

namespace MultiSegmentWell
namespace Json

/-- How the parts of a value are set apart. -/
structure Style where
  /-- What stands before an item at a level, and before the closing bracket. -/
  lineBreak : Nat → List Char
  /-- What stands between a colon and the value. -/
  gap : List Char

/-- Everything on one line, without blanks. -/
def compact : Style where
  lineBreak _ := []
  gap := []

/-- Every item on a line of its own. -/
def spread : Style where
  lineBreak level := '\n' :: List.replicate (2 * level) ' '
  gap := [' ']

/-- A hexadecimal digit in lower case. -/
def hexChar (n : Nat) : Char := (Nat.toDigits 16 n).headD '0'

/-- A character inside a string. -/
def escapeChar (c : Char) : List Char :=
  if c = '"' then ['\\', '"']
  else if c = '\\' then ['\\', '\\']
  else if c = '\x08' then ['\\', 'b']
  else if c = '\x0c' then ['\\', 'f']
  else if c = '\n' then ['\\', 'n']
  else if c = '\r' then ['\\', 'r']
  else if c = '\t' then ['\\', 't']
  else if c.toNat < 0x20 then ['\\', 'u', '0', '0', hexChar (c.toNat / 16), hexChar (c.toNat % 16)]
  else [c]

/-- A quoted string. -/
def quoted (text : String) : List Char :=
  '"' :: (text.toList.flatMap escapeChar ++ ['"'])

/-- The name of a field, its colon and what stands between that and the value. -/
def fieldHead (style : Style) (name : Option String) : List Char :=
  quoted (name.getD "") ++ ':' :: style.gap

mutual

/-- The characters of a value at a level of nesting. -/
def render (style : Style) (level : Nat) : Json → List Char
  | .null => "null".toList
  | .bool true => "true".toList
  | .bool false => "false".toList
  | .integer n => Layout.integerChars n
  | .real x => if x.isFinite then (Layout.json.write x).toList else "null".toList
  | .string text => quoted (text.getD "")
  | .list [] => ['[', ']']
  | .list (v :: vs) =>
    '[' :: (style.lineBreak (level + 1) ++ render style (level + 1) v ++ renderItems style level vs)
  | .object [] => ['\x7b', '\x7d']
  | .object ((name, v) :: fs) =>
    '\x7b' :: (style.lineBreak (level + 1) ++ fieldHead style name ++ render style (level + 1) v
      ++ renderFields style level fs)

/-- The further items of a list, with its closing bracket. -/
def renderItems (style : Style) (level : Nat) : List Json → List Char
  | [] => style.lineBreak level ++ [']']
  | v :: vs =>
    ',' :: (style.lineBreak (level + 1) ++ render style (level + 1) v ++ renderItems style level vs)

/-- The further fields of an object, with its closing brace. -/
def renderFields (style : Style) (level : Nat) : List (Option String × Json) → List Char
  | [] => style.lineBreak level ++ ['\x7d']
  | (name, v) :: fs =>
    ',' :: (style.lineBreak (level + 1) ++ fieldHead style name ++ render style (level + 1) v
      ++ renderFields style level fs)

end

/-- A value as text. -/
def print (style : Style) (v : Json) : String := String.ofList (render style 0 v)

end Json
end MultiSegmentWell
