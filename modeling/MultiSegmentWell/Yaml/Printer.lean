/-
# Writing YAML

The writer that programs run with; deck files may be written by another one (`TextFormats`).

A value is written in block style: an entry of a mapping on a line of its own, two
spaces for each level, and the dashes of a list at the column of its key. Empty
lists and objects are written in flow style.

A text is written plain where it can be read back as the same text, between single
quotes where it would be taken for something else, between double quotes where it
holds characters that have to be escaped, and as a block where it has several
lines.
-/

import MultiSegmentWell.Json.Basic
import MultiSegmentWell.Number.Layout
import MultiSegmentWell.Yaml.Resolution

namespace MultiSegmentWell
namespace Yaml

/-- Whether a character is written as it is. Characters of the supplementary planes
are escaped. -/
def isWritable (c : Char) : Bool :=
  let n := c.toNat
  n == 0x0A || (0x20 ≤ n && n ≤ 0x7E) || (0xA0 ≤ n && n ≤ 0xFFFD && n != 0xFEFF)

/-- What has to be known about a text to choose how to write it. -/
structure Shape where
  hasBreak : Bool
  hasUnwritable : Bool
  startsBlank : Bool
  endsBlank : Bool
  startsBreak : Bool
  endsBreak : Bool
  /-- A space follows the end of a line. -/
  hasBreakSpace : Bool
  /-- A space stands before the end of a line. -/
  hasSpaceBreak : Bool

/-- Whether two characters with these properties stand side by side. -/
def hasPair (p q : Char → Bool) (text : List Char) : Bool :=
  (text.zip (text.drop 1)).any fun (a, b) => p a && q b

/-- The shape of a text. -/
def shape (text : List Char) : Shape where
  hasBreak := text.any isBreak
  hasUnwritable := !text.all isWritable
  startsBlank := text.head? == some ' '
  endsBlank := text.getLast? == some ' '
  startsBreak := text.head?.any isBreak
  endsBreak := text.getLast?.any isBreak
  hasBreakSpace := hasPair isBreak (· == ' ') text
  hasSpaceBreak := hasPair (· == ' ') isBreak text

/-- Whether the start of a text means something other than text. -/
def startsLikeMark (text : List Char) : Bool :=
  text.take 3 == ['-', '-', '-'] || text.take 3 == ['.', '.', '.']
    || match text with
      | [] => false
      | x :: rest =>
        "#,[]\x7b\x7d&*!|>'\"%@\x60".toList.contains x
          || ("?:-".toList.contains x && endsWord rest.head?)

/-- Whether a part of a text means something other than text: a colon before a blank
or a number sign behind one. -/
def holdsMark (text : List Char) : Bool :=
  text.getLast? == some ':'
    || hasPair (· == ':') (fun c => endsWord (some c)) text
    || hasPair (fun c => endsWord (some c)) (· == '#') text

/-- Whether a text can be written plain. -/
def isPlain (text : List Char) : Bool :=
  let s := shape text
  !(s.hasBreak || s.hasUnwritable || s.startsBlank || s.endsBlank || startsLikeMark text
    || holdsMark text)

/-- Whether a text can be written between single quotes. -/
def isSingleQuotable (text : List Char) : Bool :=
  let s := shape text
  !(s.hasBreakSpace || s.hasSpaceBreak || s.hasUnwritable)

/-- Whether a text can be written as a block. -/
def isBlock (text : List Char) : Bool :=
  let s := shape text
  !(s.endsBlank || s.hasSpaceBreak || s.hasUnwritable)

/-- Whether a plain scalar with this text would be taken for something else. -/
def isTakenForOther (text : String) : Bool :=
  hasLeadingZero text.toList ||
    match resolve? text with
    | some (.string _) => false
    | some _ => true
    | none => true

/-- Hexadecimal digits in upper case. -/
def hexDigits (width n : Nat) : List Char :=
  let digits := (Nat.toDigits 16 n).map Char.toUpper
  List.replicate (width - digits.length) '0' ++ digits

/-- The letter for an escaped character that has one. -/
def escapeLetter? (c : Char) : Option Char :=
  "0abtnvfre\"\\N_LP".toList.find? fun letter => escaped? letter == some c

/-- A character between double quotes. -/
def doubleQuotedChar (c : Char) : List Char :=
  if isWritable c && !isBreak c && c != '"' && c != '\\' then [c]
  else
    match escapeLetter? c with
    | some letter => ['\\', letter]
    | none =>
      if c.toNat ≤ 0xFF then '\\' :: 'x' :: hexDigits 2 c.toNat
      else if c.toNat ≤ 0xFFFF then '\\' :: 'u' :: hexDigits 4 c.toNat
      else '\\' :: 'U' :: hexDigits 8 c.toNat

/-- A text between double quotes. -/
def doubleQuoted (text : List Char) : List Char :=
  '"' :: (text.flatMap doubleQuotedChar ++ ['"'])

/-- Spaces. -/
def spaces (n : Nat) : List Char := List.replicate n ' '

/-- The characters of a text between single quotes, with what follows the end of a
line indented. -/
def singleQuotedBody (column : Nat) (afterBreak : Bool) : List Char → List Char
  | [] => if afterBreak then spaces column else []
  | c :: rest =>
    if isBreak c then c :: singleQuotedBody column true rest
    else
      (if afterBreak then spaces column else []) ++ (if c = '\'' then [c, c] else [c])
        ++ singleQuotedBody column false rest

/-- A text between single quotes. -/
def singleQuoted (column : Nat) (text : List Char) : List Char :=
  '\'' :: (singleQuotedBody column false text ++ ['\''])

/-- The hints behind the mark of a block. -/
def hintsOf (text : List Char) : List Char :=
  let indent := if text.head?.any fun c => c == ' ' || isBreak c then ['2'] else []
  let chomping := match text.reverse with
    | last :: before =>
      if !isBreak last then ['-']
      else
        match before with
        | [] => ['+']
        | c :: _ => if isBreak c then ['+'] else []
    | [] => ['-']
  indent ++ chomping

/-- The lines of a block, each but the empty ones indented. -/
def blockBody (column : Nat) (afterBreak : Bool) : List Char → List Char
  | [] => []
  | c :: rest =>
    if isBreak c then c :: blockBody column true rest
    else (if afterBreak then spaces column else []) ++ c :: blockBody column false rest

/-- A text as a block. -/
def block (column : Nat) (text : List Char) : List Char :=
  '|' :: (hintsOf text ++ '\n' :: blockBody column true text)

/-- A text whose further lines start at a column. -/
def scalarChars (column : Nat) (text : String) : List Char :=
  let chars := text.toList
  if chars.contains '\n' then if isBlock chars then block column chars else doubleQuoted chars
  else if !isTakenForOther text && isPlain chars then chars
  else if isSingleQuotable chars then singleQuoted column chars
  else doubleQuoted chars

/-- A text and the end of its line; a block may have it already. -/
def scalarLine (column : Nat) (text : String) : List Char :=
  let chars := scalarChars column text
  if chars.getLast?.any isBreak then chars else chars ++ ['\n']

mutual

/-- A value behind the colon of a key at a column. -/
def afterKey (column : Nat) : Json → List Char
  | .null => " null\n".toList
  | .bool true => " true\n".toList
  | .bool false => " false\n".toList
  | .integer n => ' ' :: (Layout.integerChars n ++ ['\n'])
  | .real x => ' ' :: ((Layout.yaml.write x).toList ++ ['\n'])
  | .string text => ' ' :: scalarLine (column + 2) (text.getD "")
  | .list [] => " []\n".toList
  | .list (v :: vs) => '\n' :: items column (v :: vs)
  | .object [] => " \x7b\x7d\n".toList
  | .object (f :: fs) => '\n' :: fields (column + 2) (f :: fs)

/-- A value behind the dash of an item at a column. -/
def afterDash (column : Nat) : Json → List Char
  | .object ((name, v) :: fs) =>
    ' ' :: (scalarChars (column + 2) (name.getD "") ++ ':' :: afterKey (column + 2) v
      ++ fields (column + 2) fs)
  | .list (v :: vs) => " -".toList ++ afterDash (column + 2) v ++ items (column + 2) vs
  | .null => " null\n".toList
  | .bool true => " true\n".toList
  | .bool false => " false\n".toList
  | .integer n => ' ' :: (Layout.integerChars n ++ ['\n'])
  | .real x => ' ' :: ((Layout.yaml.write x).toList ++ ['\n'])
  | .string text => ' ' :: scalarLine (column + 2) (text.getD "")
  | .list [] => " []\n".toList
  | .object [] => " \x7b\x7d\n".toList

/-- Items at a column. -/
def items (column : Nat) : List Json → List Char
  | [] => []
  | v :: vs => spaces column ++ '-' :: afterDash column v ++ items column vs

/-- Entries at a column. -/
def fields (column : Nat) : List (Option String × Json) → List Char
  | [] => []
  | (name, v) :: fs =>
    spaces column ++ scalarChars (column + 2) (name.getD "") ++ ':' :: afterKey column v
      ++ fields column fs

end

/-- A document with a value. -/
def print : Json → String
  | .object (f :: fs) => String.ofList (fields 0 (f :: fs))
  | .list (v :: vs) => String.ofList (items 0 (v :: vs))
  | v => String.ofList ((afterKey 0 v).drop 1)

end Yaml
end MultiSegmentWell
