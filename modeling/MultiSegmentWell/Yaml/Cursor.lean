/-
# Places in a YAML text

A cursor is the rest of a text with the place where it starts. Lines end at a line
feed, a carriage return, both together, a next-line character or one of the two
Unicode separators; all but the separators are read as a line feed.
-/

namespace MultiSegmentWell
namespace Yaml

/-- Whether a character may stand in a text. -/
def isPrintable (c : Char) : Bool :=
  let n := c.toNat
  n == 0x09 || n == 0x0A || n == 0x0D || (0x20 ≤ n && n ≤ 0x7E) || n == 0x85
    || (0xA0 ≤ n && n ≤ 0xFFFD && n != 0xFEFF) || 0x10000 ≤ n

/-- Whether a character ends a line. -/
def isBreak (c : Char) : Bool :=
  c == '\n' || c == '\r' || c == '\u0085' || c == '\u2028' || c == '\u2029'

/-- Whether a character is a blank within a line. -/
def isBlank (c : Char) : Bool := c == ' ' || c == '\t'

/-- Whether a word ends before this character or end of text. -/
def endsWord : Option Char → Bool
  | none => true
  | some c => isBlank c || isBreak c

/-- Whether a line ends before this character or end of text. -/
def endsLine : Option Char → Bool
  | none => true
  | some c => isBreak c

/-- The rest of a text and where it starts, counted in characters. -/
structure Cursor where
  rest : List Char
  index : Nat := 0
  line : Nat := 0
  column : Nat := 0

namespace Cursor

/-- The character some places further on. -/
def peek (c : Cursor) (ahead : Nat) : Option Char := c.rest[ahead]?

/-- Whether the next character is this one. -/
def sees (c : Cursor) (x : Char) : Bool := c.peek 0 == some x

/-- The cursor after characters of the same line. -/
def skip (c : Cursor) (count : Nat) : Cursor :=
  { c with rest := c.rest.drop count, index := c.index + count, column := c.column + count }

/-- The cursor after the characters up to the first without a property. -/
def skipWhile (c : Cursor) (p : Char → Bool) : Cursor := c.skip (c.rest.takeWhile p).length

/-- The cursor after the end of a line, with the text that the end is read as. -/
def skipBreak (c : Cursor) : List Char × Cursor :=
  let after (count : Nat) : Cursor :=
    { rest := c.rest.drop count, index := c.index + count, line := c.line + 1 }
  match c.rest with
  | '\r' :: '\n' :: _ => (['\n'], after 2)
  | x :: _ =>
    if x == '\u2028' || x == '\u2029' then ([x], after 1)
    else if isBreak x then (['\n'], after 1)
    else ([], c)
  | [] => ([], c)

/-- Whether a line starts here with three of a character that stand alone. -/
def seesMarker (c : Cursor) (x : Char) : Bool :=
  c.column == 0 && c.rest.take 3 == [x, x, x] && endsWord (c.peek 3)

/-- Whether a line starts here that begins or ends a document. -/
def seesDocumentMarker (c : Cursor) : Bool := c.seesMarker '-' || c.seesMarker '.'

end Cursor
end Yaml
end MultiSegmentWell
