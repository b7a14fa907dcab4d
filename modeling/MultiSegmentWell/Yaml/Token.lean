/-
# Tokens of a YAML text

A text is cut into tokens: scalars, the marks of flow collections, and the starts
and ends of block collections, which the indentation of lines gives.

A key may be written without a mark of its own; it is only known to be one when a
colon follows on the same line. Whatever may be such a key is therefore remembered
with its place, and the token for the key, and for the start of a mapping if its
column is deeper than that of the collection around it, is put in there when the
colon comes. A key that has to be one, because it stands at the column of a mapping,
must be followed by its colon.

Anchors, aliases, tags and directives are refused.
-/

import MultiSegmentWell.Yaml.Scalar

namespace MultiSegmentWell
namespace Yaml

/-- A token. -/
inductive Token where
  | documentStart
  | documentEnd
  | sequenceStart
  | mappingStart
  | blockEnd
  | flowSequenceStart
  | flowSequenceEnd
  | flowMappingStart
  | flowMappingEnd
  | item
  | comma
  | key
  | value
  | scalar (plain : Bool) (text : String)
deriving Repr, DecidableEq

/-- Something that a colon would make a key. -/
structure Candidate where
  /-- Whether it has to be a key. -/
  required : Bool
  /-- The number of tokens in front of it. -/
  position : Nat
  index : Nat
  line : Nat
  column : Nat

/-- How far cutting a text has come. -/
structure Scanner where
  cursor : Cursor
  /-- The tokens so far, the last one first. -/
  tokens : List Token := []
  /-- The columns of the open block collections, the innermost one first. -/
  indents : List Nat := []
  /-- Whether a key without a mark may come next. -/
  keyAllowed : Bool := true
  /-- The candidate outside of flow collections. -/
  candidate : Option Candidate := none
  /-- The candidates around each open flow collection, the innermost one first. -/
  outer : List (Option Candidate) := []

namespace Scanner

/-- Whether a flow collection is open. -/
def inFlow (s : Scanner) : Bool := !s.outer.isEmpty

/-- The column of the innermost block collection, −1 outside of collections. -/
def indent (s : Scanner) : Int :=
  match s.indents with
  | column :: _ => column
  | [] => -1

/-- One more token. -/
def emit (s : Scanner) (t : Token) : Scanner := { s with tokens := t :: s.tokens }

/-- A token put in behind the first `position` ones. -/
def emitAt (s : Scanner) (position : Nat) (t : Token) : Scanner :=
  { s with tokens := s.tokens.insertIdx (s.tokens.length - position) t }

/-- The scanner some characters further on. -/
def skip (s : Scanner) (count : Nat) : Scanner := { s with cursor := s.cursor.skip count }

/-- Opens a block collection at a column if it is deeper than the innermost one. -/
def openBlock (s : Scanner) (column position : Nat) (t : Token) : Scanner :=
  if !s.inFlow && s.indent < column then
    { s.emitAt position t with indents := column :: s.indents }
  else s

/-- Ends of the block collections deeper than a column, and the others. -/
def closed (column : Int) : List Nat → List Token × List Nat
  | [] => ([], [])
  | c :: cs =>
    if column < c then
      let (ends, open_) := closed column cs
      (.blockEnd :: ends, open_)
    else ([], c :: cs)

/-- Closes the block collections deeper than a column. -/
def closeBlocks (s : Scanner) (column : Int) : Scanner :=
  if s.inFlow then s
  else
    let (ends, indents) := closed column s.indents
    { s with tokens := ends ++ s.tokens, indents }

/-- Gives up a candidate, unless it has to be a key. -/
def dropped : Option Candidate → Option (Option Candidate)
  | some c => if c.required then none else some none
  | none => some none

/-- Gives up the candidate. -/
def dropCandidate (s : Scanner) : Option Scanner :=
  (dropped s.candidate).map fun candidate => { s with candidate }

/-- The greatest distance between a key and its colon. -/
def keyReach : Nat := 1024

/-- A candidate, given up if it stands on an earlier line or too far back. -/
def current (c : Cursor) : Option Candidate → Option (Option Candidate)
  | some k => if k.line < c.line || k.index + keyReach < c.index then dropped (some k) else some (some k)
  | none => some none

/-- Gives up the candidates that a colon can no longer make keys. -/
def dropStale (s : Scanner) : Option Scanner := do
  let candidate ← current s.cursor s.candidate
  let outer ← s.outer.mapM (current s.cursor)
  some { s with candidate, outer }

/-- Remembers what comes next as a candidate, if a key may come next. -/
def saveCandidate (s : Scanner) : Option Scanner :=
  if s.keyAllowed then do
    let s ← s.dropCandidate
    let c := s.cursor
    some { s with
      candidate := some {
        required := !s.inFlow && s.indent == c.column
        position := s.tokens.length
        index := c.index
        line := c.line
        column := c.column } }
  else some s

/-- The scanner in front of the next token: behind blanks, comments and ends of lines. -/
def skipToToken : (fuel : Nat) → Scanner → Scanner
  | 0, s => s
  | fuel + 1, s =>
    let blank (x : Char) := x == ' ' || ((s.inFlow || !s.keyAllowed) && x == '\t')
    let c := s.cursor.skipWhile blank
    let c := if c.sees '#' then c.skipWhile fun x => !isBreak x else c
    if (c.peek 0).any isBreak then
      skipToToken fuel { s with cursor := c.skipBreak.2, keyAllowed := s.keyAllowed || !s.inFlow }
    else { s with cursor := c }

/-- The mark of the start or the end of a document. -/
def documentMark (s : Scanner) (t : Token) : Option Scanner := do
  let s ← (s.closeBlocks (-1)).dropCandidate
  some ({ s with keyAllowed := false }.emit t |>.skip 3)

/-- The start of a flow collection. -/
def openFlow (s : Scanner) (t : Token) : Option Scanner := do
  let s ← s.saveCandidate
  some ({ s with outer := s.candidate :: s.outer, candidate := none, keyAllowed := true }.emit t
    |>.skip 1)

/-- The end of a flow collection. -/
def closeFlow (s : Scanner) (t : Token) : Option Scanner := do
  let s ← s.dropCandidate
  let s := match s.outer with
    | candidate :: outer => { s with candidate, outer }
    | [] => s
  some ({ s with keyAllowed := false }.emit t |>.skip 1)

/-- A comma. -/
def comma (s : Scanner) : Option Scanner := do
  let s ← s.dropCandidate
  some ({ s with keyAllowed := true }.emit .comma |>.skip 1)

/-- The dash in front of an item of a block. -/
def item (s : Scanner) : Option Scanner :=
  if !s.inFlow && !s.keyAllowed then none
  else do
    let s ← (s.openBlock s.cursor.column s.tokens.length .sequenceStart).dropCandidate
    some ({ s with keyAllowed := true }.emit .item |>.skip 1)

/-- The mark in front of a key. -/
def key (s : Scanner) : Option Scanner :=
  if !s.inFlow && !s.keyAllowed then none
  else do
    let s ← (s.openBlock s.cursor.column s.tokens.length .mappingStart).dropCandidate
    some ({ s with keyAllowed := !s.inFlow }.emit .key |>.skip 1)

/-- A colon in front of a value. -/
def value (s : Scanner) : Option Scanner :=
  match s.candidate with
  | some k =>
    let s := (s.emitAt k.position .key).openBlock k.column k.position .mappingStart
    some ({ s with candidate := none, keyAllowed := false }.emit .value |>.skip 1)
  | none =>
    if !s.inFlow && !s.keyAllowed then none
    else
      let s := s.openBlock s.cursor.column s.tokens.length .mappingStart
      some ({ s with keyAllowed := !s.inFlow }.emit .value |>.skip 1)

/-- A quoted scalar. -/
def quoted (s : Scanner) : Option Scanner := do
  let s ← s.saveCandidate
  let (text, cursor) ← quotedScalar s.cursor
  some ({ s with cursor, keyAllowed := false }.emit (.scalar false (String.ofList text)))

/-- A plain scalar. -/
def plain (s : Scanner) : Option Scanner := do
  let s ← s.saveCandidate
  let (text, ended, cursor) ← plainScalar s.inFlow (s.indent + 1).toNat s.cursor
  some ({ s with cursor, keyAllowed := ended }.emit (.scalar true (String.ofList text)))

/-- A block. -/
def block (s : Scanner) : Option Scanner := do
  let s ← s.dropCandidate
  let (text, cursor) ← blockScalar s.indent s.cursor
  some ({ s with cursor, keyAllowed := true }.emit (.scalar false (String.ofList text)))

/-- Whether a plain scalar may start with a character, given the one behind it. -/
def startsPlain (inFlow : Bool) (x : Char) (next : Option Char) : Bool :=
  !(endsWord (some x) || "-?:,[]\x7b\x7d#&*!|>'\"%@\x60".toList.contains x)
    || (x == '-' && !next.any isBlank)
    || (!inFlow && (x == '?' || x == ':') && !endsWord next)

/-- The token that starts at a character. -/
def token (s : Scanner) (x : Char) : Option Scanner :=
  let next := s.cursor.peek 1
  if s.cursor.seesMarker '-' then s.documentMark .documentStart
  else if s.cursor.seesMarker '.' then s.documentMark .documentEnd
  else if x == '%' && s.cursor.column == 0 then none
  else if x == '[' then s.openFlow .flowSequenceStart
  else if x == '\x7b' then s.openFlow .flowMappingStart
  else if x == ']' then s.closeFlow .flowSequenceEnd
  else if x == '\x7d' then s.closeFlow .flowMappingEnd
  else if x == ',' then s.comma
  else if x == '-' && endsWord next then s.item
  else if x == '?' && endsWord next then s.key
  else if x == ':' && (s.inFlow || endsWord next) then s.value
  else if (x == '|' || x == '>') && !s.inFlow then s.block
  else if x == '\'' || x == '"' then s.quoted
  else if startsPlain s.inFlow x next then s.plain
  else none

/-- The tokens up to the end of the text. -/
def run : (fuel : Nat) → Scanner → Option (List Token)
  | 0, _ => none
  | fuel + 1, s => do
    let s ← (s.skipToToken (s.cursor.rest.length + 1)).dropStale
    match s.cursor.rest with
    | [] =>
      let s ← (s.closeBlocks (-1)).dropCandidate
      some s.tokens.reverse
    | x :: _ => run fuel (← (s.closeBlocks s.cursor.column).token x)

end Scanner

/-- The tokens of a text; a byte order mark in front of it is left out. -/
def tokens (text : String) : Option (List Token) :=
  let chars := match text.toList with
    | '\ufeff' :: rest => rest
    | chars => chars
  if chars.all isPrintable then Scanner.run (chars.length + 2) { cursor := { rest := chars } }
  else none

end Yaml
end MultiSegmentWell
