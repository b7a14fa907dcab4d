/-
# Scalars of a YAML text

Reading the scalars of a text: plain ones, quoted ones and blocks. Each reader gives
the text of the scalar and the place behind it, or nothing where the text is not
allowed.

Within plain and quoted scalars, lines are folded: blanks around the end of a line
are dropped, a single end of line becomes a space, and of several ends the first is
dropped. Blocks keep their lines from their indentation on.
-/

import MultiSegmentWell.Json.Reader
import MultiSegmentWell.Yaml.Cursor

namespace MultiSegmentWell
namespace Yaml

/-- Blanks and ends of lines between two parts of a scalar. -/
structure Gap where
  /-- The blanks before the first end of a line. -/
  blanks : List Char := []
  /-- What the ends of lines are read as. -/
  breaks : List (List Char) := []

namespace Gap

/-- Whether a line ends in the gap. -/
def hasBreak (g : Gap) : Bool := !g.breaks.isEmpty

/-- The text that a gap is folded to. -/
def fold (g : Gap) : List Char :=
  match g.breaks with
  | [] => g.blanks
  | [['\n']] => [' ']
  | ['\n'] :: more => more.flatten
  | breaks => breaks.flatten

/-- The gap at a cursor. After an end of line, a tab left of the column `indent` is
not allowed. -/
def scan (indent : Nat) : (fuel : Nat) → Gap → Cursor → Option (Gap × Cursor)
  | 0, _, _ => none
  | fuel + 1, g, c =>
    match c.peek 0 with
    | some x =>
      if isBlank x then
        if g.hasBreak then
          if x == '\t' && c.column < indent then none else scan indent fuel g (c.skip 1)
        else scan indent fuel { g with blanks := g.blanks ++ [x] } (c.skip 1)
      else if isBreak x then
        let (text, c) := c.skipBreak
        scan indent fuel { g with breaks := g.breaks ++ [text] } c
      else some (g, c)
    | none => some (g, c)

end Gap

/-- Whether a character opens, closes or parts a flow collection. -/
def isFlowIndicator (c : Char) : Bool :=
  c == ',' || c == '[' || c == ']' || c == '\x7b' || c == '\x7d'

/-- The characters of a plain scalar up to a blank or its end. In a flow collection a
colon must not stand directly before an indicator. -/
def plainRun (inFlow : Bool) : List Char → Option (List Char)
  | [] => some []
  | x :: rest =>
    if endsWord (some x) then some []
    else if inFlow && x == ':' && rest.head?.any (fun y => y == '?' || isFlowIndicator y) then none
    else if (x == ':' && endsWord rest.head?) || (inFlow && isFlowIndicator x) then some []
    else (plainRun inFlow rest).map (x :: ·)

/-- The further parts of a plain scalar, and whether a line ended after the last. -/
def plainRest (inFlow : Bool) (indent : Nat) :
    (fuel : Nat) → Cursor → Option (List Char × Bool × Cursor)
  | 0, _ => none
  | fuel + 1, c => do
    if !(c.peek 0).any fun x => isBlank x || isBreak x then some ([], false, c)
    else
      let (gap, c) ← Gap.scan indent (fuel + 1) {} c
      if !inFlow && c.column < indent || c.seesDocumentMarker || c.sees '#' then
        some ([], gap.hasBreak, c)
      else
        match ← plainRun inFlow c.rest with
        | [] => some ([], gap.hasBreak, c)
        | run =>
          let (text, ended, c) ← plainRest inFlow indent fuel (c.skip run.length)
          some (gap.fold ++ run ++ text, ended, c)

/-- A plain scalar whose lines are at least at the column `indent`, and whether a line
ended after it. -/
def plainScalar (inFlow : Bool) (indent : Nat) (c : Cursor) :
    Option (List Char × Bool × Cursor) := do
  let run ← plainRun inFlow c.rest
  let (text, ended, c) ← plainRest inFlow indent (c.rest.length + 1) (c.skip run.length)
  some (run ++ text, ended, c)

/-- The character that a letter stands for after a backslash. -/
def escaped? : Char → Option Char
  | '0' => some '\x00'
  | 'a' => some '\x07'
  | 'b' => some '\x08'
  | 't' | '\t' => some '\t'
  | 'n' => some '\n'
  | 'v' => some '\x0b'
  | 'f' => some '\x0c'
  | 'r' => some '\r'
  | 'e' => some '\x1b'
  | ' ' => some ' '
  | '"' => some '"'
  | '/' => some '/'
  | '\\' => some '\\'
  | 'N' => some '\u0085'
  | '_' => some '\u00a0'
  | 'L' => some '\u2028'
  | 'P' => some '\u2029'
  | _ => none

/-- The number of hexadecimal digits after a letter behind a backslash. -/
def escapeWidth? : Char → Option Nat
  | 'x' => some 2
  | 'u' => some 4
  | 'U' => some 8
  | _ => none

/-- The character with a number, unless it is half of a surrogate pair or too large. -/
def charOfNumber? (n : Nat) : Option Char :=
  if h : n.isValidChar then some (Char.ofNatAux n h) else none

/-- A character written with a backslash, and the number of characters that it takes. -/
def escape? : List Char → Option (Char × Nat)
  | [] => none
  | x :: rest =>
    match escapeWidth? x with
    | some width => do
      let digits := rest.take width
      if digits.length < width then none
      else some (← charOfNumber? (← Json.hexNumber? digits), width + 2)
    | none => (escaped? x).map fun y => (y, 2)

/-- The characters of a quoted scalar up to a blank, its end or a line that ends at a
backslash, which is reported. -/
def quotedRun (quote : Char) : (fuel : Nat) → Cursor → Option (List Char × Bool × Cursor)
  | 0, _ => none
  | fuel + 1, c =>
    match c.rest with
    | [] => some ([], false, c)
    | x :: rest =>
      let next (y : Char) (count : Nat) :=
        (quotedRun quote fuel (c.skip count)).map fun (text, joined, c) => (y :: text, joined, c)
      if endsWord (some x) then some ([], false, c)
      else if x == quote then
        if quote == '\'' && rest.head? == some quote then next quote 2 else some ([], false, c)
      else if quote == '"' && x == '\\' then
        if rest.head?.any isBreak then some ([], true, (c.skip 1).skipBreak.2)
        else do
          let (y, count) ← escape? rest
          next y count
      else next x 1

/-- The text of a quoted scalar behind its opening quote. -/
def quotedRest (quote : Char) : (fuel : Nat) → Cursor → Option (List Char × Cursor)
  | 0, _ => none
  | fuel + 1, c => do
    if c.seesDocumentMarker || c.rest.isEmpty then none
    else
      let (run, joined, c) ← quotedRun quote (c.rest.length + 1) c
      if c.sees quote then some (run, c.skip 1)
      else
        let (gap, c) ← Gap.scan 0 (c.rest.length + 1) {} c
        -- Behind a line that ends at a backslash, nothing is left of its end.
        let folded := if joined then gap.breaks.flatten else gap.fold
        let (text, c) ← quotedRest quote fuel c
        some (run ++ folded ++ text, c)

/-- A quoted scalar. -/
def quotedScalar (c : Cursor) : Option (List Char × Cursor) :=
  match c.rest with
  | quote :: rest => quotedRest quote (rest.length + 1) (c.skip 1)
  | [] => none

/-- What happens to the ends of the last lines of a block. -/
inductive Chomping where
  | strip
  | clip
  | keep
deriving DecidableEq

/-- The chomping that a sign asks for. -/
def chomping? : Char → Option Chomping
  | '-' => some .strip
  | '+' => some .keep
  | _ => none

/-- The indentation that a digit asks for. -/
def indentHint? (c : Char) : Option Nat :=
  if '1' ≤ c && c ≤ '9' then some (c.toNat - '0'.toNat) else none

/-- The hints behind the mark of a block, in either order, and their number. -/
def blockHints : List Char → Chomping × Option Nat × Nat
  | x :: y :: _ =>
    match chomping? x, indentHint? x with
    | some chomping, _ =>
      match indentHint? y with
      | some indent => (chomping, some indent, 2)
      | none => (chomping, none, 1)
    | none, some indent =>
      match chomping? y with
      | some chomping => (chomping, some indent, 2)
      | none => (.clip, some indent, 1)
    | none, none => (.clip, none, 0)
  | [x] =>
    match chomping? x, indentHint? x with
    | some chomping, _ => (chomping, none, 1)
    | none, some indent => (.clip, some indent, 1)
    | none, none => (.clip, none, 0)
  | [] => (.clip, none, 0)

/-- Empty lines of a block, up to a line with text or its end. While the indentation
is not known, the deepest column that spaces reach is kept. A tab within the
indentation is not allowed. -/
def blockBreaks (indent : Option Nat) :
    (fuel : Nat) → (deepest : Nat) → Cursor → Option (List Char × Nat × Cursor)
  | 0, _, _ => none
  | fuel + 1, deepest, c =>
    let indented (column : Nat) := indent.any fun n => n ≤ column
    let width := ((c.rest.takeWhile (· == ' ')).length)
    let c := c.skip (match indent with
      | some n => min width (n - c.column)
      | none => width)
    let deepest := max deepest c.column
    match c.peek 0 with
    | some x =>
      if x == '\t' && !indented c.column then none
      else if isBreak x then
        let (text, c) := c.skipBreak
        (blockBreaks indent fuel deepest c).map fun (texts, deepest, c) => (text ++ texts, deepest, c)
      else some ([], deepest, c)
    | none => some ([], deepest, c)

/-- The end of the line before a part of a block, folded where it may be. -/
def joinLines (literal : Bool) (lineBreak breaks : List Char) (wasBlank startsBlank : Bool) :
    List Char :=
  if !literal && lineBreak == ['\n'] && !wasBlank && !startsBlank then
    if breaks.isEmpty then [' '] else breaks
  else lineBreak ++ breaks

/-- The lines of a block from the column `indent` on, with the ends of lines behind
the last one: its own and those of empty lines. -/
def blockLines (literal : Bool) (indent : Nat) :
    (fuel : Nat) → (lineBreak breaks : List Char) → (wasBlank : Bool) → Cursor →
      Option (List Char × List Char × List Char × Cursor)
  | 0, _, _, _, _ => none
  | fuel + 1, lineBreak, breaks, wasBlank, c =>
    if c.column != indent || c.rest.isEmpty then some ([], lineBreak, breaks, c)
    else do
      let startsBlank := (c.peek 0).any isBlank
      let line := c.rest.takeWhile fun x => !isBreak x
      let (nextBreak, c) := (c.skip line.length).skipBreak
      let (nextBreaks, _, c) ← blockBreaks (some indent) (c.rest.length + 1) 0 c
      let (text, lastBreak, lastBreaks, c) ←
        blockLines literal indent fuel nextBreak nextBreaks startsBlank c
      some (joinLines literal lineBreak breaks wasBlank startsBlank ++ line ++ text, lastBreak,
        lastBreaks, c)

/-- A block in a collection with an indentation, −1 outside of collections. -/
def blockScalar (parentIndent : Int) (c : Cursor) : Option (List Char × Cursor) := do
  let literal := c.sees '|'
  let c := c.skip 1
  let (chomping, hint, width) := blockHints c.rest
  let c := (c.skip width).skipWhile isBlank
  let c := if c.sees '#' then c.skipWhile fun x => !isBreak x else c
  if !endsLine (c.peek 0) then none
  else
    let c := c.skipBreak.2
    let given := hint.map fun n => (max parentIndent 0).toNat + n
    let (breaks, deepest, c) ← blockBreaks given (c.rest.length + 1) 0 c
    let indent := given.getD (max (max deepest (parentIndent + 1).toNat) 1)
    let (text, lastBreak, lastBreaks, c) ←
      blockLines literal indent (c.rest.length + 1) [] breaks false c
    let ending := match chomping with
      | .strip => []
      | .clip => lastBreak
      | .keep => lastBreak ++ lastBreaks
    some (text ++ ending, c)

end Yaml
end MultiSegmentWell
