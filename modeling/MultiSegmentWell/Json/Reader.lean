/-
# Reading JSON

`Json.parse` reads one value with nothing but blanks around it. The grammar is
the strict one: no leading zeros, digits on both sides of a point, no control
characters in strings, no comma after the last item. Numerals are read as the
nearest doubles.

It is one reader among others, which may round numerals differently; what is proved
of deck files holds for every reader that takes back what its writer wrote
(`TextFormats`).

The readers below take a text and give what stands at its front with the rest of
the text. Each nested reader is given less fuel than the one that calls it;
between two values at least one character is used up, so twice the length of the
text is always enough.
-/

import MultiSegmentWell.Json.Basic

namespace MultiSegmentWell
namespace Json

/-- The blanks that may stand between the parts of a value. -/
def isBlank (c : Char) : Bool := c == ' ' || c == '\n' || c == '\t' || c == '\r'

/-- A text without its leading blanks. -/
def skipBlanks (text : List Char) : List Char := text.dropWhile isBlank

/-- The value of a hexadecimal digit. -/
def hexDigit? (c : Char) : Option Nat :=
  if c.isDigit then some (c.toNat - '0'.toNat)
  else if 'a' ≤ c && c ≤ 'f' then some (c.toNat - 'a'.toNat + 10)
  else if 'A' ≤ c && c ≤ 'F' then some (c.toNat - 'A'.toNat + 10)
  else none

/-- The number that hexadecimal digits denote. -/
def hexNumber? (digits : List Char) : Option Nat :=
  digits.foldlM (fun n c => (hexDigit? c).map (16 * n + ·)) 0

/-- The character that a letter stands for after a backslash. -/
def escaped? : Char → Option Char
  | '"' => some '"'
  | '\\' => some '\\'
  | '/' => some '/'
  | 'b' => some '\x08'
  | 'f' => some '\x0c'
  | 'n' => some '\n'
  | 'r' => some '\r'
  | 't' => some '\t'
  | _ => none

/-- The character with a code unit of its own, `none` for half of a surrogate pair. -/
def charOfUnit (unit : Nat) : Option Char :=
  if 0xD800 ≤ unit && unit ≤ 0xDFFF then none else some (Char.ofNat unit)

/-- The character of a surrogate pair. -/
def charOfPair? (high low : Nat) : Option Char :=
  if 0xD800 ≤ high && high ≤ 0xDBFF && 0xDC00 ≤ low && low ≤ 0xDFFF then
    some (Char.ofNat (0x10000 + (high - 0xD800) * 0x400 + (low - 0xDC00)))
  else none

/-- The characters of a string up to its closing quote; an unpaired surrogate is `none`. -/
def stringBody : List Char → Option (List (Option Char) × List Char)
  | [] => none
  | '"' :: rest => some ([], rest)
  | '\\' :: 'u' :: a :: b :: c :: d :: rest => do
    let unit ← hexNumber? [a, b, c, d]
    let single := (stringBody rest).map fun (cs, rest) => (charOfUnit unit :: cs, rest)
    match rest with
    | '\\' :: 'u' :: e :: f :: g :: h :: rest =>
      match (hexNumber? [e, f, g, h]).bind (charOfPair? unit) with
      | some pair => (stringBody rest).map fun (cs, rest) => (some pair :: cs, rest)
      | none => single
    | _ => single
  | '\\' :: c :: rest => do
    let escaped ← escaped? c
    (stringBody rest).map fun (cs, rest) => (some escaped :: cs, rest)
  | c :: rest =>
    if c.toNat < 0x20 || c == '\\' then none
    else (stringBody rest).map fun (cs, rest) => (some c :: cs, rest)

/-- The text of a string after its opening quote. -/
def stringText (text : List Char) : Option (Option String × List Char) :=
  (stringBody text).map fun (cs, rest) => ((cs.mapM id).map String.ofList, rest)

/-- Whether the parts are a numeral of JSON. -/
def allowedNumeral (p : Numeral.Parts) : Bool :=
  let wholeAllowed := match p.whole with
    | [] => false
    | ['0'] => true
    | c :: _ => c != '0'
  wholeAllowed && p.fraction != some []

/-- A number, its sign taken off. -/
def number (negative : Bool) (text : List Char) : Option (Json × List Char) :=
  match Numeral.scan text with
  | some (p, rest) =>
    if !allowedNumeral p then none
    else
      let n := p.toNumeral negative
      if p.isInteger && !(negative && n.digits == 0) then
        some (.integer (if negative then -n.digits else n.digits), rest)
      else some (.real n.toFloat, rest)
  | none => none

mutual

/-- A value. -/
def value : (fuel : Nat) → List Char → Option (Json × List Char)
  | 0, _ => none
  | fuel + 1, text =>
    match skipBlanks text with
    | 'n' :: 'u' :: 'l' :: 'l' :: rest => some (.null, rest)
    | 't' :: 'r' :: 'u' :: 'e' :: rest => some (.bool true, rest)
    | 'f' :: 'a' :: 'l' :: 's' :: 'e' :: rest => some (.bool false, rest)
    | '"' :: rest => (stringText rest).map fun (text, rest) => (.string text, rest)
    | '[' :: rest =>
      match skipBlanks rest with
      | ']' :: rest => some (.list [], rest)
      | rest => (items fuel rest).map fun (vs, rest) => (.list vs, rest)
    | '\x7b' :: rest =>
      match skipBlanks rest with
      | '\x7d' :: rest => some (.object [], rest)
      | rest => (members fuel rest).map fun (fs, rest) => (.object fs, rest)
    | '-' :: rest => number true rest
    | rest => number false rest

/-- The items of a list that has some, with its closing bracket. -/
def items : (fuel : Nat) → List Char → Option (List Json × List Char)
  | 0, _ => none
  | fuel + 1, text => do
    let (v, rest) ← value fuel text
    match skipBlanks rest with
    | ']' :: rest => some ([v], rest)
    | ',' :: rest => (items fuel rest).map fun (vs, rest) => (v :: vs, rest)
    | _ => none

/-- The fields of an object that has some, with its closing brace. -/
def members : (fuel : Nat) → List Char → Option (List (Option String × Json) × List Char)
  | 0, _ => none
  | fuel + 1, text =>
    match skipBlanks text with
    | '"' :: rest => do
      let (name, rest) ← stringText rest
      match skipBlanks rest with
      | ':' :: rest =>
        let (v, rest) ← value fuel rest
        match skipBlanks rest with
        | '\x7d' :: rest => some ([(name, v)], rest)
        | ',' :: rest => (members fuel rest).map fun (fs, rest) => ((name, v) :: fs, rest)
        | _ => none
      | _ => none
    | _ => none

end

/-- The value that a text holds. -/
def parse (text : String) : Option Json :=
  let chars := text.toList
  match value (2 * chars.length + 2) chars with
  | some (v, rest) => if (skipBlanks rest).isEmpty then some v else none
  | none => none

end Json
end MultiSegmentWell
