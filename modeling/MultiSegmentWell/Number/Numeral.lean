/-
# Decimal numerals

A numeral is a sign, its digits as one natural number and a power of ten. Its
value as a double is taken to be the nearest one. Readers that round in several
steps can be off by a place; what is proved of deck files holds for them as well
(`TextFormats`).

The power may be far outside the range of doubles (`1e-999999999`), so a numeral
that is certainly too large or too small is decided from its digit count, before
any power is formed.

`Numeral.scan` reads the shape shared by all notations of this library: digits,
a point with more digits, an exponent. Which parts may be left out differs from
notation to notation, so it reports which were there.
-/

import MultiSegmentWell.Number.Binary64

namespace MultiSegmentWell

/-- The decimal number `± digits · 10 ^ power`. -/
structure Numeral where
  negative : Bool
  digits : Nat
  power : Int
deriving Repr, DecidableEq

namespace Numeral

/-- The number of decimal digits of a natural number, one for zero. -/
def width (n : Nat) : Nat := (Nat.toDigits 10 n).length

/-- The magnitude bits of the double nearest to `digits · 10 ^ power`. -/
def nearest (digits : Nat) (power : Int) : Nat :=
  let size := width digits + power
  if digits = 0 then 0
  else if 310 < size then Binary64.infinity
  else if size < -330 then 0
  else
    let (num, den) := Binary64.scaled digits 1 10 power
    Binary64.nearest num den

/-- The double nearest to a numeral. -/
def toFloat (n : Numeral) : Float :=
  Binary64.ofParts n.negative (nearest n.digits n.power)

/-- The natural number that decimal digits denote. -/
def natOfDigits (digits : List Char) : Nat :=
  digits.foldl (fun n c => 10 * n + (c.toNat - '0'.toNat)) 0

/-- The parts of an unsigned numeral: integer digits, fraction digits if there
is a point, and the exponent if there is one. -/
structure Parts where
  whole : List Char
  fraction : Option (List Char)
  exponent : Option Int
deriving Repr, DecidableEq

/-- Whether the numeral has neither a point nor an exponent. -/
def Parts.isInteger (p : Parts) : Bool := p.fraction.isNone && p.exponent.isNone

/-- The number that the parts denote under a sign. -/
def Parts.toNumeral (p : Parts) (negative : Bool) : Numeral :=
  let fraction := p.fraction.getD []
  { negative
    digits := natOfDigits (p.whole ++ fraction)
    power := p.exponent.getD 0 - fraction.length }

/-- Leading decimal digits and what follows them. -/
def scanDigits (text : List Char) : List Char × List Char :=
  text.span Char.isDigit

/-- An exponent after its mark: a sign that may be missing and at least one digit. -/
def scanExponent (text : List Char) : Option (Int × List Char) :=
  let (negative, rest) := match text with
    | '-' :: rest => (true, rest)
    | '+' :: rest => (false, rest)
    | _ => (false, text)
  match scanDigits rest with
  | ([], _) => none
  | (digits, rest) =>
    let n : Int := natOfDigits digits
    some (if negative then -n else n, rest)

/-- The parts of a leading unsigned numeral and what follows it; `none` where an
exponent mark has no digits. -/
def scan (text : List Char) : Option (Parts × List Char) :=
  let (whole, rest) := scanDigits text
  let (fraction, rest) := match rest with
    | '.' :: rest => let (digits, rest) := scanDigits rest; (some digits, rest)
    | _ => (none, rest)
  match rest with
  | 'e' :: rest | 'E' :: rest =>
    (scanExponent rest).map fun (exponent, rest) => (⟨whole, fraction, some exponent⟩, rest)
  | _ => some (⟨whole, fraction, none⟩, rest)

/-- A whole text as a numeral: a sign that may be missing, then digits with a
point anywhere among them, then an exponent that may be missing. -/
def ofText? (text : List Char) : Option Numeral :=
  let (negative, rest) := match text with
    | '-' :: rest => (true, rest)
    | '+' :: rest => (false, rest)
    | _ => (false, text)
  match scan rest with
  | some (p, []) =>
    if p.whole.isEmpty && (p.fraction.getD []).isEmpty then none else some (p.toNumeral negative)
  | _ => none

end Numeral
end MultiSegmentWell
