/-
# Number layouts

How the digits of a double are laid out as text. A `Layout` holds the decisions
of one notation:

| layout | written without exponent | whole numbers | exponent | equally near |
| --- | --- | --- | --- | --- |
| `Layout.json` | `10 ^ -5` up to `10 ^ 16` | `10.0` | `1.5e+16` | even digit |
| `Layout.yaml` | `10 ^ -5` up to `10 ^ 16` | `10.0` | `1.5e16` | even digit |
| `Layout.plain` | always | `10` | | larger |

`fixed` and `scientific` round the exact binary value to a given number of
places instead, a half to the even neighbour.
-/

import MultiSegmentWell.Number.Shortest

namespace MultiSegmentWell

/-- The decisions of a notation on how a double is written. -/
structure Layout where
  /-- Whether a number with this decimal exponent is written without an exponent mark. -/
  positional : Int → Bool
  /-- What follows the digits of a whole number. -/
  wholeMark : String
  /-- The sign of a positive exponent. -/
  positiveExponent : String
  /-- Which of two equally near decimals is written. -/
  tie : Tie
  notANumber : String
  infinite : String

namespace Layout

/-- The digits of a natural number. -/
def digitText (n : Nat) : String := String.ofList (Nat.toDigits 10 n)

/-- An integer in decimal digits. -/
def integerChars (n : Int) : List Char :=
  if n < 0 then '-' :: Nat.toDigits 10 n.natAbs else Nat.toDigits 10 n.natAbs

/-- A run of zeros. -/
def zeros (n : Nat) : String := String.ofList (List.replicate n '0')

/-- Digits with the point set before the last `places` of them, zeros filled in
on the left where there are too few. -/
def withPoint (digits : Nat) (places : Nat) : String :=
  let text := Nat.toDigits 10 digits
  let text := List.replicate (places + 1 - text.length) '0' ++ text
  let cut := text.length - places
  String.ofList (text.take cut) ++ (if places = 0 then "" else "." ++ String.ofList (text.drop cut))

/-- A decimal without an exponent mark. -/
def writePositional (wholeMark : String) (d : Decimal) : String :=
  if 0 ≤ d.power then digitText d.digits ++ zeros d.power.toNat ++ wholeMark
  else withPoint d.digits (-d.power).toNat

/-- An exponent mark with its exponent. -/
def writeExponent (positive : String) (e : Int) : String :=
  if 0 ≤ e then "e" ++ positive ++ digitText e.toNat else "e-" ++ digitText (-e).toNat

/-- A decimal with one digit before the point and an exponent `e`. -/
def writeExponential (positive : String) (d : Decimal) (e : Int) : String :=
  withPoint d.digits (Numeral.width d.digits - 1) ++ writeExponent positive e

/-- A finite magnitude in this layout. -/
def writeMagnitude (l : Layout) (bits : Nat) : String :=
  let d := Decimal.shortest l.tie bits
  let e : Int := Numeral.width d.digits + d.power - 1
  if bits = 0 || l.positional e then writePositional l.wholeMark d
  else writeExponential l.positiveExponent d e

/-- A double as a sign and the text of its magnitude; a NaN has no sign. -/
def signed (x : Float) (notANumber infinite : String) (write : Nat → String) : String :=
  let bits := Binary64.magnitude x
  let sign := if Binary64.isNegative x then "-" else ""
  if Binary64.infinity < bits then notANumber
  else if bits = Binary64.infinity then sign ++ infinite
  else sign ++ write bits

/-- A double in this layout. -/
def write (l : Layout) (x : Float) : String :=
  signed x l.notANumber l.infinite l.writeMagnitude

/-- Numbers in JSON text, which itself only holds finite ones. -/
def json : Layout where
  positional e := -5 ≤ e && e ≤ 15
  wholeMark := ".0"
  positiveExponent := "+"
  tie := .toEven
  notANumber := "NaN"
  infinite := "inf"

/-- Numbers in YAML text. -/
def yaml : Layout :=
  { json with positiveExponent := "", notANumber := ".nan", infinite := ".inf" }

/-- Numbers in messages. -/
def plain : Layout where
  positional _ := true
  wholeMark := ""
  positiveExponent := ""
  tie := .up
  notANumber := "NaN"
  infinite := "inf"

/-- A double rounded to `places` digits after the point. -/
def fixed (places : Nat) (x : Float) : String :=
  signed x plain.notANumber plain.infinite fun bits =>
    let (m, w) := Binary64.ratio bits
    withPoint (Binary64.roundHalfEven (m * Nat.pow 10 places) w) places

/-- The exponent `e` with `10 ^ e` at most the magnitude and `10 ^ (e + 1)` above it. -/
def decade (bits : Nat) : Int :=
  let e := Decimal.powerAbove bits - 1
  let (m, w) := Binary64.ratio bits
  let (num, den) := Binary64.scaled m w 10 (-e)
  if den ≤ num then e else e - 1

/-- A double with one digit before the point, `places` after it and an exponent. -/
def scientific (places : Nat) (x : Float) : String :=
  signed x plain.notANumber plain.infinite fun bits =>
    if bits = 0 then withPoint 0 places ++ "e0"
    else
      let e := decade bits
      let (m, w) := Binary64.ratio bits
      let (num, den) := Binary64.scaled m w 10 (places - e)
      let digits := Binary64.roundHalfEven num den
      -- Rounding up from all nines gives one digit more.
      if digits = Nat.pow 10 (places + 1) then
        withPoint (Nat.pow 10 places) places ++ writeExponent "" (e + 1)
      else withPoint digits places ++ writeExponent "" e

end Layout
end MultiSegmentWell
