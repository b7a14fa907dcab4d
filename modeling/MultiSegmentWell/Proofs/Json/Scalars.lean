/-
# Numbers and strings in JSON read back

A finite double is written with a point or an exponent and read as the same double
(`value_real`), an integer without either and read as that integer (`value_integer`), as long
as the text behind them does not go on with a numeral.

In a string every character is written as one that stands for itself or as an escape, and is
read back as it was (`stringBody_escapeChar`).
-/

import MultiSegmentWell.Json.Printer
import MultiSegmentWell.Json.Reader
import MultiSegmentWell.Proofs.Number.Numerals
import MultiSegmentWell.Proofs.Number.Parts

namespace MultiSegmentWell
namespace Json

open Numeral (Ended Parts)

variable {rest : List Char} {fuel : Nat}

/-- What starts with something else than a blank has no blanks to skip. -/
theorem skipBlanks_of_not_isBlank {c : Char} (h : isBlank c = false) (rest : List Char) :
    skipBlanks (c :: rest) = c :: rest :=
  List.dropWhile_cons_of_neg (by simp [h])

section Numbers

variable {p : Parts} {bits : Nat}

/-- A numeral without leading zeros and with digits behind its point is allowed. -/
theorem allowedNumeral_of_whole (hwhole : Numeral.Whole p.whole)
    (hfraction : p.fraction ≠ some []) : allowedNumeral p = true := by
  unfold allowedNumeral
  obtain hzero | ⟨c, cs, hcs, hc⟩ := hwhole
  · simp [hzero, hfraction]
  · rw [hcs]
    split
    · rename_i heq
      cases heq
    · rename_i heq
      exact absurd (List.cons.inj heq).1 hc
    · rename_i heq
      obtain ⟨rfl, -⟩ := List.cons.inj heq
      simp [hc, hfraction]

/-- The parts that stand for a magnitude are read as a double of that magnitude. -/
theorem number_of_standsFor (hp : p.StandsFor bits) (hrest : Ended rest) (negative : Bool) :
    number negative (p.chars ++ rest) = some (.real (Binary64.ofParts negative bits), rest) := by
  rw [number, Numeral.scan_chars hp.digital hrest]
  simp only [allowedNumeral_of_whole hp.whole hp.fraction, hp.notInteger]
  rw [← hp.nearest negative]
  rfl

/-- Digits alone are read as an integer, unless they are a zero with a sign. -/
theorem number_toDigits (negative : Bool) (n : Nat) (h : negative = true → n ≠ 0)
    (hrest : Ended rest) : number negative (Nat.toDigits 10 n ++ rest) =
      some (.integer (if negative then -n else n), rest) := by
  have hscan : Numeral.scan (Nat.toDigits 10 n ++ rest) =
      some (⟨Nat.toDigits 10 n, none, none⟩, rest) := by
    have hchars : (⟨Nat.toDigits 10 n, none, none⟩ : Parts).chars = Nat.toDigits 10 n := by
      simp [Parts.chars, Numeral.fractionChars, Numeral.exponentChars]
    have hscan := Numeral.scan_chars (p := ⟨Nat.toDigits 10 n, none, none⟩)
      ⟨Numeral.digital_toDigits n, fun c hc => by cases hc⟩ hrest
    rwa [hchars] at hscan
  have hdigits : (Parts.toNumeral ⟨Nat.toDigits 10 n, none, none⟩ negative).digits = n := by
    rw [Parts.toNumeral]
    simp [Numeral.natOfDigits_toDigits]
  have hsigned : (negative && n == 0) = false := by
    cases negative with
    | false => rfl
    | true => simpa using h rfl
  rw [number, hscan]
  simp only [allowedNumeral_of_whole (p := ⟨Nat.toDigits 10 n, none, none⟩)
    (Numeral.whole_toDigits n) (by simp), Parts.isInteger, hdigits, hsigned]
  rfl

/-- What starts with a digit is read as a number. -/
theorem value_of_isDigit {c : Char} (hc : c.isDigit = true) (rest : List Char) :
    value (fuel + 1) (c :: rest) = number false (c :: rest) := by
  have hblank : isBlank c = false := by
    rw [Bool.eq_false_iff]
    intro hblank
    simp only [isBlank, Bool.or_eq_true, beq_iff_eq] at hblank
    rcases hblank with ((rfl | rfl) | rfl) | rfl <;> cases hc
  rw [value, skipBlanks_of_not_isBlank hblank]
  split
  all_goals first
    | rfl
    | (rename_i heq
       obtain ⟨rfl, -⟩ := List.cons.inj heq
       cases hc)

/-- Behind a minus stands a number. -/
theorem value_minus (rest : List Char) : value (fuel + 1) ('-' :: rest) = number true rest := by
  rw [value, skipBlanks_of_not_isBlank rfl]
  rfl

/-- The text of a numeral starts with a digit. -/
theorem exists_chars_eq_cons (hp : p.StandsFor bits) :
    ∃ c cs, p.chars = c :: cs ∧ c.isDigit = true := by
  obtain ⟨c, cs, hcs⟩ : ∃ c cs, p.whole = c :: cs := by
    obtain hzero | ⟨c, cs, hcs, -⟩ := hp.whole
    · exact ⟨'0', [], hzero⟩
    · exact ⟨c, cs, hcs⟩
  refine ⟨c, _, by rw [Parts.chars, hcs, List.cons_append], hp.digital.whole c ?_⟩
  rw [hcs]
  exact List.mem_cons_self

/-- A finite double is written as its sign and the text of its magnitude. -/
theorem toList_write {x : Float} (hx : x.isFinite = true) :
    (Layout.json.write x).toList = (if Binary64.isNegative x then ['-'] else []) ++
      (Layout.json.writeMagnitude (Binary64.magnitude x)).toList := by
  have hlt := Binary64.magnitude_lt_of_isFinite hx
  rw [Layout.write, Layout.signed, if_neg (by omega), if_neg (by omega), String.toList_append]
  split <;> rfl

/-- **A finite double is read back.** -/
theorem value_real {x : Float} (hx : x.isFinite = true) (hrest : Ended rest) :
    value (fuel + 1) ((Layout.json.write x).toList ++ rest) = some (.real x, rest) := by
  obtain ⟨p, hchars, hp⟩ :=
    Layout.exists_parts_writeMagnitude (Binary64.magnitude_lt_of_isFinite hx)
  have hnumber := number_of_standsFor hp hrest (Binary64.isNegative x)
  rw [Binary64.ofParts_eq] at hnumber
  rw [toList_write hx, hchars]
  cases hsign : Binary64.isNegative x with
  | true =>
    rw [hsign] at hnumber
    exact (value_minus _).trans hnumber
  | false =>
    rw [hsign] at hnumber
    obtain ⟨c, cs, hcs, hc⟩ := exists_chars_eq_cons hp
    rw [hcs] at hnumber ⊢
    exact (value_of_isDigit hc _).trans hnumber

/-- **An integer is read back.** -/
theorem value_integer (n : Int) (hrest : Ended rest) :
    value (fuel + 1) (Layout.integerChars n ++ rest) = some (.integer n, rest) := by
  unfold Layout.integerChars
  split_ifs with hsign
  · have hnumber := number_toDigits true n.natAbs (fun _ => by omega) hrest
    rw [if_pos rfl, show -(n.natAbs : Int) = n by omega] at hnumber
    exact (value_minus _).trans hnumber
  · have hnumber := number_toDigits false n.natAbs (fun h => by cases h) hrest
    rw [if_neg Bool.false_ne_true, show (n.natAbs : Int) = n by omega] at hnumber
    obtain ⟨c, cs, hcs⟩ :=
      List.exists_cons_of_ne_nil (Nat.toDigits_ne_nil (b := 10) (n := n.natAbs))
    have hc : c.isDigit = true := Numeral.digital_toDigits n.natAbs c (hcs ▸ List.mem_cons_self)
    rw [hcs] at hnumber ⊢
    exact (value_of_isDigit hc _).trans hnumber

/-- An integer of at most 52 binary digits is a finite double. -/
theorem isFinite_floatOfInt {n : Int} (h : n.natAbs < 2 ^ 52) : (floatOfInt n).isFinite = true := by
  refine Binary64.isFinite_ofParts _ ?_
  show Numeral.nearest n.natAbs 0 < Binary64.infinity
  by_cases hzero : n.natAbs = 0
  · rw [hzero]
    decide
  · have hwidth : Numeral.width n.natAbs ≤ 16 := by
      rw [Numeral.width_le_iff (by decide)]
      exact Nat.lt_trans h (by decide)
    have hscaled : Binary64.scaled n.natAbs 1 10 0 = (n.natAbs, 1) := by
      simpa using Binary64.scaled_of_nonneg n.natAbs 1 10 0
    rw [Numeral.nearest_eq hzero (by omega) (by omega), hscaled]
    exact Binary64.nearest_one_lt h

end Numbers

section Strings

/-- The escape of a control character denotes it. -/
theorem hexNumber?_hexChar : ∀ n < 0x20,
    hexNumber? ['0', '0', hexChar (n / 16), hexChar (n % 16)] = some n := by
  decide

/-- A control character is no half of a surrogate pair. -/
theorem charOfPair?_of_lt {unit : Nat} (h : unit < 0x20) (low : Nat) :
    charOfPair? unit low = none := by
  rw [charOfPair?, if_neg]
  simp
  omega

/-- A control character is read back from its code unit. -/
theorem stringBody_unit {n : Nat} (h : n < 0x20) (rest : List Char) :
    stringBody ('\\' :: 'u' :: '0' :: '0' :: hexChar (n / 16) :: hexChar (n % 16) :: rest) =
      (stringBody rest).map fun (cs, rest) => (some (Char.ofNat n) :: cs, rest) := by
  have hunit : charOfUnit n = some (Char.ofNat n) := by
    rw [charOfUnit, if_neg]
    simp
    omega
  rw [stringBody, hexNumber?_hexChar n h]
  simp only [Option.bind_eq_bind, Option.bind_some, hunit]
  split
  · rename_i e f g h' rest'
    have hpair : (hexNumber? [e, f, g, h']).bind (charOfPair? n) = none := by
      simp [charOfPair?_of_lt h]
    rw [hpair]
  · rfl

/-- A character that needs no escape is read as itself. -/
theorem stringBody_plain {c : Char} (hquote : c ≠ '"') (hslash : c ≠ '\\') (h : ¬ c.toNat < 0x20)
    (rest : List Char) :
    stringBody (c :: rest) = (stringBody rest).map fun (cs, rest) => (some c :: cs, rest) := by
  rw [stringBody.eq_def]
  split
  · rename_i heq
    cases heq
  · rename_i heq
    exact absurd (List.cons.inj heq).1 hquote
  · rename_i heq
    exact absurd (List.cons.inj heq).1 hslash
  · rename_i heq
    exact absurd (List.cons.inj heq).1 hslash
  · rename_i heq
    obtain ⟨rfl, rfl⟩ := List.cons.inj heq
    rw [if_neg (by simp [h, hslash])]

/-- **A character is read back.** -/
theorem stringBody_escapeChar (c : Char) (rest : List Char) :
    stringBody (escapeChar c ++ rest) =
      (stringBody rest).map fun (cs, rest) => (some c :: cs, rest) := by
  unfold escapeChar
  split_ifs with hquote hslash _ _ _ _ _ hcontrol
  iterate 7
    · subst_vars
      simp [stringBody, escaped?]
  · have hunit := stringBody_unit hcontrol rest
    rwa [Char.ofNat_toNat] at hunit
  · exact stringBody_plain hquote hslash hcontrol rest

/-- A string of escaped characters is read back up to its closing quote. -/
theorem stringBody_flatMap_escapeChar (cs rest : List Char) :
    stringBody (cs.flatMap escapeChar ++ '"' :: rest) = some (cs.map some, rest) := by
  induction cs with
  | nil => rw [List.flatMap_nil, List.nil_append, stringBody, List.map_nil]
  | cons c cs ih =>
    rw [List.flatMap_cons, List.append_assoc, stringBody_escapeChar, ih]
    rfl

/-- **A string is read back.** -/
theorem stringText_flatMap_escapeChar (text : String) (rest : List Char) :
    stringText (text.toList.flatMap escapeChar ++ '"' :: rest) = some (some text, rest) := by
  have hall : ∀ cs : List Char, (cs.map some).mapM id = some cs := by
    intro cs
    induction cs with
    | nil => rfl
    | cons c cs ih => simp [ih]
  rw [stringText, stringBody_flatMap_escapeChar, Option.map_some]
  simp only [hall, Option.map_some, String.ofList_toList]

end Strings

end Json
end MultiSegmentWell
