/-
# Numerals read back

The parts of an unsigned numeral are written one behind the other (`Parts.chars`), and where
the text behind them cannot belong to a numeral (`Ended`), scanning gives the same parts again
(`scan_chars`).

In the layout of JSON a finite magnitude is written as the parts of a numeral with a point or
an exponent, without leading zeros, to which the magnitude is the nearest one
(`exists_parts_writeMagnitude`): laying digits out moves the point and adds zeros, which
changes neither the digits nor, with the power that goes with them, their value.
-/

import MultiSegmentWell.Number.Layout
import MultiSegmentWell.Proofs.Number.Magnitudes

namespace MultiSegmentWell
namespace Numeral

/-- All characters are decimal digits. -/
def Digital (text : List Char) : Prop := ∀ c ∈ text, c.isDigit = true

/-- Digits of a whole number: a single zero, or digits that do not start with one. -/
def Whole (digits : List Char) : Prop :=
  digits = ['0'] ∨ ∃ c cs, digits = c :: cs ∧ c ≠ '0'

/-- A text that does not go on with a numeral. -/
def Ended (rest : List Char) : Prop :=
  ∀ c, rest.head? = some c → c.isDigit = false ∧ c ≠ '.' ∧ c ≠ 'e' ∧ c ≠ 'E'

section Digits

variable {n : Nat} {text rest : List Char}

/-- The digits of a number are digits. -/
theorem digital_toDigits (n : Nat) : Digital (Nat.toDigits 10 n) :=
  fun _ => Nat.isDigit_of_mem_toDigits (by decide) (by decide)

/-- Digits behind digits are digits. -/
theorem Digital.append (ht : Digital text) (hr : Digital rest) : Digital (text ++ rest) :=
  fun c hc => (List.mem_append.1 hc).elim (ht c) (hr c)

/-- Zeros are digits. -/
theorem digital_zeros (k : Nat) : Digital (List.replicate k '0') := by
  intro c hc
  obtain rfl := List.eq_of_mem_replicate hc
  rfl

/-- The digits of a number denote it. -/
theorem natOfDigits_toDigits (n : Nat) : natOfDigits (Nat.toDigits 10 n) = n :=
  Nat.ofDigitChars_ten_toDigits

/-- Zeros in front of digits make no difference. -/
theorem natOfDigits_zeros_append (k : Nat) (text : List Char) :
    natOfDigits (List.replicate k '0' ++ text) = natOfDigits text := by
  induction k with
  | zero => rfl
  | succ k ih => exact ih

/-- Each zero behind digits multiplies the number by ten. -/
theorem natOfDigits_append_zeros (text : List Char) (k : Nat) :
    natOfDigits (text ++ List.replicate k '0') = natOfDigits text * 10 ^ k := by
  induction k with
  | zero => simp
  | succ k ih =>
    have hlast : natOfDigits (text ++ List.replicate k '0' ++ ['0']) =
        10 * natOfDigits (text ++ List.replicate k '0') + 0 := List.foldl_append
    rw [List.replicate_succ', ← List.append_assoc, hlast, ih, Nat.add_zero, Nat.pow_succ,
      Nat.mul_comm, Nat.mul_assoc]

/-- Only zero is written as the digit zero. -/
theorem digitChar_ne_zero : ∀ d < 10, d ≠ 0 → Nat.digitChar d ≠ '0' := by decide

/-- Digits start with a zero only if this is the only one. -/
theorem exists_toDigits_eq_cons (h : n ≠ 0) : ∃ c cs, Nat.toDigits 10 n = c :: cs ∧ c ≠ '0' := by
  induction n using Nat.strongRecOn with
  | _ n ih =>
    rw [Nat.toDigits_eq_if (by decide)]
    split_ifs with hsmall
    · exact ⟨_, [], rfl, digitChar_ne_zero n hsmall h⟩
    · obtain ⟨c, cs, hcs, hc⟩ := ih (n / 10) (by omega) (by omega)
      exact ⟨c, cs ++ [(n % 10).digitChar], by rw [hcs]; rfl, hc⟩

/-- The digits of a number have no leading zero, unless the number is zero. -/
theorem whole_toDigits (n : Nat) : Whole (Nat.toDigits 10 n) := by
  by_cases h : n = 0
  · rw [h]
    exact .inl rfl
  · exact .inr (exists_toDigits_eq_cons h)

/-- Zeros behind digits leave them those of a whole number. -/
theorem whole_toDigits_append (h : n ≠ 0) (text : List Char) :
    Whole (Nat.toDigits 10 n ++ text) := by
  obtain ⟨c, cs, hcs, hc⟩ := exists_toDigits_eq_cons h
  exact .inr ⟨c, cs ++ text, by rw [hcs]; rfl, hc⟩

/-- Scanning digits stops where what follows is no digit. -/
theorem scanDigits_append (ht : Digital text)
    (hr : ∀ c, rest.head? = some c → c.isDigit = false) :
    scanDigits (text ++ rest) = (text, rest) := by
  have hnone : rest.takeWhile Char.isDigit = [] ∧ rest.dropWhile Char.isDigit = rest := by
    cases rest with
    | nil => exact ⟨rfl, rfl⟩
    | cons c cs =>
      have hc : ¬ c.isDigit = true := by simp [hr c rfl]
      exact ⟨List.takeWhile_cons_of_neg hc, List.dropWhile_cons_of_neg hc⟩
  rw [scanDigits, List.span_eq_takeWhile_dropWhile, List.takeWhile_append_of_pos ht,
    List.dropWhile_append_of_pos ht, hnone.1, hnone.2, List.append_nil]

end Digits

section Scanning

/-- A point with the digits behind it. -/
def fractionChars : Option (List Char) → List Char
  | none => []
  | some digits => '.' :: digits

/-- The sign and the digits of an exponent. -/
def signedChars (e : Int) : List Char :=
  if 0 ≤ e then '+' :: Nat.toDigits 10 e.toNat else '-' :: Nat.toDigits 10 (-e).toNat

/-- An exponent behind its mark. -/
def exponentChars : Option Int → List Char
  | none => []
  | some e => 'e' :: signedChars e

/-- The parts of a numeral as text. -/
def Parts.chars (p : Parts) : List Char :=
  p.whole ++ (fractionChars p.fraction ++ exponentChars p.exponent)

/-- Parts of digits. -/
structure Parts.Digital (p : Parts) : Prop where
  whole : Numeral.Digital p.whole
  fraction : Numeral.Digital (p.fraction.getD [])

variable {p : Parts} {rest : List Char}

/-- An exponent is scanned as it was written, with its sign or without. -/
theorem scanExponent_signedChars (e : Int) (hrest : Ended rest) :
    scanExponent (signedChars e ++ rest) = some (e, rest) := by
  have hscan : ∀ n : Nat, ∃ c cs, scanDigits (Nat.toDigits 10 n ++ rest) = (c :: cs, rest) ∧
      natOfDigits (c :: cs) = n := by
    intro n
    obtain ⟨c, cs, hcs⟩ := List.exists_cons_of_ne_nil (Nat.toDigits_ne_nil (b := 10) (n := n))
    refine ⟨c, cs, ?_, ?_⟩
    · rw [← hcs]
      exact scanDigits_append (digital_toDigits n) fun c hc => (hrest c hc).1
    · rw [← hcs, natOfDigits_toDigits]
  unfold scanExponent signedChars
  split_ifs with hsign
  · obtain ⟨c, cs, hdigits, hn⟩ := hscan e.toNat
    simp [hdigits, hn, hsign]
  · obtain ⟨c, cs, hdigits, hn⟩ := hscan (-e).toNat
    simp [hdigits, hn]
    omega

/-- The digits behind a point, if there is one. -/
def scanFraction (text : List Char) : Option (List Char) × List Char :=
  match text with
  | '.' :: rest => let (digits, rest) := scanDigits rest; (some digits, rest)
  | _ => (none, text)

/-- The parts with the exponent, if there is one. -/
def scanRest (whole : List Char) (fraction : Option (List Char)) (text : List Char) :
    Option (Parts × List Char) :=
  match text with
  | 'e' :: rest | 'E' :: rest =>
    (scanExponent rest).map fun (exponent, rest) => (⟨whole, fraction, some exponent⟩, rest)
  | _ => some (⟨whole, fraction, none⟩, text)

/-- A numeral is scanned in three steps. -/
theorem scan_eq (text : List Char) :
    scan text = scanRest (scanDigits text).1 (scanFraction (scanDigits text).2).1
      (scanFraction (scanDigits text).2).2 := rfl

/-- A fraction, or its absence, is scanned as it was written. -/
theorem scanFraction_chars {fraction : Option (List Char)} (hf : Digital (fraction.getD []))
    (hrest : ∀ c, rest.head? = some c → c.isDigit = false ∧ c ≠ '.') :
    scanFraction (fractionChars fraction ++ rest) = (fraction, rest) := by
  cases fraction with
  | none =>
    show scanFraction rest = (none, rest)
    unfold scanFraction
    split
    · exact absurd rfl (hrest '.' rfl).2
    · rfl
  | some digits =>
    have hdigits : Digital digits := hf
    show (let (ds, rest) := scanDigits (digits ++ rest); (some ds, rest)) = (some digits, rest)
    rw [scanDigits_append hdigits fun c hc => (hrest c hc).1]

/-- An exponent, or its absence, is scanned behind the other parts. -/
theorem scanRest_chars (whole : List Char) (fraction : Option (List Char)) (exponent : Option Int)
    (hrest : Ended rest) : scanRest whole fraction (exponentChars exponent ++ rest) =
      some (⟨whole, fraction, exponent⟩, rest) := by
  cases exponent with
  | none =>
    show scanRest whole fraction rest = some (⟨whole, fraction, none⟩, rest)
    unfold scanRest
    split
    · exact absurd rfl (hrest 'e' rfl).2.2.1
    · exact absurd rfl (hrest 'E' rfl).2.2.2
    · rfl
  | some e =>
    show (scanExponent (signedChars e ++ rest)).map _ = _
    rw [scanExponent_signedChars e hrest]
    rfl

/-- What follows the digits is not another one. -/
theorem head_exponentChars {exponent : Option Int} (hrest : Ended rest) {c : Char}
    (h : (exponentChars exponent ++ rest).head? = some c) : c.isDigit = false ∧ c ≠ '.' := by
  cases exponent with
  | none => exact ⟨(hrest c h).1, (hrest c h).2.1⟩
  | some e =>
    obtain rfl := Option.some.inj h
    decide

/-- What follows the digits in front of the point does not start with a digit. -/
theorem head_fractionChars {fraction : Option (List Char)} {exponent : Option Int}
    (hrest : Ended rest) {c : Char}
    (h : (fractionChars fraction ++ (exponentChars exponent ++ rest)).head? = some c) :
    c.isDigit = false := by
  cases fraction with
  | none => exact (head_exponentChars hrest h).1
  | some digits =>
    obtain rfl := Option.some.inj h
    rfl

/-- **Scanning the parts of a numeral gives them back.** -/
theorem scan_chars (hp : p.Digital) (hrest : Ended rest) :
    scan (p.chars ++ rest) = some (p, rest) := by
  rw [scan_eq, Parts.chars, List.append_assoc, List.append_assoc,
    scanDigits_append hp.whole fun c hc => head_fractionChars hrest hc,
    scanFraction_chars hp.fraction fun c hc => head_exponentChars hrest hc,
    scanRest_chars _ _ _ hrest]

end Scanning

/-- Parts with a point or an exponent, well formed, to which a magnitude is the nearest one. -/
structure Parts.StandsFor (p : Parts) (bits : Nat) : Prop where
  digital : p.Digital
  whole : Whole p.whole
  fraction : p.fraction ≠ some []
  notInteger : p.isInteger = false
  nearest : ∀ negative, nearest (p.toNumeral negative).digits (p.toNumeral negative).power = bits

end Numeral

namespace Layout

open Numeral

variable {digits places bits : Nat}

/-- Digits with enough zeros in front of them for a point before the last `places`. -/
def padded (digits places : Nat) : List Char :=
  List.replicate (places + 1 - width digits) '0' ++ Nat.toDigits 10 digits

/-- The parts of digits with a point before the last `places` of them. -/
def pointed (digits places : Nat) (exponent : Option Int) : Parts where
  whole := (padded digits places).take ((padded digits places).length - places)
  fraction :=
    if places = 0 then none
    else some ((padded digits places).drop ((padded digits places).length - places))
  exponent

/-- Digits are filled up with zeros until one stands in front of the point. -/
theorem length_padded (digits places : Nat) :
    (padded digits places).length = max (places + 1) (width digits) := by
  rw [padded, List.length_append, List.length_replicate, width]
  omega

/-- Filling up adds digits only. -/
theorem digital_padded (digits places : Nat) : Digital (padded digits places) :=
  (digital_zeros _).append (digital_toDigits digits)

/-- Zeros in front of digits do not change the number. -/
theorem natOfDigits_padded (digits places : Nat) : natOfDigits (padded digits places) = digits := by
  rw [padded, natOfDigits_zeros_append, natOfDigits_toDigits]

/-- Where there is no point, all digits are whole ones. -/
theorem whole_append_fraction (digits places : Nat) (exponent : Option Int) :
    (pointed digits places exponent).whole ++ (pointed digits places exponent).fraction.getD [] =
      padded digits places := by
  unfold pointed
  dsimp only
  split_ifs with h
  · rw [h, Nat.sub_zero, List.take_length, Option.getD_none, List.append_nil]
  · rw [Option.getD_some, List.take_append_drop]

/-- As many digits as asked for stand behind the point. -/
theorem length_fraction (digits places : Nat) (exponent : Option Int) :
    ((pointed digits places exponent).fraction.getD []).length = places := by
  have hlength := length_padded digits places
  unfold pointed
  dsimp only
  split_ifs with h
  · rw [h]
    rfl
  · rw [Option.getD_some, List.length_drop]
    omega

/-- A point moves the power of ten and leaves the digits. -/
theorem toNumeral_pointed (digits places : Nat) (exponent : Option Int) (negative : Bool) :
    (pointed digits places exponent).toNumeral negative =
      ⟨negative, digits, exponent.getD 0 - places⟩ := by
  rw [Parts.toNumeral]
  simp only [whole_append_fraction, natOfDigits_padded, length_fraction]
  rfl

/-- The parts are the characters of the digits with the point and of the exponent. -/
theorem chars_pointed (digits places : Nat) (exponent : Option Int) :
    (pointed digits places exponent).chars =
      (withPoint digits places).toList ++ exponentChars exponent := by
  have htext : (withPoint digits places).toList =
      (pointed digits places exponent).whole ++
        fractionChars (pointed digits places exponent).fraction := by
    show (withPoint digits places).toList =
      List.take _ _ ++ fractionChars (if places = 0 then _ else _)
    unfold withPoint
    dsimp only
    split_ifs with h
    · simp [fractionChars, padded, width]
    · simp [fractionChars, padded, width]
  rw [Parts.chars, htext, List.append_assoc]
  rfl

/-- The digits in front of the point are those of a whole number. -/
theorem whole_pointed (h : digits ≠ 0) (places : Nat) (exponent : Option Int) :
    Whole (pointed digits places exponent).whole := by
  show Whole ((padded digits places).take ((padded digits places).length - places))
  rw [length_padded]
  rcases Nat.lt_or_ge places (width digits) with hlt | hge
  · obtain ⟨c, cs, hcs, hc⟩ := exists_toDigits_eq_cons h
    obtain ⟨n, hn⟩ : ∃ n, max (places + 1) (width digits) - places = n + 1 :=
      ⟨width digits - places - 1, by omega⟩
    rw [padded, Nat.sub_eq_zero_of_le hlt, hcs, hn]
    exact .inr ⟨c, cs.take n, rfl, hc⟩
  · -- A zero has been filled in, and there is nothing else before the point.
    obtain ⟨n, hn⟩ : ∃ n, places + 1 - width digits = n + 1 := ⟨places - width digits, by omega⟩
    have hcut : max (places + 1) (width digits) - places = 1 := by omega
    rw [padded, hn, hcut]
    exact .inl rfl

/-- **Digits with a point or an exponent stand for the magnitude** that is nearest to them. -/
theorem standsFor_pointed (h : digits ≠ 0) {exponent : Option Int}
    (hmark : places ≠ 0 ∨ exponent.isSome = true)
    (hnearest : nearest digits (exponent.getD 0 - places) = bits) :
    (pointed digits places exponent).StandsFor bits where
  digital := by
    have hall := whole_append_fraction digits places exponent
    have hdigital := digital_padded digits places
    rw [← hall] at hdigital
    exact ⟨fun c hc => hdigital c (List.mem_append_left _ hc),
      fun c hc => hdigital c (List.mem_append_right _ hc)⟩
  whole := whole_pointed h places exponent
  fraction hempty := by
    have hlength := length_fraction digits places exponent
    rw [hempty] at hlength
    obtain rfl : 0 = places := hlength
    cases hempty
  notInteger := by
    obtain hplaces | hexponent := hmark
    · simp [Parts.isInteger, pointed, hplaces]
    · cases exponent with
      | none => cases hexponent
      | some e => simp [Parts.isInteger, pointed]
  nearest negative := by
    rw [toNumeral_pointed]
    exact hnearest

/-- A whole number, its zeros written out. -/
def wholeParts (digits zeros : Nat) : Parts where
  whole := Nat.toDigits 10 digits ++ List.replicate zeros '0'
  fraction := some ['0']
  exponent := none

/-- A whole number with zeros behind its digits and a point stands for the magnitude nearest to it.
-/
theorem standsFor_wholeParts {zeros : Nat} (h : digits ≠ 0 ∨ zeros = 0)
    (hnearest : nearest digits zeros = bits) : (wholeParts digits zeros).StandsFor bits where
  digital := ⟨(digital_toDigits digits).append (digital_zeros zeros), digital_zeros 1⟩
  whole := by
    obtain h | rfl := h
    · exact whole_toDigits_append h _
    · simpa [wholeParts] using whole_toDigits digits
  fraction hempty := by cases hempty
  notInteger := rfl
  nearest negative := by
    have hdigits : natOfDigits ((Nat.toDigits 10 digits ++ List.replicate zeros '0') ++ ['0']) =
        digits * 10 ^ (zeros + 1) := by
      rw [List.append_assoc, ← List.replicate_succ', natOfDigits_append_zeros, natOfDigits_toDigits]
    have hpower : (0 : Int) - ((1 : Nat) : Int) = (zeros : Int) - ((zeros + 1 : Nat) : Int) := by
      omega
    show nearest (natOfDigits _) ((0 : Int) - ((1 : Nat) : Int)) = bits
    rw [hpower]
    exact (congrArg (nearest · _) hdigits).trans ((nearest_mul_pow ..).trans hnearest)

/-- An exponent is written as the characters of an exponent. -/
theorem toList_writeExponent (e : Int) :
    (writeExponent json.positiveExponent e).toList = exponentChars (some e) := by
  show _ = 'e' :: signedChars e
  unfold writeExponent signedChars
  by_cases h : 0 ≤ e
  · rw [if_pos h, if_pos h]
    simp [json, digitText]
  · rw [if_neg h, if_neg h]
    simp [digitText]

/-- Digits without an exponent are the parts of a numeral that stands for the magnitude. -/
theorem exists_parts_writePositional {power : Int} (hdigits : digits ≠ 0 ∨ power = 0)
    (hnearest : nearest digits power = bits) :
    ∃ p : Parts, (writePositional json.wholeMark ⟨digits, power⟩).toList = p.chars ∧
      p.StandsFor bits := by
  unfold writePositional
  dsimp only
  split_ifs with hsign
  · refine ⟨wholeParts digits power.toNat, ?_, standsFor_wholeParts (by omega) ?_⟩
    · simp [json, digitText, zeros, wholeParts, Parts.chars, fractionChars, exponentChars]
    · rwa [Int.toNat_of_nonneg hsign]
  · refine ⟨pointed digits (-power).toNat none, ?_, standsFor_pointed (by omega) (by omega) ?_⟩
    · rw [chars_pointed, exponentChars, List.append_nil]
    · rw [Option.getD_none, show (0 : Int) - (-power).toNat = power by omega]
      exact hnearest

/-- Digits with an exponent are the parts of a numeral that stands for the magnitude. -/
theorem exists_parts_writeExponential {power : Int} (hdigits : digits ≠ 0)
    (hnearest : nearest digits power = bits) :
    ∃ p : Parts, (writeExponential json.positiveExponent ⟨digits, power⟩
      (width digits + power - 1)).toList = p.chars ∧ p.StandsFor bits := by
  have hwidth := width_pos digits
  refine ⟨pointed digits (width digits - 1) (some (width digits + power - 1)), ?_,
    standsFor_pointed hdigits (.inr rfl) ?_⟩
  · rw [writeExponential, String.toList_append, toList_writeExponent, chars_pointed]
  · have hpower : (width digits + power - 1 : Int) - ((width digits - 1 : Nat) : Int) = power := by
      omega
    rw [Option.getD_some, hpower]
    exact hnearest

/-- **A finite magnitude is written as a numeral that stands for it.** -/
theorem exists_parts_writeMagnitude (hfinite : bits < Binary64.infinity) :
    ∃ p : Parts, (json.writeMagnitude bits).toList = p.chars ∧ p.StandsFor bits := by
  have hnearest := Decimal.nearest_shortest json.tie hfinite
  have hzero : bits = 0 → Decimal.shortest json.tie bits = ⟨0, 0⟩ := fun h => if_pos h
  unfold writeMagnitude
  dsimp only
  generalize Decimal.shortest json.tie bits = d at hnearest hzero ⊢
  obtain ⟨digits, power⟩ := d
  have hdigits : bits ≠ 0 → digits ≠ 0 := by
    rintro hbits rfl
    exact hbits (hnearest.symm.trans rfl)
  split_ifs with hpositional
  · refine exists_parts_writePositional ?_ hnearest
    by_cases hbits : bits = 0
    · exact .inr (congrArg Decimal.power (hzero hbits))
    · exact .inl (hdigits hbits)
  · refine exists_parts_writeExponential (hdigits fun hbits => hpositional ?_) hnearest
    simp [hbits]

end Layout
end MultiSegmentWell
