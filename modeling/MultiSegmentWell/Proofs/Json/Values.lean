/-
# JSON values read back

What is printed of a value without infinities and unpaired surrogates (`isSound`) is read back
as that value, in every style whose line breaks and gaps are blanks (`parse_print`).

The readers go down with the fuel, and so does the induction: with more fuel than a text has
characters, values, items and fields are read back if they are with less (`ReadsBack.succ`).
Behind a value stands a blank, a comma or a closing bracket, so that a number ends where its
text does.

The values that every reader of JSON is expected to take are those of bounded numbers and bounded
depth (`IsTree`); they are sound.
-/

import MultiSegmentWell.Deck.FromJson
import MultiSegmentWell.Proofs.Json.Scalars

namespace MultiSegmentWell
namespace Json

open Deck.Source (isSound areItemsSound areFieldsSound)
open Numeral (Ended)

/-- Line breaks and gaps are made up of blanks. -/
structure Style.Blank (style : Style) : Prop where
  lineBreak : ∀ level, ∀ c ∈ style.lineBreak level, isBlank c = true
  gap : ∀ c ∈ style.gap, isBlank c = true

/-- Spread over lines, the parts of a value are set apart by blanks. -/
theorem blank_spread : spread.Blank where
  lineBreak level c hc := by
    obtain rfl | hc := List.mem_cons.1 hc
    · rfl
    · rw [List.eq_of_mem_replicate hc]
      rfl
  gap c hc := by
    rw [List.mem_singleton.1 hc]
    rfl

variable {style : Style} {level fuel : Nat} {blanks rest : List Char}

section Blanks

/-- Blanks in front of a text are skipped with those at its start. -/
theorem skipBlanks_append (h : ∀ c ∈ blanks, isBlank c = true) (text : List Char) :
    skipBlanks (blanks ++ text) = skipBlanks text :=
  List.dropWhile_append_of_pos h

/-- Blanks in front of a value do not matter. -/
theorem value_append (h : ∀ c ∈ blanks, isBlank c = true) (fuel : Nat) (text : List Char) :
    value fuel (blanks ++ text) = value fuel text := by
  cases fuel with
  | zero => rfl
  | succ fuel => rw [value, value, skipBlanks_append h]

/-- Blanks in front of items do not matter. -/
theorem items_append (h : ∀ c ∈ blanks, isBlank c = true) (fuel : Nat) (text : List Char) :
    items fuel (blanks ++ text) = items fuel text := by
  cases fuel with
  | zero => rfl
  | succ fuel => rw [items, items, value_append h]

/-- Blanks in front of fields do not matter. -/
theorem members_append (h : ∀ c ∈ blanks, isBlank c = true) (fuel : Nat) (text : List Char) :
    members fuel (blanks ++ text) = members fuel text := by
  cases fuel with
  | zero => rfl
  | succ fuel => rw [members, members, skipBlanks_append h]

/-- A number ends before a blank. -/
theorem ended_cons {c : Char} (h : isBlank c = true ∨ c = ',' ∨ c = ']' ∨ c = '\x7d')
    (text : List Char) : Ended (c :: text) := by
  intro d hd
  obtain rfl := Option.some.inj hd
  simp only [isBlank, Bool.or_eq_true, beq_iff_eq] at h
  obtain (((rfl | rfl) | rfl) | rfl) | rfl | rfl | rfl := h <;> decide

/-- A number ends before blanks and a comma or a closing bracket. -/
theorem ended_append_cons {c : Char} (hblanks : ∀ c ∈ blanks, isBlank c = true)
    (h : c = ',' ∨ c = ']' ∨ c = '\x7d') (text : List Char) : Ended (blanks ++ c :: text) := by
  cases blanks with
  | nil => exact ended_cons (.inr h) text
  | cons b bs => exact ended_cons (.inl (hblanks b List.mem_cons_self)) _

end Blanks

section Ends

variable (hstyle : style.Blank)
include hstyle

/-- A number ends before the items behind it. -/
theorem ended_renderItems (vs : List Json) (rest : List Char) :
    Ended (renderItems style level vs ++ rest) := by
  cases vs with
  | nil =>
    rw [renderItems, List.append_assoc]
    exact ended_append_cons (hstyle.lineBreak level) (by simp) rest
  | cons v vs => exact ended_cons (by simp) _

/-- A number ends before the fields behind it. -/
theorem ended_renderFields (fs : List (Option String × Json)) (rest : List Char) :
    Ended (renderFields style level fs ++ rest) := by
  cases fs with
  | nil =>
    rw [renderFields, List.append_assoc]
    exact ended_append_cons (hstyle.lineBreak level) (by simp) rest
  | cons f fs => exact ended_cons (by simp) _

end Ends

section Heads

/-- A digit is neither a blank nor a closing bracket. -/
theorem not_isBlank_of_isDigit {c : Char} (hc : c.isDigit = true) :
    isBlank c = false ∧ c ≠ ']' := by
  constructor
  · rw [Bool.eq_false_iff]
    intro hblank
    simp only [isBlank, Bool.or_eq_true, beq_iff_eq] at hblank
    rcases hblank with ((rfl | rfl) | rfl) | rfl <;> cases hc
  · rintro rfl
    cases hc

/-- An integer starts with a minus or a digit. -/
theorem exists_integerChars_eq_cons (n : Int) :
    ∃ c cs, Layout.integerChars n = c :: cs ∧ (c = '-' ∨ c.isDigit = true) := by
  unfold Layout.integerChars
  split_ifs
  · exact ⟨'-', _, rfl, .inl rfl⟩
  · obtain ⟨c, cs, hcs⟩ :=
      List.exists_cons_of_ne_nil (Nat.toDigits_ne_nil (b := 10) (n := n.natAbs))
    exact ⟨c, cs, hcs, .inr (Numeral.digital_toDigits n.natAbs c (hcs ▸ List.mem_cons_self))⟩

/-- A finite number starts with a minus or a digit. -/
theorem exists_write_eq_cons {x : Float} (hx : x.isFinite = true) :
    ∃ c cs, (Layout.json.write x).toList = c :: cs ∧ (c = '-' ∨ c.isDigit = true) := by
  obtain ⟨p, hchars, hp⟩ :=
    Layout.exists_parts_writeMagnitude (Binary64.magnitude_lt_of_isFinite hx)
  rw [toList_write hx, hchars]
  split
  · exact ⟨'-', _, rfl, .inl rfl⟩
  · obtain ⟨c, cs, hcs, hc⟩ := exists_chars_eq_cons hp
    exact ⟨c, cs, hcs, .inr hc⟩

/-- A value starts with neither a blank nor a closing bracket. -/
theorem exists_render_eq_cons (style : Style) (level : Nat) (v : Json) :
    ∃ c cs, render style level v = c :: cs ∧ isBlank c = false ∧ c ≠ ']' := by
  have hnumeral : ∀ {text : List Char},
      (∃ c cs, text = c :: cs ∧ (c = '-' ∨ c.isDigit = true)) →
      ∃ c cs, text = c :: cs ∧ isBlank c = false ∧ c ≠ ']' := by
    rintro text ⟨c, cs, hcs, rfl | hc⟩
    · exact ⟨'-', cs, hcs, by decide, by decide⟩
    · exact ⟨c, cs, hcs, not_isBlank_of_isDigit hc⟩
  cases v with
  | null => exact ⟨'n', _, rfl, by decide, by decide⟩
  | bool b => cases b <;> exact ⟨_, _, rfl, by decide, by decide⟩
  | integer n => exact hnumeral (exists_integerChars_eq_cons n)
  | real x =>
    rw [render]
    split_ifs with hx
    · exact hnumeral (exists_write_eq_cons hx)
    · exact ⟨'n', _, rfl, by decide, by decide⟩
  | string text => exact ⟨'"', _, rfl, by decide, by decide⟩
  | list items => cases items <;> exact ⟨'[', _, rfl, by decide, by decide⟩
  | object fields => cases fields <;> exact ⟨'\x7b', _, rfl, by decide, by decide⟩

end Heads

/-- With this much fuel, whatever is printed with fewer characters is read back. -/
structure ReadsBack (style : Style) (fuel : Nat) : Prop where
  value : ∀ v level rest, isSound v = true → (render style level v).length < fuel → Ended rest →
    value fuel (render style level v ++ rest) = some (v, rest)
  items : ∀ v vs level rest, isSound v = true → areItemsSound vs = true →
    (render style (level + 1) v ++ renderItems style level vs).length < fuel →
    items fuel (render style (level + 1) v ++ (renderItems style level vs ++ rest)) =
      some (v :: vs, rest)
  members : ∀ f fs level rest, areFieldsSound (f :: fs) = true →
    (fieldHead style f.1 ++ render style (level + 1) f.2 ++ renderFields style level fs).length
      < fuel →
    members fuel (fieldHead style f.1 ++ (render style (level + 1) f.2 ++
      (renderFields style level fs ++ rest))) = some (f :: fs, rest)

/-- The name of a field is a quoted string with a colon behind it. -/
theorem fieldHead_append (name : String) (text : List Char) :
    fieldHead style (some name) ++ text =
      '"' :: (name.toList.flatMap escapeChar ++ '"' :: ':' :: (style.gap ++ text)) := by
  simp [fieldHead, quoted]

section Steps

variable (hstyle : style.Blank) (h : ReadsBack style fuel)
include hstyle h

/-- Items are read back with one more step of fuel: the first by its value, the others by what the
fuel was enough for. -/
theorem ReadsBack.items_succ (v : Json) (vs : List Json) (level : Nat) (rest : List Char)
    (hv : isSound v = true) (hvs : areItemsSound vs = true)
    (hlength : (render style (level + 1) v ++ renderItems style level vs).length < fuel + 1) :
    Json.items (fuel + 1) (render style (level + 1) v ++ (renderItems style level vs ++ rest)) =
      some (v :: vs, rest) := by
  have hpositive : 0 < (renderItems style level vs).length := by
    cases vs <;> simp [renderItems]
  rw [List.length_append] at hlength
  have hvalue := h.value v (level + 1) (renderItems style level vs ++ rest) hv (by omega)
    (ended_renderItems hstyle vs rest)
  rw [Json.items, hvalue]
  simp only [Option.bind_eq_bind, Option.bind_some]
  cases vs with
  | nil =>
    rw [renderItems, List.append_assoc, skipBlanks_append (hstyle.lineBreak level)]
    rfl
  | cons w ws =>
    obtain ⟨hw, hws⟩ := Bool.and_eq_true_iff.1 hvs
    have hitems := h.items w ws level rest hw hws (by
      simp only [renderItems, List.length_append, List.length_cons] at hlength ⊢
      omega)
    rw [renderItems, List.cons_append, skipBlanks_of_not_isBlank rfl]
    show (Json.items fuel _).map _ = _
    rw [List.append_assoc, List.append_assoc, items_append (hstyle.lineBreak (level + 1)), hitems]
    rfl

/-- Fields are read back with one more step of fuel, in the same way. -/
theorem ReadsBack.members_succ (f : Option String × Json) (fs : List (Option String × Json))
    (level : Nat) (rest : List Char) (hfs : areFieldsSound (f :: fs) = true)
    (hlength : (fieldHead style f.1 ++ render style (level + 1) f.2 ++
      renderFields style level fs).length < fuel + 1) :
    Json.members (fuel + 1) (fieldHead style f.1 ++ (render style (level + 1) f.2 ++
      (renderFields style level fs ++ rest))) = some (f :: fs, rest) := by
  obtain ⟨name, v⟩ := f
  rw [areFieldsSound, Bool.and_eq_true_iff, Bool.and_eq_true_iff] at hfs
  obtain ⟨⟨hname, hv⟩, hfs⟩ := hfs
  obtain ⟨name, rfl⟩ := Option.isSome_iff_exists.1 hname
  have hpositive : 0 < (renderFields style level fs).length := by
    cases fs <;> simp [renderFields]
  simp only [List.length_append] at hlength
  have hvalue := h.value v (level + 1) (renderFields style level fs ++ rest) hv (by omega)
    (ended_renderFields hstyle fs rest)
  rw [fieldHead_append, Json.members, skipBlanks_of_not_isBlank rfl]
  simp only [stringText_flatMap_escapeChar, Option.bind_eq_bind, Option.bind_some]
  rw [skipBlanks_of_not_isBlank rfl]
  simp only [value_append hstyle.gap, hvalue, Option.bind_some]
  cases fs with
  | nil =>
    rw [renderFields, List.append_assoc, skipBlanks_append (hstyle.lineBreak level)]
    rfl
  | cons g gs =>
    have hmembers := h.members g gs level rest hfs (by
      simp only [renderFields, List.length_append, List.length_cons] at hlength ⊢
      omega)
    rw [renderFields, List.cons_append, skipBlanks_of_not_isBlank rfl]
    show (Json.members fuel _).map _ = _
    rw [List.append_assoc, List.append_assoc, List.append_assoc,
      members_append (hstyle.lineBreak (level + 1)), hmembers]
    rfl

/-- A value is read back with one more step of fuel: what is nested in it takes the fuel below. -/
theorem ReadsBack.value_succ (v : Json) (level : Nat) (rest : List Char) (hv : isSound v = true)
    (hlength : (render style level v).length < fuel + 1) (hrest : Ended rest) :
    Json.value (fuel + 1) (render style level v ++ rest) = some (v, rest) := by
  cases v with
  | null => rfl
  | bool b => cases b <;> rfl
  | integer n => exact value_integer n hrest
  | real x =>
    have hx : x.isFinite = true := hv
    rw [render, if_pos hx]
    exact value_real hx hrest
  | string text =>
    obtain ⟨text, rfl⟩ := Option.isSome_iff_exists.1 hv
    have htext : render style level (.string (some text)) ++ rest =
        '"' :: (text.toList.flatMap escapeChar ++ '"' :: rest) := by
      simp [render, quoted]
    rw [htext, Json.value, skipBlanks_of_not_isBlank rfl]
    simp only [stringText_flatMap_escapeChar]
    rfl
  | list items =>
    cases items with
    | nil => rfl
    | cons w ws =>
      obtain ⟨hw, hws⟩ := Bool.and_eq_true_iff.1 hv
      have hitems := h.items w ws level rest hw hws (by
        simp only [render, List.length_append, List.length_cons] at hlength ⊢
        omega)
      obtain ⟨c, cs, hcs, hblank, hclosing⟩ := exists_render_eq_cons style (level + 1) w
      rw [render, List.cons_append, Json.value, skipBlanks_of_not_isBlank rfl]
      simp only [List.append_assoc, skipBlanks_append (hstyle.lineBreak (level + 1)), hcs,
        List.cons_append, skipBlanks_of_not_isBlank hblank] at hitems ⊢
      split
      · rename_i heq
        exact absurd (List.cons.inj heq).1 hclosing
      · rw [hitems]
        rfl
  | object fields =>
    cases fields with
    | nil => rfl
    | cons f fs =>
      obtain ⟨name, w⟩ := f
      have hmembers := h.members (name, w) fs level rest hv (by
        simp only [render, List.length_append, List.length_cons] at hlength ⊢
        omega)
      have hname := (Bool.and_eq_true_iff.1 (Bool.and_eq_true_iff.1 hv).1).1
      obtain ⟨name, rfl⟩ := Option.isSome_iff_exists.1 hname
      rw [render, List.cons_append, Json.value, skipBlanks_of_not_isBlank rfl]
      simp only [List.append_assoc, skipBlanks_append (hstyle.lineBreak (level + 1))]
      rw [fieldHead_append] at hmembers ⊢
      rw [skipBlanks_of_not_isBlank rfl]
      show (Json.members fuel _).map _ = _
      rw [hmembers]
      rfl

/-- **One more step of fuel reads back one more character.** -/
theorem ReadsBack.succ : ReadsBack style (fuel + 1) :=
  ⟨h.value_succ hstyle, h.items_succ hstyle, h.members_succ hstyle⟩

end Steps

/-- Whatever the fuel, it is enough for all texts that are shorter. -/
theorem readsBack (hstyle : style.Blank) (fuel : Nat) : ReadsBack style fuel := by
  induction fuel with
  | zero => exact ⟨fun _ _ _ _ h => by omega, fun _ _ _ _ _ _ h => by omega,
      fun _ _ _ _ _ h => by omega⟩
  | succ fuel ih => exact ih.succ hstyle

/-- **What is printed of a sound value is read back as that value.** -/
theorem parse_print (hstyle : style.Blank) {v : Json} (hv : isSound v = true) :
    parse (print style v) = some v := by
  have hread := (readsBack hstyle (2 * (render style 0 v).length + 2)).value v 0 [] hv (by omega)
    (fun c hc => by cases hc)
  rw [List.append_nil] at hread
  rw [parse, print]
  simp only [String.toList_ofList, hread]
  rfl

section Trees

/-- A value of finite numbers and of integers of 32 bits, signed or not, in which lists and
objects are nested no deeper than a level. -/
inductive IsTree : Nat → Json → Prop
  | null {level : Nat} : IsTree level .null
  | bool {level : Nat} (b : Bool) : IsTree level (.bool b)
  | integer {level : Nat} {n : Int} (hlow : -0x80000000 ≤ n) (hhigh : n < 0x100000000) :
    IsTree level (.integer n)
  | real {level : Nat} {x : Float} (hx : x.isFinite = true) : IsTree level (.real x)
  | text {level : Nat} (text : String) : IsTree level (.text text)
  | list {level : Nat} {items : List Json} (h : ∀ v ∈ items, IsTree level v) :
    IsTree (level + 1) (.list items)
  | ofFields {level : Nat} {fields : List (String × Json)} (h : ∀ f ∈ fields, IsTree level f.2) :
    IsTree (level + 1) (.ofFields fields)

/-- Items are sound if each of them is. -/
theorem areItemsSound_of_forall {items : List Json} (h : ∀ v ∈ items, isSound v = true) :
    areItemsSound items = true := by
  induction items with
  | nil => rfl
  | cons v items ih =>
    obtain ⟨hv, hitems⟩ := List.forall_mem_cons.1 h
    exact Bool.and_eq_true_iff.2 ⟨hv, ih hitems⟩

/-- An object is sound if the values of its fields are. -/
theorem isSound_ofFields {fields : List (String × Json)} (h : ∀ f ∈ fields, isSound f.2 = true) :
    isSound (.ofFields fields) = true := by
  show areFieldsSound _ = true
  induction fields with
  | nil => rfl
  | cons f fields ih =>
    obtain ⟨hf, hfields⟩ := List.forall_mem_cons.1 h
    exact Bool.and_eq_true_iff.2 ⟨hf, ih hfields⟩

/-- **A value of finite numbers is sound**, whatever is nested in it. -/
theorem IsTree.isSound {level : Nat} {v : Json} (h : IsTree level v) : isSound v = true := by
  induction h with
  | null => rfl
  | bool _ => rfl
  | integer hlow hhigh => exact isFinite_floatOfInt (by omega)
  | real hx => exact hx
  | text _ => rfl
  | list _ ih => exact areItemsSound_of_forall ih
  | ofFields _ ih => exact isSound_ofFields ih

/-- Nothing is nested in a value at level zero. -/
theorem IsTree.depth_eq_zero {v : Json} (h : IsTree 0 v) : v.depth = 0 := by
  cases h <;> rfl

end Trees

end Json
end MultiSegmentWell
