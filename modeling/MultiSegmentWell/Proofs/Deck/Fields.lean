/-
# Fields read back

A field that stands once among others is found by its name, whatever the others are, and so is
the absence of one (`required_of_filter`, `defaulted_of_filter`, `optional_of_filter`). So a
field that is left out where there is no value is read as no value, and a list that is left out
where it is empty is read as empty.

A source is faithful if it takes the values that a deck is written with for what they are
(`Source.Faithful`). Both sources of JSON values are (`faithful_json`, `faithful_plain`).
-/

import MultiSegmentWell.Deck.FromJson

namespace MultiSegmentWell
namespace Deck

section Lookup

variable {V α : Type} {fields : List (String × V)} {name : String}

/-- What a look-up by name gives depends on the fields of that name only. -/
theorem field?_of_filter (value : Option V)
    (h : fields.filter (fun f => f.1 == name) = (value.map fun v => (name, v)).toList) :
    field? fields name = some value := by
  rw [field?, h]
  cases value <;> rfl

/-- A required field that stands once is read. -/
theorem required_of_filter {v : V} (h : fields.filter (fun f => f.1 == name) = [(name, v)])
    (read : V → Option α) : required fields name read = read v := by
  rw [required, field?_of_filter (some v) h]

/-- A field with a default is read where it stands. -/
theorem defaulted_of_filter {v : V} (h : fields.filter (fun f => f.1 == name) = [(name, v)])
    (fallback : α) (read : V → Option α) : defaulted fields name fallback read = read v := by
  rw [defaulted, field?_of_filter (some v) h]

/-- **A field that is left out without a value is read as it was.** -/
theorem optional_of_filter {fields : List (String × Json)} {write : α → Json} {value : Option α}
    {isNull : Json → Bool} {read : Json → Option α}
    (h : fields.filter (fun f => f.1 == name) = Json.optionalField name write value)
    (hread : ∀ x ∈ value, isNull (write x) = false ∧ read (write x) = some x) :
    optional fields name isNull read = some value := by
  have hfield : field? fields name = some (value.map write) := by
    refine field?_of_filter _ ?_
    rw [h, Option.map_map]
    rfl
  rw [optional, hfield]
  cases value with
  | none => rfl
  | some x =>
    obtain ⟨hnull, hx⟩ := hread x rfl
    simp [hnull, hx]

/-- Items that are read back one by one are read back as a list. -/
theorem mapM_map_eq_some {write : α → V} {read : V → Option α} {items : List α}
    (h : ∀ x ∈ items, read (write x) = some x) : (items.map write).mapM read = some items := by
  induction items with
  | nil => rfl
  | cons x items ih =>
    obtain ⟨hx, hitems⟩ := List.forall_mem_cons.1 h
    simp [hx, ih hitems]

/-- Of an optional field there is nothing under another name. -/
theorem filter_optionalField (own : String) (write : α → Json) (value : Option α) :
    (Json.optionalField own write value).filter (fun f => f.1 == name) =
      if own = name then Json.optionalField own write value else [] := by
  cases value <;> simp [Json.optionalField, List.filter_cons]

/-- What holds of an optional field is what holds of its value, if it has one. -/
theorem forall_mem_optionalField {write : α → Json} {value : Option α}
    {p : String × Json → Prop} :
    (∀ f ∈ Json.optionalField name write value, p f) ↔ ∀ x ∈ value, p (name, write x) := by
  cases value <;> simp [Json.optionalField]

/-- What holds of the field of a list holds where the list is empty, too. -/
theorem forall_mem_listField {write : α → Json} {items : List α} {p : String × Json → Prop}
    (h : p (name, .list (items.map write))) : ∀ f ∈ Json.listField name write items, p f := by
  cases items with
  | nil => simp [Json.listField]
  | cons x items => exact List.forall_mem_singleton.2 h

/-- Of a list that may be left out there is nothing under another name. -/
theorem filter_listField (own : String) (write : α → Json) (items : List α) :
    (Json.listField own write items).filter (fun f => f.1 == name) =
      if own = name then Json.listField own write items else [] := by
  cases items <;> simp [Json.listField, List.filter_cons]

end Lookup

namespace Source

/-- A source that takes values for what they are. -/
structure Faithful (source : Source Json) : Prop where
  fields_eq : ∀ names fields, source.fields? names (.ofFields fields) = some fields
  namedFields_eq : ∀ fields, source.namedFields? (.ofFields fields) = some fields
  items_eq : ∀ vs, source.items? (.list vs) = some vs
  integer_eq : ∀ n, source.integer? (.integer n) = some n
  natural_eq : ∀ n : Nat, source.natural? (.integer n) = some n
  real_eq : ∀ x, x.isFinite = true → source.real? (.real x) = some x
  text_eq : ∀ text, source.text? (.text text) = some text
  word_eq : ∀ word, source.word? (.text word) = some word
  isNull_integer : ∀ n, source.isNull (.integer n) = false
  isNull_real : ∀ x, source.isNull (.real x) = false
  describe_eq : ∀ v, isSound v = true → v.depth = 0 → source.describe? v = some v

/-- The fields of an object are those that it was made of. -/
theorem objectFields?_ofFields (fields : List (String × Json)) :
    objectFields? (.ofFields fields) = some fields :=
  mapM_map_eq_some fun _ _ => rfl

/-- JSON values are taken for what they are. -/
theorem faithful_json : json.Faithful where
  fields_eq _ := objectFields?_ofFields
  namedFields_eq := objectFields?_ofFields
  items_eq _ := rfl
  integer_eq _ := rfl
  natural_eq _ := rfl
  real_eq x hx := by simp [json, finite?, Json.toFloat?, hx]
  text_eq _ := rfl
  word_eq _ := rfl
  isNull_integer _ := rfl
  isNull_real _ := rfl
  describe_eq v hsound hdepth := by simp [json, hsound, hdepth, deepest]

/-- Values in plain form are taken for what they are. -/
theorem faithful_plain : plain.Faithful where
  fields_eq _ := objectFields?_ofFields
  namedFields_eq := objectFields?_ofFields
  items_eq _ := rfl
  integer_eq _ := rfl
  natural_eq _ := rfl
  real_eq _ _ := rfl
  text_eq _ := rfl
  word_eq _ := rfl
  isNull_integer _ := rfl
  isNull_real _ := rfl
  describe_eq _ _ _ := rfl

end Source

/-- An integer of 32 bits. -/
def IsInt32 (n : Int) : Prop := -0x80000000 ≤ n ∧ n < 0x80000000

section Reading

variable {source : Source Json} {fields : List (String × Json)} {name : String}
variable (hsource : source.Faithful)
include hsource

/-- An integer of 32 bits is read. -/
theorem int32?_integer {n : Int} (hn : IsInt32 n) : source.int32? (.integer n) = some n := by
  obtain ⟨hlow, hhigh⟩ := hn
  simp [Source.int32?, hsource.integer_eq, hlow, hhigh]

/-- A natural number of 32 bits is read. -/
theorem nat32?_integer {n : Nat} (hn : n < 0x100000000) : source.nat32? (.integer n) = some n := by
  simp [Source.nat32?, hsource.natural_eq, hn]

/-- The name of a status is read as that status. -/
theorem status?_text (s : Status) : source.status? (.text (statusName s)) = some s := by
  rw [Source.status?, hsource.word_eq, Option.bind_some, statusOfName?_statusName]

/-- The name of a unit system is read as that system. -/
theorem units?_text (u : UnitSystem) : source.units? (.text (unitsName u)) = some u := by
  rw [Source.units?, hsource.word_eq, Option.bind_some, unitsOfName?_unitsName]

/-- A required integer is read back. -/
theorem required_integer {n : Int} (hn : IsInt32 n)
    (h : fields.filter (fun f => f.1 == name) = [(name, .integer n)]) :
    required fields name source.int32? = some n :=
  (required_of_filter h _).trans (int32?_integer hsource hn)

/-- A required number is read back. -/
theorem required_real {x : Float} (hx : x.isFinite = true)
    (h : fields.filter (fun f => f.1 == name) = [(name, .real x)]) :
    required fields name source.real? = some x :=
  (required_of_filter h _).trans (hsource.real_eq x hx)

/-- A required text is read back. -/
theorem required_text (text : String)
    (h : fields.filter (fun f => f.1 == name) = [(name, .text text)]) :
    required fields name source.text? = some text :=
  (required_of_filter h _).trans (hsource.text_eq text)

/-- An integer is read back where it stands, whatever its default. -/
theorem defaulted_integer {n : Int} (hn : IsInt32 n) (fallback : Int)
    (h : fields.filter (fun f => f.1 == name) = [(name, .integer n)]) :
    defaulted fields name fallback source.int32? = some n :=
  (defaulted_of_filter h _ _).trans (int32?_integer hsource hn)

/-- A number is read back where it stands, whatever its default. -/
theorem defaulted_real {x : Float} (hx : x.isFinite = true) (fallback : Float)
    (h : fields.filter (fun f => f.1 == name) = [(name, .real x)]) :
    defaulted fields name fallback source.real? = some x :=
  (defaulted_of_filter h _ _).trans (hsource.real_eq x hx)

/-- A text is read back where it stands, whatever its default. -/
theorem defaulted_text (text fallback : String)
    (h : fields.filter (fun f => f.1 == name) = [(name, .text text)]) :
    defaulted fields name fallback source.text? = some text :=
  (defaulted_of_filter h _ _).trans (hsource.text_eq text)

/-- A status is read back where it stands, whatever its default. -/
theorem defaulted_status {s : Status} (fallback : Status)
    (h : fields.filter (fun f => f.1 == name) = [(name, .text (statusName s))]) :
    defaulted fields name fallback source.status? = some s :=
  (defaulted_of_filter h _ _).trans (status?_text hsource s)

/-- A list is read back if its items are. -/
theorem list?_list {α : Type} {write : α → Json} {read : Json → Option α} {items : List α}
    (h : ∀ x ∈ items, read (write x) = some x) :
    source.list? read (.list (items.map write)) = some items := by
  rw [Source.list?, hsource.items_eq, Option.bind_some, mapM_map_eq_some h]

/-- A number that may be missing is read back as a number or as missing. -/
theorem optional_real {value : Option Float} (hvalue : ∀ x ∈ value, x.isFinite = true)
    (h : fields.filter (fun f => f.1 == name) = Json.optionalField name .real value) :
    optional fields name source.isNull source.real? = some value :=
  optional_of_filter h fun x hx => ⟨hsource.isNull_real x, hsource.real_eq x (hvalue x hx)⟩

/-- An integer that may be missing is read back as an integer or as missing. -/
theorem optional_integer {value : Option Int} (hvalue : ∀ n ∈ value, IsInt32 n)
    (h : fields.filter (fun f => f.1 == name) = Json.optionalField name .integer value) :
    optional fields name source.isNull source.int32? = some value :=
  optional_of_filter h fun n hn => ⟨hsource.isNull_integer n, int32?_integer hsource (hvalue n hn)⟩

/-- **A list that is left out when it is empty is read as it was.** -/
theorem defaulted_list {α : Type} {write : α → Json} {read : Json → Option α} {items : List α}
    (hitems : ∀ x ∈ items, read (write x) = some x)
    (h : fields.filter (fun f => f.1 == name) = Json.listField name write items) :
    defaulted fields name [] (source.list? read) = some items := by
  cases items with
  | nil => rw [defaulted, field?_of_filter none h]
  | cons x items => rw [defaulted_of_filter h, list?_list hsource hitems]

end Reading

end Deck
end MultiSegmentWell
