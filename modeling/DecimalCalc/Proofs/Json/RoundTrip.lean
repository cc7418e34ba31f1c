/-
# Reading what was written

A type can have many spellings in JSON: records may carry fields that nobody asked for or come as
lists, names may come as objects, and a decimal may be any text of its number.  Written is one of
them.  Two laws say that the two directions belong together: what is written is read back, and what
is read is a value that can be written.  From these alone, writing what was read leads to a normal
form, so that doing it twice is doing it once.

The two directions and the values they are meant for make a `JsonForm`, and the laws are proved of
each form once.  For most types every value is valid and the second law says nothing; for decimals
it says that reading leads to the canonical form, which is the one case where reading does more than
take a record apart.  The public types are enumerated, so that statements about all of them are
for-all statements over the enumeration and a type that is added has to be given a form and its
laws.

* `JsonForm.Lawful.rewrite?_write`, `JsonForm.Lawful.rewrite?_rewrite?`: what is written is a normal
  form;
* `PublicType.lawful`: the laws for each public type;
* `Decimal.rewrite?_eq_some_iff`: decimals are rewritten as `NumberText.canonicalize` rewrites
  texts;
* `public_types_read_back`: the three together.
-/
import DecimalCalc.Json.Codec
import DecimalCalc.Proofs.NumberText.Canonicalize

namespace DecimalCalc

/-! ## 1. The two laws and what follows from them

The laws make reading and writing an inverse pair on valid values, and nothing is asked of JSON that
is not read.  Rewriting is reading and then writing; that its results are left alone by it follows
in one step. -/

/-- How the values of a type are written as JSON and read from it.  Values that are not valid are
never written, and there are such values only for decimals. -/
structure JsonForm (α : Type) where
  Valid : α → Prop
  write : α → Json
  read? : Json → Option α

namespace JsonForm

/-- Writes what was read, if anything was.  The result is the one form in which the value is
written. -/
def rewrite? {α : Type} (F : JsonForm α) (j : Json) : Option Json := (F.read? j).map F.write

/-- Reading takes back writing and has valid results only.  Both laws are about values and not
about the shape of the JSON. -/
structure Lawful {α : Type} (F : JsonForm α) : Prop where
  read?_write : ∀ {x : α}, F.Valid x → F.read? (F.write x) = some x
  valid_of_read? : ∀ {j : Json} {x : α}, F.read? j = some x → F.Valid x

namespace Lawful

variable {α : Type} {F : JsonForm α} (laws : F.Lawful)

include laws

/-- What is written is rewritten as it is.  Nothing is asked of the text but that it comes from a
valid record. -/
theorem rewrite?_write {x : α} (hx : F.Valid x) : F.rewrite? (F.write x) = some (F.write x) := by
  rw [rewrite?, laws.read?_write hx, Option.map_some]

/-- Rewriting a second time changes nothing, whatever the first text looked like: fields in another
order or defaults left out are settled the first time. -/
theorem rewrite?_rewrite? {j k : Json} (h : F.rewrite? j = some k) : F.rewrite? k = some k := by
  obtain ⟨x, hread, rfl⟩ := Option.map_eq_some_iff.1 h
  exact laws.rewrite?_write (laws.valid_of_read? hread)

end Lawful

/-- The form of a type all of whose values are valid. -/
def total {α : Type} (write : α → Json) (read? : Json → Option α) : JsonForm α :=
  ⟨fun _ => True, write, read?⟩

/-- For a type without invalid values one law is enough. -/
theorem lawful_total {α : Type} {write : α → Json} {read? : Json → Option α}
    (h : ∀ x, read? (write x) = some x) : (total write read?).Lawful :=
  ⟨fun {x} _ => h x, fun _ => True.intro⟩

end JsonForm

/-! ## 2. Decimals

The only form that checks more than the shape: any text of a number is read, and the decimal it denotes
is in canonical form. -/

namespace Decimal

/-- A decimal is read from a string and from nothing else, and what the string has to be is a
number text. -/
theorem ofJson?_eq_some_iff {j : Json} {x : Decimal} :
    ofJson? j = some x ↔ ∃ text, j = .string text ∧ ofString text = .ok x := by
  cases j <;> simp [ofJson?, toOption_eq_some_iff]

/-- The form of decimals. -/
def jsonForm : JsonForm Decimal := ⟨Canonical, toJson, ofJson?⟩

/-- Decimals in canonical form are read back from their text, and what is read is in canonical
form. -/
theorem lawful_jsonForm : jsonForm.Lawful where
  read?_write := by
    intro x hx
    -- By rewriting: comparing with `ofJson?` up to reduction would run it on the symbolic text.
    simp only [jsonForm]
    exact ofJson?_eq_some_iff.2 ⟨x.toString, rfl, ofString_toString hx⟩
  valid_of_read? := by
    intro j x h
    obtain ⟨text, -, hread⟩ := ofJson?_eq_some_iff.1 h
    exact parse_canonical hread

/-- Decimals are accepted from the strings that canonicalise, and written as what these canonicalise
to. -/
theorem rewrite?_eq_some_iff {j k : Json} :
    jsonForm.rewrite? j = some k ↔
      ∃ text result, j = .string text ∧ NumberText.canonicalize text = .ok result ∧
        k = .string result := by
  constructor
  · intro h
    obtain ⟨x, hj, rfl⟩ := Option.map_eq_some_iff.1 h
    obtain ⟨text, rfl, hread⟩ := ofJson?_eq_some_iff.1 hj
    exact ⟨text, x.toString, rfl, NumberText.canonicalize_eq_ok_iff.2 ⟨x, hread, rfl⟩, rfl⟩
  · rintro ⟨text, result, rfl, hresult, rfl⟩
    obtain ⟨x, hread, rfl⟩ := NumberText.canonicalize_eq_ok_iff.1 hresult
    exact Option.map_eq_some_iff.2 ⟨x, ofJson?_eq_some_iff.2 ⟨text, rfl, hread⟩, rfl⟩

end Decimal

/-! ## 3. All public types

Each public type has its form, made of the functions that write and read it.  The laws for one type
are the lemma beside its codec. -/

/-- The types whose values are exchanged as JSON.  Their forms are looked up by name, so that one
theorem can speak of all of them. -/
inductive PublicType where
  | decimal
  | roundingMode
  | operator
  | numberFormat
  | config
  | division
  | event
deriving DecidableEq, Repr

namespace PublicType

/-- The values of a public type. -/
def Value : PublicType → Type
  | decimal => Decimal
  | roundingMode => RoundingMode
  | operator => Operator
  | numberFormat => NumberFormat
  | config => Config
  | division => NumberText.Division
  | event => Event

/-- The form of a public type.  Of decimals only the canonical ones are values; the other types have no
values but valid ones. -/
def jsonForm : (t : PublicType) → JsonForm t.Value
  | decimal => Decimal.jsonForm
  | roundingMode => .total RoundingMode.toJson RoundingMode.ofJson?
  | operator => .total Operator.toJson Operator.ofJson?
  | numberFormat => .total NumberFormat.toJson NumberFormat.ofJson?
  | config => .total Config.toJson Config.ofJson?
  | division => .total NumberText.Division.toJson NumberText.Division.ofJson?
  | event => .total Event.toJson Event.ofJson?

/-- The laws for each public type, one case for each, of which all but decimals are total. -/
theorem lawful (t : PublicType) : t.jsonForm.Lawful := by
  cases t with
  | decimal => exact Decimal.lawful_jsonForm
  | roundingMode => exact JsonForm.lawful_total RoundingMode.ofJson?_toJson
  | operator => exact JsonForm.lawful_total Operator.ofJson?_toJson
  | numberFormat => exact JsonForm.lawful_total NumberFormat.ofJson?_toJson
  | config => exact JsonForm.lawful_total Config.ofJson?_toJson
  | division => exact JsonForm.lawful_total NumberText.Division.ofJson?_toJson
  | event => exact JsonForm.lawful_total Event.ofJson?_toJson

end PublicType

/-- **What is written is read back.**  A value of any public type is read back from what it was written
as.  Whatever was read is such a value, so that writing it, reading that and writing again ends with the
same JSON.  Decimals are accepted from just the strings that canonicalise and are written as the
canonical text. -/
theorem public_types_read_back :
    (∀ (t : PublicType) (x : t.Value), t.jsonForm.Valid x →
      t.jsonForm.read? (t.jsonForm.write x) = some x) ∧
    (∀ (t : PublicType) (j : Json) (x : t.Value), t.jsonForm.read? j = some x →
      t.jsonForm.Valid x ∧ t.jsonForm.rewrite? j = some (t.jsonForm.write x) ∧
        t.jsonForm.rewrite? (t.jsonForm.write x) = some (t.jsonForm.write x)) ∧
    (∀ j k : Json, PublicType.decimal.jsonForm.rewrite? j = some k ↔
      ∃ text result, j = .string text ∧ NumberText.canonicalize text = .ok result ∧
        k = .string result) := by
  refine ⟨fun t x => t.lawful.read?_write, ?_, fun j k => Decimal.rewrite?_eq_some_iff⟩
  intro t j x hread
  have hj : t.jsonForm.rewrite? j = some (t.jsonForm.write x) := Option.map_eq_some_iff.2 ⟨x, hread, rfl⟩
  exact ⟨t.lawful.valid_of_read? hread, hj, t.lawful.rewrite?_rewrite? hj⟩

/-- A configuration with a field that nobody asked for, an event and a decimal that is not in canonical
form. -/
theorem public_types_read_back_unknown_field :
    ∃ (given : Json) (config : Config) (event : Event),
      given = .object [("max_decimal_length", .integer 3), ("comment", .null),
        ("format", .object [("decimals", .integer 2), ("pad", .bool true), ("mode", .string "Floor"),
          ("separator", .string ","), ("group_size", .integer 3)])] ∧
      config = ⟨3, ⟨2, true, .floor, ',', 3⟩⟩ ∧
      event = .divisionTruncated "1" "3" "0.3" "0.1" ∧
      PublicType.config.jsonForm.rewrite? given = some config.toJson ∧
      PublicType.config.jsonForm.rewrite? config.toJson = some config.toJson ∧
      Event.ofJson? event.toJson = some event ∧
      PublicType.decimal.jsonForm.rewrite? (.string " +05.0e-1 ") = some (.string "0.5") := by
  obtain ⟨hwritten, hread, hdecimal⟩ := public_types_read_back
  refine ⟨_, _, _, rfl, rfl, rfl, ?_⟩
  obtain ⟨-, hgiven, hagain⟩ := hread .config (.object [("max_decimal_length", .integer 3),
    ("comment", .null), ("format", .object [("decimals", .integer 2), ("pad", .bool true),
      ("mode", .string "Floor"), ("separator", .string ","), ("group_size", .integer 3)])])
    (⟨3, ⟨2, true, .floor, ',', 3⟩⟩ : Config) (by rfl)
  exact ⟨hgiven, hagain, hwritten .event (.divisionTruncated "1" "3" "0.3" "0.1" : Event) True.intro,
    (hdecimal _ _).2 ⟨" +05.0e-1 ", "0.5", rfl, by decide +kernel, rfl⟩⟩

end DecimalCalc
