/-
# Public values as JSON

Decimals are written as their canonical text; names of modes and operators as strings; records as
objects; an event as an object with one field, which is named after the kind of event.  Reading
takes exactly the ranges of the types and nothing else is checked: a configuration that no
calculator would accept is read all the same, and the texts of an event or of a division are taken
as they are.

Decimals are the exception.  Their text is read as a number, in any form that a number text may
have, and becomes canonical on the way, so what is read there is written again in one form only.
For all other values reading gives back exactly what was written.

* `ofJson?_toJson` in each namespace: what was written is read back.
-/
import DecimalCalc.Calculator.Config
import DecimalCalc.Expression.Event
import DecimalCalc.Json.Basic
import DecimalCalc.NumberText

namespace DecimalCalc

/-! ## 1. Decimals

A decimal is a string and not a number in JSON, since numbers there would be read as floating-point
numbers by others and lose digits. -/

namespace Decimal

/-- The canonical text of a decimal, as JSON. -/
def toJson (x : Decimal) : Json := .string x.toString

/-- Reads any number text.  A JSON number is refused, even if it is an integer. -/
def ofJson? : Json → Option Decimal
  | .string text => (ofString text).toOption
  | _ => none

end Decimal

/-! ## 2. Modes and operators

Types without fields are written by the names of their constructors.  A name is read in either of
the two ways that a bare name can be given. -/

namespace RoundingMode

/-- The name of a mode, which is that of its constructor. -/
def name : RoundingMode → String
  | .halfUp => "HalfUp"
  | .floor => "Floor"

/-- The mode of a name.  Names are compared as they are; another spelling is no name. -/
def ofName? : String → Option RoundingMode
  | "HalfUp" => some .halfUp
  | "Floor" => some .floor
  | _ => none

/-- A mode as JSON. -/
def toJson (mode : RoundingMode) : Json := .string mode.name

/-- Reads a mode. -/
def ofJson? (j : Json) : Option RoundingMode := j.variant? >>= ofName?

@[simp] theorem ofJson?_toJson (mode : RoundingMode) : ofJson? mode.toJson = some mode := by
  cases mode <;> rfl

end RoundingMode

namespace Operator

/-- The operator of a name.  The symbol of the operator is not among the names. -/
def ofName? : String → Option Operator
  | "Add" => some .add
  | "Subtract" => some .subtract
  | "Multiply" => some .multiply
  | "Divide" => some .divide
  | _ => none

/-- An operator as JSON. -/
def toJson (op : Operator) : Json := .string op.name

/-- Reads an operator. -/
def ofJson? (j : Json) : Option Operator := j.variant? >>= ofName?

@[simp] theorem ofJson?_toJson (op : Operator) : ofJson? op.toJson = some op := by
  cases op <;> rfl

end Operator

/-! ## 3. Records

A record is an object with one field for each of its own, in their order.  It is read by the names
of the fields, so their order does not matter there. -/

namespace NumberFormat

/-- A format as JSON.  Its mode is nested by its name, and the separator is a string of one
character. -/
def toJson (f : NumberFormat) : Json :=
  .object [("decimals", .ofNat f.decimals.toNat), ("pad", .bool f.pad), ("mode", f.mode.toJson),
    ("separator", .ofChar f.separator), ("group_size", .ofNat f.groupSize.toNat)]

/-- Reads a format.  Each field is read in the range of its type and in no other. -/
def ofJson? (j : Json) : Option NumberFormat :=
  match j.fields? ["decimals", "pad", "mode", "separator", "group_size"] with
  | some [decimals, pad, mode, separator, groupSize] => do
    return ⟨← decimals.uint32?, ← pad.bool?, ← RoundingMode.ofJson? mode, ← separator.char?,
      ← groupSize.uint64?⟩
  | _ => none

@[simp] theorem ofJson?_toJson (f : NumberFormat) : ofJson? f.toJson = some f := by
  simp [ofJson?, toJson, Json.fields?, Json.field?, Json.bool?]

end NumberFormat

namespace Config

/-- A configuration as JSON, with its format as an object inside. -/
def toJson (c : Config) : Json :=
  .object [("max_decimal_length", .ofNat c.maxDecimalLength.toNat), ("format", c.format.toJson)]

/-- Reads a configuration, valid or not; validation is left to the calculator that is made from
it. -/
def ofJson? (j : Json) : Option Config :=
  match j.fields? ["max_decimal_length", "format"] with
  | some [maxDecimalLength, format] => do
    return ⟨← maxDecimalLength.uint32?, ← NumberFormat.ofJson? format⟩
  | _ => none

@[simp] theorem ofJson?_toJson (c : Config) : ofJson? c.toJson = some c := by
  simp [ofJson?, toJson, Json.fields?, Json.field?]

end Config

namespace NumberText.Division

/-- The two texts of a division as JSON. -/
def toJson (d : Division) : Json :=
  .object [("quotient", .string d.quotient), ("remainder", .string d.remainder)]

/-- Reads the two texts of a division, whatever they are. -/
def ofJson? (j : Json) : Option Division :=
  match j.fields? ["quotient", "remainder"] with
  | some [quotient, remainder] => do return ⟨← quotient.string?, ← remainder.string?⟩
  | _ => none

@[simp] theorem ofJson?_toJson (d : Division) : ofJson? d.toJson = some d := by
  simp [ofJson?, toJson, Json.fields?, Json.field?, Json.string?]

end NumberText.Division

/-! ## 4. Events

The kinds of events differ in their fields, so an event is named by its kind first and read by that
name.  Only an object with a single field is an event. -/

namespace Event

/-- The fields of an event.  All of them are texts but the operator and the count of terms. -/
def fieldsToJson : Event → List (String × Json)
  | .expressionParsed expression terms =>
    [("expression", .string expression), ("terms", .ofNat terms.toNat)]
  | .operationApplied operator lhs rhs result =>
    [("operator", operator.toJson), ("lhs", .string lhs), ("rhs", .string rhs),
     ("result", .string result)]
  | .divisionTruncated dividend divisor quotient remainder =>
    [("dividend", .string dividend), ("divisor", .string divisor), ("quotient", .string quotient),
     ("remainder", .string remainder)]
  | .expressionEvaluated expression result =>
    [("expression", .string expression), ("result", .string result)]

/-- An event as JSON. -/
def toJson (event : Event) : Json := .object [(event.name, .object event.fieldsToJson)]

/-- Reads the fields of an event that is given by the name of its kind.  Fields that the kind does
not have are ignored. -/
def ofFields? (name : String) (fields : List (String × Json)) : Option Event :=
  let text (field : String) : Option String := Json.field? field fields >>= Json.string?
  match name with
  | "ExpressionParsed" => do
    return .expressionParsed (← text "expression") (← Json.field? "terms" fields >>= Json.uint64?)
  | "OperationApplied" => do
    return .operationApplied (← Json.field? "operator" fields >>= Operator.ofJson?) (← text "lhs")
      (← text "rhs") (← text "result")
  | "DivisionTruncated" => do
    return .divisionTruncated (← text "dividend") (← text "divisor") (← text "quotient")
      (← text "remainder")
  | "ExpressionEvaluated" => do
    return .expressionEvaluated (← text "expression") (← text "result")
  | _ => none

/-- Reads an event. -/
def ofJson? : Json → Option Event
  | .object [(name, .object fields)] => ofFields? name fields
  | _ => none

@[simp] theorem ofJson?_toJson (event : Event) : ofJson? event.toJson = some event := by
  cases event <;>
    simp [ofJson?, toJson, ofFields?, name, fieldsToJson, Json.field?, Json.string?]

end Event
end DecimalCalc
