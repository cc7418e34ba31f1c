/-
# JSON values

The values that JSON text denotes, with integers kept apart from other numbers: a number written
with a point or an exponent is no integer, whatever its value.  Objects are lists of named fields;
of two fields of one name the later one counts.

The readers are those that records and names of variants are read with.  They are generous in what
they accept: a record may have further fields or come as an array of its values in order, and a
variant without fields may come as an object that holds null.  They are strict in the values
themselves, where an integer has to lie in the range of its type and a character has to be a string
of exactly one.  What is written has one form only, and each reader reads it back.

* `variant?_string`, `variant?_object`: the two ways in which a bare name can be given;
* `char?_ofChar`, `uint32?_ofNat`, `uint64?_ofNat`: what is written is read back.
-/
namespace DecimalCalc

/-- A JSON value.  Text and value are not taken apart any further than the readers below need it. -/
inductive Json where
  | null
  | bool (value : Bool)
  | integer (value : Int)
  /-- A number that is not written as an integer, by its text. -/
  | real (text : String)
  | string (value : String)
  | array (items : List Json)
  | object (fields : List (String × Json))
deriving Repr, BEq, Inhabited

namespace Json

/-- The last field of the given name, as an object that is built field by field would hold it. -/
def field? (name : String) (fields : List (String × Json)) : Option Json :=
  (fields.reverse.find? fun field => field.1 == name).map (·.2)

/-- The values of the named fields, in the order asked for.  Other fields are ignored; a list of
just as many items stands for the fields in that order.  A field that is missing makes the whole
fail. -/
def fields? (names : List String) : Json → Option (List Json)
  | .object fields => names.mapM fun name => field? name fields
  | .array items => if items.length = names.length then some items else none
  | _ => none

/-- A bare name: a string, or an object with one field that holds null.  Which names there are is
the caller's concern. -/
def variant? : Json → Option String
  | .string name => some name
  | .object [(name, .null)] => some name
  | _ => none

/-- A truth value. -/
def bool? : Json → Option Bool
  | .bool value => some value
  | _ => none

/-- A string. -/
def string? : Json → Option String
  | .string value => some value
  | _ => none

/-- A string of one character.  The empty string is none, and neither are two characters that are
shown as one. -/
def char? : Json → Option Char
  | .string value =>
    match value.toList with
    | [c] => some c
    | _ => none
  | _ => none

/-- An integer from zero up to the bound, which is left out.  Negative integers and other numbers
are refused, not wrapped around. -/
def natBelow? (bound : Nat) : Json → Option Nat
  | .integer (.ofNat n) => if n < bound then some n else none
  | _ => none

/-- An integer of thirty-two bits without sign, as decimals and caps are counted in. -/
def uint32? (j : Json) : Option UInt32 := (j.natBelow? UInt32.size).map .ofNat

/-- An integer of sixty-four bits without sign, as group sizes and terms are counted in. -/
def uint64? (j : Json) : Option UInt64 := (j.natBelow? UInt64.size).map .ofNat

/-- A number as JSON. -/
def ofNat (n : Nat) : Json := .integer n

/-- A character as JSON. -/
def ofChar (c : Char) : Json := .string (String.ofList [c])

@[simp] theorem variant?_string (name : String) : variant? (.string name) = some name := rfl

@[simp] theorem variant?_object (name : String) :
    variant? (.object [(name, .null)]) = some name := rfl

@[simp] theorem char?_ofChar (c : Char) : char? (ofChar c) = some c := by
  simp [char?, ofChar]

@[simp] theorem uint32?_ofNat (n : UInt32) : uint32? (ofNat n.toNat) = some n := by
  have h : n.toNat < UInt32.size := n.toNat_lt
  simp [uint32?, natBelow?, ofNat, h]

@[simp] theorem uint64?_ofNat (n : UInt64) : uint64? (ofNat n.toNat) = some n := by
  have h : n.toNat < UInt64.size := n.toNat_lt
  simp [uint64?, natBelow?, ofNat, h]

end Json
end DecimalCalc
