/-
# Configurations

A configuration says where divisions are cut off and how results are written.  It can be put
together freely; `validate` says whether a calculator may be made from it.  A separator that could
be read as part of a number is refused.

The limits are there for practical reasons, the cap and the decimals each being the length of a text
that a caller can ask for.  The separator is refused for a reason that theorems depend on: grouped
text can be cleared of its separators and read back as the number it was written from only if the
separator cannot be taken for a digit, a sign or a point.  A separator that is a letter or a blank
is accepted.

The conditions are checked one after the other, and the first one that fails is reported.  Every
preset passes.

* `validate_eq_ok_iff`: the conditions in one line;
* `standard_valid`, `financial_valid`, `truncating_valid`: the presets are in order.
-/
import DecimalCalc.Decimal.Division
import DecimalCalc.Format.NumberFormat

namespace DecimalCalc

/-- The largest cap and the largest number of decimals that a configuration may ask for.  The limit
itself is allowed. -/
def maxDecimalLengthLimit : UInt32 := 1000

/-- What a calculator is set up with.  The record can hold settings that validation refuses. -/
structure Config where
  /-- Fraction digits of a division before it is cut off. -/
  maxDecimalLength : UInt32
  /-- How results are written. -/
  format : NumberFormat
deriving DecidableEq, Repr

/-- Why a configuration is refused.  A separator is reported along with the refusal, so that the
message can show it. -/
inductive ConfigError where
  | maxDecimalLengthTooLarge
  | decimalsTooLarge
  | invalidSeparator (separator : Char)
deriving DecidableEq, Repr

/-- The wording of the refusal.  It is all that a caller sees who does not take the error apart. -/
def ConfigError.message : ConfigError → String
  | .maxDecimalLengthTooLarge =>
    "Max decimal length cannot exceed " ++ toString maxDecimalLengthLimit.toNat
  | .decimalsTooLarge => "Rounding decimals cannot exceed " ++ toString maxDecimalLengthLimit.toNat
  | .invalidSeparator separator => "Invalid group separator '" ++ String.ofList [separator] ++ "'"

namespace Config

/-! ## 1. Putting a configuration together

The presets and the functions that change one setting.  None of them checks anything, so the order
in which settings are made does not matter. -/

/-- The given cap and the standard format.  All presets start from here. -/
def ofMaxDecimalLength (maxDecimalLength : UInt32) : Config := ⟨maxDecimalLength, .standard⟩

/-- For general use: the default cap, two decimals, halves away from zero. -/
def standard : Config := ofMaxDecimalLength defaultMaxDecimalLength

/-- Another cap. -/
def withMaxDecimalLength (c : Config) (maxDecimalLength : UInt32) : Config :=
  { c with maxDecimalLength }

/-- Another format altogether; the cap stays.  The settings below go through this one and change
one field of the format. -/
def withFormat (c : Config) (format : NumberFormat) : Config := { c with format }

/-- Another number of decimals. -/
def withDecimals (c : Config) (decimals : UInt32) : Config :=
  c.withFormat { c.format with decimals }

/-- With or without padding. -/
def withPadding (c : Config) (pad : Bool) : Config := c.withFormat { c.format with pad }

/-- Another way of rounding. -/
def withRoundingMode (c : Config) (mode : RoundingMode) : Config :=
  c.withFormat { c.format with mode }

/-- Other groups. -/
def withGrouping (c : Config) (separator : Char) (groupSize : UInt64) : Config :=
  c.withFormat (c.format.withGrouping separator groupSize)

/-- For amounts of money: always two decimals, filled up with zeros where the amount has fewer. -/
def financial : Config := standard.withPadding true

/-- For quantities that must not be reported too high: what is cut off is never rounded up. -/
def truncating : Config := standard.withRoundingMode .floor

/-! ## 2. Validation

Only the two lengths and the separator can be wrong.  The size of the groups may be anything, zero
included, since that switches grouping off. -/

/-- A character that could be part of a number as this library writes it: a digit, a minus sign or
a point. -/
def isNumberPart (c : Char) : Bool := c.isDigit || c == '-' || c == '.'

/-- Checks the cap, the decimals and the separator, in this order.  The first failure is the one
that is reported. -/
def validate (c : Config) : Except ConfigError Unit :=
  if maxDecimalLengthLimit < c.maxDecimalLength then .error .maxDecimalLengthTooLarge
  else if maxDecimalLengthLimit < c.format.decimals then .error .decimalsTooLarge
  else if isNumberPart c.format.separator then .error (.invalidSeparator c.format.separator)
  else .ok ()

/-- All three conditions have to hold; this is how proofs about valid configurations use them. -/
theorem validate_eq_ok_iff {c : Config} :
    c.validate = .ok () ↔ ¬ maxDecimalLengthLimit < c.maxDecimalLength ∧
      ¬ maxDecimalLengthLimit < c.format.decimals ∧ isNumberPart c.format.separator = false := by
  unfold validate
  split
  · simp_all
  split
  · simp_all
  split <;> simp_all

theorem standard_valid : standard.validate = .ok () := rfl

theorem financial_valid : financial.validate = .ok () := rfl

theorem truncating_valid : truncating.validate = .ok () := rfl

end Config
end DecimalCalc
