/-
# Rounding to a number of decimals

Digits past the last decimal are cut off, and one unit of that decimal is added, away from zero,
where the mode asks for it.  A canonical fraction ends in a digit other than zero, so whatever is
cut off is more than nothing.  That is why both modes decide by a glance: rounding to the nearest
looks at the first digit cut off alone, and rounding down looks at nothing but the sign.

A number that has no more digits than asked for is returned as it stands.  A number that is rounded
away is an exact sum, so a carry can run through all digits, and the sum may come out with fewer
decimals than asked for; writing it with a fixed number of decimals fills up with zeros again.

* `round_of_length_le`: a number that has no more digits stays as it is;
* `round_canonical`: rounding keeps the canonical form.
-/
import DecimalCalc.Decimal.Arithmetic
import DecimalCalc.Decimal.Numeral

namespace DecimalCalc

/-- What becomes of the digits past the last decimal.  The two modes differ for negative numbers
also where nothing is half. -/
inductive RoundingMode where
  /-- To the nearest; halves go away from zero. -/
  | halfUp
  /-- Toward minus infinity. -/
  | floor
deriving DecidableEq, Repr, Inhabited

namespace Decimal

open Digits

/-! ## 1. Rounding

A rounded number is the number cut off, or that number and one unit of its last decimal.  The unit
carries the sign of the number, so it always leads away from zero. -/

/-- The number without the digits past `decimals`.  This alone rounds toward zero. -/
def truncate (decimals : Nat) (x : Decimal) : Decimal :=
  ofDigits x.negative (x.integer ++ x.fraction.take decimals) decimals

/-- One unit of the last decimal, with the given sign: the smallest step between numbers of that
many decimals. -/
def unit (decimals : Nat) (negative : Bool) : Decimal :=
  (one.shift (-decimals)).withSign negative

/-- The cut-off digits call for one unit more.  This is only asked where there are digits to cut
off, and then they are not all zero. -/
def roundsAway (mode : RoundingMode) (decimals : Nat) (x : Decimal) : Bool :=
  match mode with
  | .halfUp => x.fraction[decimals]?.any (5 ≤ ·)
  | .floor => x.negative

/-- The number rounded to at most `decimals` fraction digits.  Fewer digits come out where the
rounded ones end in zero. -/
def round (mode : RoundingMode) (decimals : Nat) (x : Decimal) : Decimal :=
  if x.fraction.length ≤ decimals then x
  else if roundsAway mode decimals x then truncate decimals x + unit decimals x.negative
  else truncate decimals x

theorem round_of_length_le {mode : RoundingMode} {decimals : Nat} {x : Decimal}
    (h : x.fraction.length ≤ decimals) : round mode decimals x = x := by
  simp [round, h]

theorem truncate_canonical {x : Decimal} (h : x.Canonical) (decimals : Nat) :
    (truncate decimals x).Canonical :=
  ofDigits_canonical (fun d hd => (List.mem_append.1 hd).elim (h.integer_valid d) fun hd =>
    h.fraction_valid d (List.mem_of_mem_take hd)) _ _

theorem unit_canonical (decimals : Nat) (negative : Bool) : (unit decimals negative).Canonical :=
  withSign_canonical (shift_canonical one_canonical _) _

theorem round_canonical {x : Decimal} (h : x.Canonical) (mode : RoundingMode) (decimals : Nat) :
    (round mode decimals x).Canonical := by
  unfold round
  split
  · exact h
  split
  · exact add_canonical (truncate_canonical h _) (unit_canonical _ _)
  · exact truncate_canonical h _

/-! ## 2. A fixed number of decimals

Amounts are shown with a fixed number of decimals, whether the number has them or not.  The zeros
are put behind the canonical text and belong to the text alone; they are gone as soon as it is read
again. -/

/-- The canonical text with zeros behind the fraction until it has `decimals` digits; no point if
none are asked for.  A fraction that is longer is left as it is, so numbers are rounded before. -/
def toCharsPadded (decimals : Nat) (x : Decimal) : List Char :=
  if decimals = 0 then x.toChars
  else
    let (integer, fraction) := Text.cutAt (· == '.') x.toChars
    integer ++ '.' :: (fraction.getD []).rightpad decimals '0'

/-- The number rounded to its nearest and written with exactly `decimals` fraction digits, a point
included unless there are none. -/
def toFixed (decimals : Nat) (x : Decimal) : String :=
  String.ofList ((round .halfUp decimals x).toCharsPadded decimals)

end Decimal
end DecimalCalc
