/-
# Capped division

A quotient may have no end, so a division is given a cap on the fraction digits of its long division
and leaves a remainder.  A divisor that is a power of ten only moves the point, and equal magnitudes
divide to one; both are exact, whatever the cap.  A quotient by a power of ten can therefore have
more fraction digits than the cap.

Long division works on a whole divisor.  The points of both operands move to the right together
until the divisor has no fraction, which changes neither the quotient nor the meaning of the cap.
The digits in front of the dividend's point are divided first, then those behind it, and then zeros
are brought down until nothing remains or the cap is reached.

The remainder is not the one that long division has in hand.  It is calculated afterwards, as the
magnitude of the dividend less that of quotient times divisor, which is exact and does not depend on
how the quotient was found.

* `divide_eq_error_iff`: only a zero divisor is refused;
* `divideWithRemainder_quotient`: the remainder comes with the quotient of `divide`.
-/
import DecimalCalc.Decimal.Arithmetic
import DecimalCalc.Decimal.Error
import DecimalCalc.Digits.LongDivision

namespace DecimalCalc

/-- Fraction digits of a division if nothing else is asked for.  Calculators start out with this
cap. -/
def defaultMaxDecimalLength : UInt32 := 15

namespace Decimal

open Digits

/-! ## 1. The quotient

The cases are tried in the order in which they are cheapest: a zero divisor, a zero dividend, a
power of ten, equal magnitudes, and at last the digits.  Only the last case looks at the cap. -/

/-- The quotient by long division, with at most `cap` fraction digits.  The points of both operands
move until the divisor is whole, and the digits come out with the last one first. -/
def divideDigits (cap : Nat) (negative : Bool) (x y : Decimal) : Decimal :=
  let dividend := x.abs.shift y.fraction.length
  let divisor := (y.abs.shift y.fraction.length).integer
  let whole := LongDivision.divideWhole divisor dividend.integer
  let division := LongDivision.divideFraction divisor cap dividend.fraction whole
  ofDigits negative division.quotient.reverse (division.quotient.length - whole.quotient.length)

/-- The quotient, cut off after `cap` fraction digits of long division.  A zero divisor is the only
thing that is refused. -/
def divide (cap : Nat) (x y : Decimal) : Except NumberError Decimal :=
  if y.isZero then .error .divisionByZero
  else if x.isZero then .ok zero
  else
    let negative := x.negative != y.negative
    match y.powerOfTen? with
    | some k => .ok ((x.shift (-k)).withSign negative)
    | none =>
      if compareMagnitude x y = .eq then .ok (one.withSign negative)
      else .ok (divideDigits cap negative x y)

/-! ## 2. The remainder

The remainder tells whether the quotient is exact, and how far it is from it.  It is a magnitude and
carries no sign, whatever the signs of the operands. -/

/-- A quotient with what it leaves of the dividend's magnitude.  The division came out exactly when
nothing is left. -/
structure Divided where
  quotient : Decimal
  remainder : Decimal
deriving DecidableEq, Repr

/-- The capped quotient `q` of `x` by `y` with the remainder `|x| - |q| * |y|`. -/
def divideWithRemainder (cap : Nat) (x y : Decimal) : Except NumberError Divided :=
  (divide cap x y).map fun q => ⟨q, x.abs - q.abs * y.abs⟩

theorem divide_eq_error_iff {cap : Nat} {x y : Decimal} {e : NumberError} :
    divide cap x y = .error e ↔ y.isZero = true ∧ e = .divisionByZero := by
  simp only [divide]
  split
  · next h => simp [h, eq_comm]
  · next h =>
    split
    · simp [h]
    · split
      · simp [h]
      · split <;> simp [h]

@[simp] theorem divideWithRemainder_quotient (cap : Nat) (x y : Decimal) :
    (divideWithRemainder cap x y).map (·.quotient) = divide cap x y := by
  unfold divideWithRemainder
  cases divide cap x y <;> rfl

end Decimal
end DecimalCalc
