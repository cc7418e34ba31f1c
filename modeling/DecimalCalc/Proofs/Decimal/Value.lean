/-
# The number a decimal denotes

`Decimal.value` reads all digits as one integer, divides by ten for each digit behind the point and
applies the sign.  Normalising does not change it, and setting the point multiplies it by a power of
ten.

The sign is kept apart from the magnitude throughout, as a factor of one or minus one, since the
operations decide about it separately.  A statement about the value of a result is then an equation
with that factor in front, and cases by sign come up only where the definition itself makes them.
Setting the point is described by an exponent that may be negative, which covers the point in front
of the run, inside and behind it in one equation; shifts, integers and results of the digit
algorithms are all instances of it.

* `value_normalize`, `value_placePoint`, `value_shift`, `value_ofDigits`: what the point does;
* `value_withSign`, `value_neg`, `value_abs`: what the sign does;
* `isZero_iff`, `Canonical.negative_iff`: zero and the sign, read off the digits.
-/
import DecimalCalc.Decimal.Basic
import DecimalCalc.Proofs.Digits.Value
import Mathlib.Algebra.Order.Field.Power
import Mathlib.Data.List.TakeWhile
import Mathlib.Data.Rat.Cast.Order
import Mathlib.Tactic.FieldSimp
import Mathlib.Tactic.Linarith
import Mathlib.Tactic.Positivity

namespace DecimalCalc
namespace Decimal

open Digits

/-! ## 1. Sign and magnitude

A value is its sign times its magnitude, and the magnitude is a quotient of two natural numbers.  In
canonical form the sign flag says whether the value is negative, since zero has none. -/

/-- The factor that a sign stands for.  Signs multiply, where the flags differ or agree. -/
def sign (negative : Bool) : Rat := if negative then -1 else 1

@[simp] theorem sign_false : sign false = 1 := rfl

@[simp] theorem sign_true : sign true = -1 := rfl

@[simp] theorem abs_sign (negative : Bool) : |sign negative| = 1 := by
  cases negative <;> simp

/-- Two signs differ exactly when their product is minus one, so the sign of a product or a
quotient is found without looking at the digits. -/
theorem sign_bne (a b : Bool) : sign (a != b) = sign a * sign b := by
  cases a <;> cases b <;> simp

theorem sign_not (a : Bool) : sign (!a) = -sign a := by
  cases a <;> simp

/-- The value as sign times magnitude, which is how the other lemmas take it apart. -/
theorem value_eq (x : Decimal) :
    x.value = sign x.negative * ((x.digits.toNat : Rat) / 10 ^ x.fraction.length) :=
  mul_div_assoc _ _ _

/-- The magnitude of the value is what the digits denote, in any form. -/
theorem abs_value (x : Decimal) : |x.value| = (x.digits.toNat : Rat) / 10 ^ x.fraction.length := by
  rw [value_eq, abs_mul, abs_sign, one_mul, abs_of_nonneg (by positivity)]

theorem value_eq_sign_mul_abs (x : Decimal) : x.value = sign x.negative * |x.value| := by
  rw [abs_value]
  exact value_eq x

/-- Whether a decimal is zero is asked of its digits, and means that its value is. -/
theorem isZero_iff {x : Decimal} : x.isZero = true ↔ x.value = 0 := by
  rw [← abs_eq_zero, abs_value, div_eq_zero_iff, Nat.cast_eq_zero, digits, toNat_append,
    Nat.add_eq_zero_iff, Nat.mul_eq_zero, isZero, Bool.and_eq_true, allZero_iff, allZero_iff]
  simp

/-- A canonical decimal carries a minus sign exactly when it is below zero. -/
theorem Canonical.negative_iff {x : Decimal} (h : x.Canonical) :
    x.negative = true ↔ x.value < 0 := by
  constructor
  · intro hneg
    have hne : x.value ≠ 0 := fun h0 => by
      simp [h.zero_not_negative (isZero_iff.2 h0)] at hneg
    rw [value_eq_sign_mul_abs, hneg, sign_true, neg_one_mul, neg_lt_zero]
    exact abs_pos.2 hne
  · intro hlt
    by_contra hneg
    rw [Bool.not_eq_true] at hneg
    rw [value_eq_sign_mul_abs, hneg, sign_false, one_mul] at hlt
    exact absurd hlt (not_lt.2 (abs_nonneg _))

/-! ## 2. Normalising and setting the point

Zeros in front do not count, and each zero at the end of the fraction is made up for by the power of
ten under it.  So trimming keeps the value, and so does dropping the sign of zero. -/

/-- Trimming at the end takes zeros away and nothing else, so the fraction can be written with the
zeros back in place. -/
theorem eq_trimTrailing_append (ds : Digits) :
    ∃ n, ds = ds.trimTrailing ++ List.replicate n 0 := by
  refine ⟨(ds.reverse.takeWhile (· == 0)).length, ?_⟩
  have hzeros : ds.reverse.takeWhile (· == 0) =
      List.replicate (ds.reverse.takeWhile (· == 0)).length 0 :=
    List.eq_replicate_iff.2 ⟨rfl, fun d hd => by simpa using List.mem_takeWhile_imp hd⟩
  have h := congrArg List.reverse (List.takeWhile_append_dropWhile (p := (· == 0)) (l := ds.reverse))
  rw [List.reverse_append, List.reverse_reverse, hzeros, List.reverse_replicate] at h
  exact h.symm

/-- Normalising keeps the value that the two runs and the sign denoted, whatever their form. -/
theorem value_normalize (negative : Bool) (integer fraction : Digits) :
    (normalize negative integer fraction).value =
      sign negative * ((toNat (integer ++ fraction) : Rat) / 10 ^ fraction.length) := by
  have hinteger : toNat (if integer.trimLeading.isEmpty then [0] else integer.trimLeading) =
      integer.toNat := by
    split
    · next h =>
      rw [← toNat_trimLeading integer, List.isEmpty_iff.1 h]
      rfl
    · exact toNat_trimLeading integer
  obtain ⟨n, hn⟩ := eq_trimTrailing_append fraction
  have hmagnitude : |(normalize negative integer fraction).value| =
      (toNat (integer ++ fraction) : Rat) / 10 ^ fraction.length := by
    rw [abs_value]
    simp only [digits, normalize]
    rw [toNat_append, hinteger]
    generalize fraction.trimTrailing = f at *
    subst hn
    rw [← List.append_assoc, toNat_append_zeros, List.length_append, List.length_replicate,
      pow_add, toNat_append]
    push_cast
    field_simp
  rw [value_eq_sign_mul_abs, hmagnitude]
  by_cases hzero : (integer.allZero && fraction.allZero) = true
  · have h0 : toNat (integer ++ fraction) = 0 := by
      rw [Bool.and_eq_true, allZero_iff, allZero_iff] at hzero
      rw [toNat_append, hzero.1, hzero.2, Nat.zero_mul]
    simp [h0]
  · simp [normalize, hzero]

/-- **Setting the point** behind the first `point` digits.  The exponent counts from the end of the
run, and is negative where digits are left behind the point. -/
theorem value_placePoint (negative : Bool) (ds : Digits) (point : Int) :
    (placePoint negative ds point).value =
      sign negative * ((ds.toNat : Rat) * 10 ^ (point - ds.length)) := by
  simp only [placePoint]
  rw [value_normalize, List.take_append_drop, List.append_assoc, toNat_zeros_append,
    toNat_append_zeros, List.length_drop, List.length_append, List.length_append,
    List.length_replicate, List.length_replicate]
  congr 1
  have hten : (10 : Rat) ≠ 0 := by norm_num
  -- of the zeros behind, less what falls behind the point, `point - ds.length` places are left
  generalize hbehind : (point - ds.length).toNat = behind
  generalize hlength : (-point).toNat + (ds.length + behind) - point.toNat = length
  have hexp : point - (ds.length : Int) = (behind : Int) - (length : Int) := by omega
  rw [hexp, zpow_sub₀ hten, zpow_natCast, zpow_natCast]
  push_cast
  rw [mul_div_assoc]

/-- Moving the point multiplies by a power of ten, for moves in either direction. -/
theorem value_shift (x : Decimal) (places : Int) :
    (x.shift places).value = x.value * 10 ^ places := by
  have hten : (10 : Rat) ≠ 0 := by norm_num
  have hexp : (x.integer.length + places - x.digits.length : Int) = places - x.fraction.length := by
    rw [digits, List.length_append]
    push_cast
    ring
  rw [shift, value_placePoint, value_eq, hexp, zpow_sub₀ hten, zpow_natCast]
  ring

/-- Digits behind the point divide by ten each, also if there are more of them asked for than the
run has. -/
theorem value_ofDigits (negative : Bool) (ds : Digits) (fractionLength : Nat) :
    (ofDigits negative ds fractionLength).value =
      sign negative * ((ds.toNat : Rat) / 10 ^ fractionLength) := by
  have hexp : (ds.length - fractionLength - ds.length : Int) = -(fractionLength : Int) := by ring
  rw [ofDigits, value_placePoint, hexp, zpow_neg, zpow_natCast, div_eq_mul_inv]

@[simp] theorem value_zero : zero.value = 0 := by
  simp [value, zero, digits, Digits.toNat]

@[simp] theorem value_one : one.value = 1 := by
  simp [value, one, digits, Digits.toNat]

/-! ## 3. Signs

The remaining operations change the sign alone.  On values they are negation, magnitude, and the
magnitude with a sign of its own. -/

/-- Zero is no exception: its sign is dropped, and its magnitude is zero whatever the factor. -/
theorem value_withSign (x : Decimal) (negative : Bool) :
    (x.withSign negative).value = sign negative * |x.value| := by
  have hmagnitude : |(x.withSign negative).value| = |x.value| := by
    rw [abs_value, abs_value]
    rfl
  rw [value_eq_sign_mul_abs, hmagnitude]
  by_cases hzero : x.isZero = true
  · simp [isZero_iff.1 hzero]
  · simp [withSign, hzero]

@[simp] theorem value_neg (x : Decimal) : (-x).value = -x.value := by
  show (x.withSign (!x.negative)).value = -x.value
  rw [value_withSign, sign_not, neg_mul, ← value_eq_sign_mul_abs]

@[simp] theorem value_abs (x : Decimal) : x.abs.value = |x.value| := by
  rw [abs_value]
  simp [value_eq, abs, digits]

end Decimal
end DecimalCalc
