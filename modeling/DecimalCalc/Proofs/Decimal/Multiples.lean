/-
# Rounding to multiples of a step

Rounding to decimals is rounding to the multiples of a step, the unit of the last decimal, and the
multiples of a step are the integers, scaled.  So what is known of a rounding mode is known once it
is known for integers: how far it moves a number, that it leaves integers alone, and that it keeps
the order.

Everything here is about rational numbers and the two rounding modes; no digit occurs.  The laws are
stated for any positive step, since amounts are rounded to the unit of a decimal of a million as
well, and are proved by dividing by the step, using the law for integers, and multiplying again.
The specification of rounding, which is written with magnitudes and a sign, is brought into this
form at the end.

* `toInt_mono`: rounding to integers keeps the order;
* `abs_toMultiple_sub_le`, `toMultiple_floor_bounds`: how far a number is moved;
* `toMultiple_mono`, `toMultiple_intCast_mul`: order is kept, and multiples stay where they are;
* `onRationals_eq_toMultiple`: rounding to decimals in these terms.
-/
import DecimalCalc.Proofs.Decimal.Rounding

namespace DecimalCalc
namespace RoundingMode

/-! ## 1. Rounding to integers

Half up adds a half and takes the integer below, on either side of zero in its own direction, so
that halves go away from zero on both.  Floor takes the integer below everywhere. -/

/-- The integer that a number is rounded to.  For half up the two sides of zero mirror each
other. -/
def toInt (mode : RoundingMode) (q : Rat) : Int :=
  match mode with
  | .halfUp => if q < 0 then -⌊-q + 1 / 2⌋ else ⌊q + 1 / 2⌋
  | .floor => ⌊q⌋

theorem floor_add_half_bounds (q : Rat) :
    q - 1 / 2 < (⌊q + 1 / 2⌋ : Rat) ∧ (⌊q + 1 / 2⌋ : Rat) ≤ q + 1 / 2 := by
  have hle := Int.floor_le (q + 1 / 2)
  have hlt := Int.lt_floor_add_one (q + 1 / 2)
  constructor <;> linarith

/-- Half up moves a number by half a unit at most. -/
theorem abs_toInt_halfUp_sub_le (q : Rat) : |(toInt .halfUp q : Rat) - q| ≤ 1 / 2 := by
  rw [toInt, abs_le]
  split
  · obtain ⟨hlt, hle⟩ := floor_add_half_bounds (-q)
    push_cast
    constructor <;> linarith
  · obtain ⟨hlt, hle⟩ := floor_add_half_bounds q
    constructor <;> linarith

theorem toInt_intCast (mode : RoundingMode) (n : Int) : mode.toInt n = n := by
  cases mode with
  | floor => exact Int.floor_intCast n
  | halfUp =>
    -- an integer within half a unit of `n` is `n`
    have hnear := abs_le.1 (abs_toInt_halfUp_sub_le n)
    have hlt : (toInt .halfUp n : Rat) < ((n + 1 : Int) : Rat) := by
      push_cast
      linarith
    have hgt : ((n - 1 : Int) : Rat) < (toInt .halfUp n : Rat) := by
      push_cast
      linarith
    rw [Int.cast_lt] at hlt hgt
    omega

/-- **Rounding to integers keeps the order.**  For half up the case of two signs is settled by
zero, which lies in between and stays where it is. -/
theorem toInt_mono (mode : RoundingMode) {p q : Rat} (h : p ≤ q) : mode.toInt p ≤ mode.toInt q := by
  cases mode with
  | floor => exact Int.floor_le_floor h
  | halfUp =>
    -- two integers in the wrong order are a unit apart, which two numbers in order cannot make up for
    by_contra hlt
    have hstep : ((toInt .halfUp q + 1 : Int) : Rat) ≤ (toInt .halfUp p : Rat) :=
      Int.cast_le.2 (Int.add_one_le_iff.2 (not_le.1 hlt))
    have hp := abs_le.1 (abs_toInt_halfUp_sub_le p)
    have hq := abs_le.1 (abs_toInt_halfUp_sub_le q)
    push_cast at hstep
    have heq : p = q := by linarith
    exact hlt (le_of_eq (congrArg _ heq))

/-! ## 2. Rounding to multiples

A number counted in steps is rounded to an integer, and that many steps are the multiple.  Dividing
by a positive step keeps the order and scales distances. -/

/-- The multiple of a step that a number is rounded to.  The step is the unit of the last decimal
in most uses. -/
def toMultiple (mode : RoundingMode) (step q : Rat) : Rat := mode.toInt (q / step) * step

variable {step : Rat} (hstep : 0 < step)
include hstep

/-- **Half up moves a number by half a step at most.** -/
theorem abs_toMultiple_sub_le (q : Rat) : |toMultiple .halfUp step q - q| ≤ 1 / 2 * step := by
  have hscaled : toMultiple .halfUp step q - q = (toInt .halfUp (q / step) - q / step) * step := by
    rw [sub_mul, div_mul_cancel₀ _ hstep.ne']
    rfl
  rw [hscaled, abs_mul, abs_of_pos hstep]
  exact mul_le_mul_of_nonneg_right (abs_toInt_halfUp_sub_le _) hstep.le

/-- **Floor moves a number down**, by less than a step. -/
theorem toMultiple_floor_bounds (q : Rat) :
    0 ≤ q - toMultiple .floor step q ∧ q - toMultiple .floor step q < step := by
  have hle := (le_div_iff₀ hstep).1 (Int.floor_le (q / step))
  have hlt := (div_lt_iff₀ hstep).1 (Int.lt_floor_add_one (q / step))
  rw [add_mul, one_mul] at hlt
  exact ⟨sub_nonneg.2 hle, sub_lt_iff_lt_add'.2 hlt⟩

/-- **Multiples stay where they are.** -/
theorem toMultiple_intCast_mul (mode : RoundingMode) (n : Int) :
    mode.toMultiple step (n * step) = n * step := by
  rw [toMultiple, mul_div_cancel_right₀ _ hstep.ne', toInt_intCast]

/-- **Rounding keeps the order.** -/
theorem toMultiple_mono (mode : RoundingMode) {p q : Rat} (h : p ≤ q) :
    mode.toMultiple step p ≤ mode.toMultiple step q := by
  refine mul_le_mul_of_nonneg_right ?_ hstep.le
  exact Int.cast_le.2 (mode.toInt_mono (div_le_div_of_nonneg_right h hstep.le))

omit hstep

/-! ## 3. Rounding to decimals

The specification goes by magnitude with the sign put back, and by natural numbers.  It is the same
rounding, seen from the side on which digits are counted. -/

/-- Half up goes by magnitude, with the sign put back. -/
theorem toInt_halfUp_eq (q : Rat) :
    (toInt .halfUp q : Rat) = Decimal.sign (q < 0) * ⌊|q| + 1 / 2⌋₊ := by
  have hnat : ((⌊|q| + 1 / 2⌋₊ : Nat) : Rat) = (⌊|q| + 1 / 2⌋ : Int) := by
    rw [natCast_floor_eq_intCast_floor (by positivity)]
  rw [hnat, toInt]
  split
  · next h => simp [abs_of_neg h, h]
  · next h => simp [abs_of_nonneg (not_lt.1 h), h]

/-- **Rounding to decimals** rounds to the multiples of the last decimal's unit. -/
theorem onRationals_eq_toMultiple (mode : RoundingMode) (decimals : Nat) (q : Rat) :
    mode.onRationals decimals q = mode.toMultiple (10 ^ (-(decimals : Int))) q := by
  have hpow : (0 : Rat) < 10 ^ decimals := by positivity
  rw [toMultiple, zpow_neg, zpow_natCast, div_inv_eq_mul, ← div_eq_mul_inv]
  cases mode with
  | floor => rfl
  | halfUp =>
    have hsign : decide (q * 10 ^ decimals < 0) = decide (q < 0) :=
      decide_eq_decide.2 (by simp [mul_neg_iff, hpow, hpow.not_gt])
    rw [toInt_halfUp_eq, hsign, abs_mul, abs_of_pos hpow, mul_div_assoc, onRationals]

end RoundingMode
end DecimalCalc
