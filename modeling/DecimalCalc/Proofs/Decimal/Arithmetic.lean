/-
# Sums, differences and products are exact

Each operation on canonical decimals denotes the rational operation: magnitudes are added and
subtracted as integers on the common scale, and a product by a power of ten only moves the point.

The proofs go through magnitudes, as the definitions do.  On the common scale a magnitude is an
integer, so a sum or a difference of runs is one of values once the scale is divided out.  The cases
by sign are then cases of an equation between rational numbers, in which the sign is a factor.  That
the larger magnitude comes first where digits are subtracted is known from the comparison that the
definition makes.

Products have two ways to go, and both are exact; as their results are canonical, they are the same.
The law is stated for the digits as well, so that it says of the shortcut that it changes nothing,
whatever the exponent and the signs.

* `value_addMagnitudes`, `value_subtractMagnitudes`, `value_differMagnitudes`: the two magnitudes on
  one scale;
* `value_add`, `value_sub`, `value_mul`: the operations;
* `mul_eq_mulDigits`: whichever way a product takes, it is the one found digit by digit.
-/
import DecimalCalc.Proofs.Decimal.Canonical
import DecimalCalc.Proofs.Digits.Arithmetic

namespace DecimalCalc
namespace Decimal

open Digits

/-! ## 1. Magnitudes

The helpers take the sign of their result from the caller and calculate with magnitudes.
Differences need the subtrahend to be no larger and its run to be no longer; the second follows from
the first in canonical form. -/

/-- The magnitudes add up, and the sign is the given one.  Nothing has to be canonical for it. -/
theorem value_addMagnitudes (negative : Bool) (x y : Decimal) :
    (addMagnitudes negative x y).value = sign negative * (|x.value| + |y.value|) := by
  have hx := abs_value_eq_aligned (le_max_left x.fraction.length y.fraction.length)
  have hy := abs_value_eq_aligned (le_max_right x.fraction.length y.fraction.length)
  simp only [addMagnitudes, commonScale]
  rw [value_ofDigits, toNat_add, hx, hy, Nat.cast_add, add_div]

/-- The digits of the smaller magnitude are no more than those of the larger one. -/
theorem length_alignedDigits_le {x y : Decimal} (hx : x.Canonical) (hy : y.Canonical) {scale : Nat}
    (hxle : x.fraction.length ≤ scale) (hyle : y.fraction.length ≤ scale)
    (h : (y.alignedDigits scale).toNat ≤ (x.alignedDigits scale).toNat) :
    (y.alignedDigits scale).length ≤ (x.alignedDigits scale).length := by
  rw [alignedDigits, alignedDigits, List.length_append, List.length_append,
    length_rightpad_of_le hxle, length_rightpad_of_le hyle]
  by_contra hlt
  have hinteger := hx.toNat_integer_lt hy (by omega)
  rw [alignedDigits_eq hxle, alignedDigits_eq hyle] at h
  exact absurd h (Nat.not_le.2 (place_lt hinteger (hx.toNat_rightpad_lt hxle)))

/-- The magnitude of the difference, the smaller magnitude being the second one. -/
theorem value_subtractMagnitudes {x y : Decimal} (hx : x.Canonical) (hy : y.Canonical)
    (negative : Bool) (h : |y.value| ≤ |x.value|) :
    (subtractMagnitudes negative x y).value = sign negative * (|x.value| - |y.value|) := by
  have hxle : x.fraction.length ≤ commonScale x y := le_max_left _ _
  have hyle : y.fraction.length ≤ commonScale x y := le_max_right _ _
  have hle : (y.alignedDigits (commonScale x y)).toNat ≤
      (x.alignedDigits (commonScale x y)).toNat := by
    rw [← not_lt, ← abs_value_lt_iff hxle hyle]
    exact not_lt.2 h
  have hsub := toNat_subtract (alignedDigits_valid hx _) (alignedDigits_valid hy _)
    (length_alignedDigits_le hx hy hxle hyle hle) hle
  have hcast : ((Digits.subtract (x.alignedDigits (commonScale x y))
      (y.alignedDigits (commonScale x y))).toNat : Rat) =
        (x.alignedDigits (commonScale x y)).toNat - (y.alignedDigits (commonScale x y)).toNat := by
    rw [← hsub, Nat.cast_add, add_sub_cancel_right]
  simp only [subtractMagnitudes]
  rw [value_ofDigits, hcast, abs_value_eq_aligned hxle, abs_value_eq_aligned hyle, sub_div]

/-- The sign tells which magnitude is larger: the difference of the two is taken with its own sign
here, and the given one is put in front. -/
theorem value_differMagnitudes {x y : Decimal} (hx : x.Canonical) (hy : y.Canonical)
    (negative : Bool) :
    (differMagnitudes negative x y).value = sign negative * (|x.value| - |y.value|) := by
  unfold differMagnitudes
  split
  · next hcompare =>
    rw [compareMagnitude_eq_eq_iff hx hy] at hcompare
    rw [value_zero, hcompare, sub_self, mul_zero]
  · next hcompare =>
    rw [compareMagnitude_eq_gt_iff hx hy] at hcompare
    exact value_subtractMagnitudes hx hy _ hcompare.le
  · next hcompare =>
    rw [compareMagnitude_eq_lt_iff hx hy] at hcompare
    rw [value_subtractMagnitudes hy hx _ hcompare.le, sign_not, neg_mul, ← mul_neg, neg_sub]

/-- Two signs that differ are opposite, so a sum of such operands is a difference of magnitudes. -/
theorem sign_eq_neg {a b : Bool} (h : a ≠ b) : sign b = -sign a := by
  rw [← sign_not, (Bool.not_eq.2 h : (!a) = b)]

/-! ## 2. The operations

Zero operands are answered without looking at digits, and the other cases are those of the signs.
Each case is one of the equations of the first section. -/

/-- **The sum is exact.**  The proof has one case for each branch of the definition. -/
theorem value_add {x y : Decimal} (hx : x.Canonical) (hy : y.Canonical) :
    (x + y).value = x.value + y.value := by
  show (add x y).value = _
  have hxs := value_eq_sign_mul_abs x
  have hys := value_eq_sign_mul_abs y
  unfold add
  split
  · next h => rw [isZero_iff.1 h, zero_add]
  split
  · next h => rw [isZero_iff.1 h, add_zero]
  split
  · next h => rw [value_addMagnitudes, mul_add, ← hxs, h, ← hys]
  · next h =>
    rw [sign_eq_neg h] at hys
    rw [value_differMagnitudes hx hy, mul_sub, ← hxs, sub_eq_add_neg, ← neg_mul, ← hys]

/-- **The difference is exact.**  A zero minuend gives the opposite of the subtrahend. -/
theorem value_sub {x y : Decimal} (hx : x.Canonical) (hy : y.Canonical) :
    (x - y).value = x.value - y.value := by
  show (sub x y).value = _
  have hxs := value_eq_sign_mul_abs x
  have hys := value_eq_sign_mul_abs y
  unfold sub
  split
  · next h => rw [isZero_iff.1 h, sub_zero]
  split
  · next h => rw [isZero_iff.1 h, zero_sub, ← value_neg]; rfl
  split
  · next h => rw [value_differMagnitudes hx hy, mul_sub, ← hxs, h, ← hys]
  · next h =>
    rw [sign_eq_neg h, neg_mul] at hys
    rw [value_addMagnitudes, mul_add, ← hxs, ← neg_eq_iff_eq_neg.2 hys, sub_eq_add_neg]

/-- The product that is calculated digit by digit, before any shortcut is looked for. -/
theorem value_mulDigits {x y : Decimal} (hx : x.Canonical) (hy : y.Canonical) (negative : Bool) :
    (mulDigits negative x y).value = sign negative * (|x.value| * |y.value|) := by
  rw [mulDigits, value_ofDigits, toNat_multiply hx.digits_valid hy.digits_valid, abs_value,
    abs_value, pow_add]
  push_cast
  field_simp

/-- The magnitude of the product, with the sign that the two signs make. -/
theorem mul_eq_sign_mul_abs (x y : Decimal) :
    x.value * y.value = sign (x.negative != y.negative) * (|x.value| * |y.value|) := by
  conv => lhs; rw [value_eq_sign_mul_abs x, value_eq_sign_mul_abs y]
  rw [sign_bne]
  ring

/-- **The product is exact**, whichever way it was found: by a zero operand, by a power of ten on
either side, or by the digits. -/
theorem value_mul {x y : Decimal} (hx : x.Canonical) (hy : y.Canonical) :
    (x * y).value = x.value * y.value := by
  show (mul x y).value = _
  simp only [mul]
  split
  · next h =>
    rw [Bool.or_eq_true, isZero_iff, isZero_iff] at h
    rw [value_zero, eq_comm, mul_eq_zero]
    exact h
  rw [mul_eq_sign_mul_abs]
  split
  · next k hk =>
    rw [value_withSign, value_shift, abs_mul, abs_value_of_powerOfTen? hk,
      abs_of_pos (by positivity : (0 : Rat) < 10 ^ k)]
  · next k _ hk =>
    rw [value_withSign, value_shift, abs_mul, abs_value_of_powerOfTen? hk,
      abs_of_pos (by positivity : (0 : Rat) < 10 ^ k), mul_comm |y.value|]
  · exact value_mulDigits hx hy _

/-! ## 3. The ways to a product

All ways lead to canonical decimals of one value, and so to one decimal.  The second factor is asked
first whether it is a power of ten, and this makes no difference either. -/

theorem mulDigits_canonical (negative : Bool) (x y : Decimal) :
    (mulDigits negative x y).Canonical :=
  ofDigits_canonical (multiply_valid _ _) _ _

theorem mulDigits_comm {x y : Decimal} (hx : x.Canonical) (hy : y.Canonical) (negative : Bool) :
    mulDigits negative x y = mulDigits negative y x := by
  refine (mulDigits_canonical _ _ _).ext_value (mulDigits_canonical _ _ _) ?_
  rw [value_mulDigits hx hy, value_mulDigits hy hx, mul_comm |x.value|]

/-- **To move the point is to multiply digit by digit** with a power of ten. -/
theorem withSign_shift_eq_mulDigits {x y : Decimal} (hx : x.Canonical) (hy : y.Canonical) {k : Int}
    (hk : |y.value| = 10 ^ k) (negative : Bool) :
    (x.shift k).withSign negative = mulDigits negative x y := by
  refine (withSign_canonical (shift_canonical hx _) _).ext_value (mulDigits_canonical _ _ _) ?_
  rw [value_withSign, value_shift, abs_mul, abs_of_pos (by positivity : (0 : Rat) < 10 ^ k),
    value_mulDigits hx hy, hk]

/-- **Every way to a product leads to the same digits.** -/
theorem mul_eq_mulDigits {x y : Decimal} (hx : x.Canonical) (hy : y.Canonical) :
    x * y = mulDigits (x.negative != y.negative) x y := by
  refine (mul_canonical hx hy).ext_value (mulDigits_canonical _ _ _) ?_
  rw [value_mul hx hy, value_mulDigits hx hy, mul_eq_sign_mul_abs]

end Decimal
end DecimalCalc
