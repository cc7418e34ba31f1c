/-
# Capped division

The points of both operands move until the divisor is whole, so long division finds the integer
quotient at the scale it reached: the ratio of the magnitudes, cut off at the cap.  A power of ten
as divisor never reaches long division, and its quotient is exact instead.

Cutting off is a function on rational numbers, `cutOff`, and the quotient of long division is its
value at the ratio of the magnitudes.  If the division came out before the cap was reached, the
ratio has no digits past it and cutting off does nothing, so both ways in which long division can
end are covered by one equation.  The remainder is calculated from the quotient, and how large it
can be is how much cutting off takes away.

What a division promises is collected in `CappedQuotient`, a structure with a field for each promise
and without a word about how the quotient is found.  Further on, theorems about divisions are given
the contract and not the definition.

* `abs_value_divide`: by anything but a power of ten, the quotient is the ratio cut off at the cap;
* `value_divide_of_pow`: by a power of ten, it is the ratio;
* `divide_sign`: the quotient has the sign of the ratio;
* `abs_value_divide_bounds`, `remainder_eq_zero_iff`: what remains;
* `Canonical.scale_le_iff`: the fraction digits of a canonical decimal, told by its value;
* `exists_divided`: a division meets the contract `CappedQuotient`.
-/
import DecimalCalc.Decimal.Division
import DecimalCalc.Proofs.Decimal.Arithmetic
import DecimalCalc.Proofs.Digits.LongDivision
import Mathlib.Algebra.Order.Floor.Semifield
import Mathlib.Data.Rat.Floor
import Mathlib.Tactic.LinearCombination

namespace DecimalCalc
namespace Decimal

open Digits

/-! ## 1. Cutting a magnitude off

A magnitude is cut off by counting whole units of the last place that is kept.  It loses less than
one such unit, and nothing if it has no more digits. -/

/-- A magnitude without the digits past the first `cap` ones behind the point.  For magnitudes this
is rounding down, and so rounding toward zero once the sign is back. -/
def cutOff (cap : Nat) (q : Rat) : Rat := (⌊q * 10 ^ cap⌋₊ : Rat) / 10 ^ cap

theorem cutOff_nonneg (cap : Nat) (q : Rat) : 0 ≤ cutOff cap q :=
  div_nonneg (Nat.cast_nonneg _) (by positivity)

theorem cutOff_le (cap : Nat) {q : Rat} (h : 0 ≤ q) : cutOff cap q ≤ q := by
  rw [cutOff, div_le_iff₀ (by positivity)]
  exact Nat.floor_le (by positivity)

/-- Less than one unit of the last place is lost.  The bound is strict, which makes the bound on
remainders strict. -/
theorem lt_cutOff_add (cap : Nat) (q : Rat) : q < cutOff cap q + 1 / 10 ^ cap := by
  rw [cutOff, ← add_div, lt_div_iff₀ (by positivity)]
  exact Nat.lt_floor_add_one _

/-- A magnitude that has no more digits is not changed. -/
theorem cutOff_eq_self {cap : Nat} {q : Rat} {n : Nat} (h : q * 10 ^ cap = n) : cutOff cap q = q := by
  rw [cutOff, h, Nat.floor_natCast, ← h]
  exact mul_div_cancel_right₀ q (by positivity)

/-- An integer quotient at scale `k` is the ratio cut off at the cap, if the scale is the cap or
the division came out even before.  This is where the two ends of long division meet. -/
theorem div_eq_cutOff {cap k m n : Nat} (hn : 0 < n) (hk : k ≤ cap)
    (hexact : k < cap → n ∣ m * 10 ^ k) :
    ((m * 10 ^ k / n : Nat) : Rat) / 10 ^ k = cutOff cap ((m : Rat) / n) := by
  have hn' : (n : Rat) ≠ 0 := by positivity
  rcases Nat.eq_or_lt_of_le hk with rfl | hlt
  · have hscale : (m : Rat) / n * 10 ^ k = ((m * 10 ^ k : Nat) : Rat) / n := by
      push_cast
      ring
    rw [cutOff, hscale, Nat.floor_div_eq_div]
  · obtain ⟨c, hc⟩ := hexact hlt
    obtain ⟨j, rfl⟩ := Nat.exists_eq_add_of_le hk
    have hc' : (m : Rat) * 10 ^ k = n * c := by exact_mod_cast hc
    have hratio : (m : Rat) / n = c / 10 ^ k := by
      rw [div_eq_div_iff hn' (by positivity), hc', mul_comm]
    have hwhole : (m : Rat) / n * 10 ^ (k + j) = ((c * 10 ^ j : Nat) : Rat) := by
      rw [hratio, pow_add]
      push_cast
      field_simp
    rw [cutOff_eq_self hwhole, hc, Nat.mul_div_cancel_left _ hn, hratio]

/-! ## 2. The fraction digits of a canonical decimal

How many digits a canonical decimal has behind the point is a property of its value, since its
fraction does not end in zero.  Bounds on scales are therefore shown by multiplying values. -/

/-- **The scale** of a canonical decimal is the least number of places that make it whole. -/
theorem Canonical.scale_le_iff {x : Decimal} (hx : x.Canonical) {n : Nat} :
    x.scale ≤ n ↔ ∃ m : Int, x.value * 10 ^ n = m := by
  constructor
  · intro h
    obtain ⟨j, rfl⟩ := Nat.exists_eq_add_of_le h
    refine ⟨(if x.negative then -1 else 1) * (x.digits.toNat * 10 ^ j : Nat), ?_⟩
    rw [value_eq, scale, pow_add, sign]
    push_cast
    field_simp
  · rintro ⟨m, hm⟩
    by_contra hlt
    rw [scale] at hlt
    -- one place too few leaves the last digit behind the point
    obtain ⟨j, hj⟩ := Nat.exists_eq_add_of_lt (Nat.lt_of_not_le hlt)
    have hne : x.fraction ≠ [] := by
      intro h
      simp [h] at hlt
    obtain ⟨init, d, hconcat⟩ : ∃ init d, x.fraction = init ++ [d] :=
      ⟨_, _, (List.dropLast_concat_getLast hne).symm⟩
    have hd0 : d ≠ 0 := by
      have := hx.no_trailing_zero
      rwa [hconcat, List.getLast?_concat, ne_eq, Option.some.injEq] at this
    have hd : d < 10 := hx.fraction_valid d (by simp [hconcat])
    have habs : |x.value| * 10 ^ n = (m.natAbs : Rat) := by
      have := congrArg (|·|) hm
      simpa [abs_mul, abs_pow] using this
    rw [abs_value, hj, pow_add, pow_add, div_mul_eq_mul_div, div_eq_iff (by positivity)] at habs
    have hnat : x.digits.toNat = m.natAbs * (10 ^ j * 10) := by
      have h : (x.digits.toNat : Rat) = ((m.natAbs * (10 ^ j * 10) : Nat) : Rat) := by
        push_cast
        have hpos : (10 : Rat) ^ n ≠ 0 := by positivity
        apply mul_right_cancel₀ hpos
        rw [habs]
        ring
      exact_mod_cast h
    rw [digits, hconcat, ← List.append_assoc, toNat_concat] at hnat
    rw [← Nat.mul_assoc] at hnat
    omega

/-! ## 3. Long division

Moving both points leaves the ratio of the magnitudes as it is and makes the divisor an integer, in
the form that the digit algorithm asks of divisors.  Its quotient digits are then read as a number
at the scale that was reached. -/

/-- Moving the point behind the last digit leaves the digits of the magnitude, without the zeros in
front that a fraction may begin with. -/
theorem integer_shift_fraction {y : Decimal} (h : y.value ≠ 0) :
    (y.abs.shift y.fraction.length).integer = y.digits.trimLeading := by
  have hne : y.digits.trimLeading ≠ [] := by
    intro hnil
    have := toNat_trimLeading y.digits
    rw [hnil, toNat_nil] at this
    exact h (by rw [value_eq, ← this]; simp)
  have hdigits : y.abs.digits = y.digits := rfl
  have hpoint : (y.abs.integer.length + y.fraction.length : Int) = y.digits.length := by
    rw [digits, List.length_append]
    rfl
  rw [shift, hpoint, hdigits]
  simp [placePoint, normalize, hne]

/-- Moved behind its last digit, a divisor other than zero has the form that long division needs. -/
theorem isDivisor_shift {y : Decimal} (hy : y.Canonical) (h : y.value ≠ 0) :
    IsDivisor (y.abs.shift y.fraction.length).integer := by
  rw [integer_shift_fraction h]
  refine ⟨hy.digits_valid.trimLeading, head?_trimLeading _, ?_⟩
  rw [toNat_trimLeading, Nat.pos_iff_ne_zero]
  intro h0
  exact h (by rw [value_eq, h0]; simp)

/-- The ratio of the magnitudes as a ratio of integers, once the divisor is whole. -/
theorem abs_div_eq {x y : Decimal} (h : y.value ≠ 0) :
    |x.value| / |y.value| = ((x.abs.shift y.fraction.length).digits.toNat : Rat) /
      ((10 ^ (x.abs.shift y.fraction.length).fraction.length *
        (y.abs.shift y.fraction.length).integer.toNat : Nat) : Rat) := by
  have hdividend := abs_value (x.abs.shift y.fraction.length)
  rw [value_shift, value_abs, zpow_natCast, abs_mul, abs_abs,
    abs_of_pos (by positivity : (0 : Rat) < 10 ^ y.fraction.length)] at hdividend
  have hdivisor : |y.value| * 10 ^ y.fraction.length =
      ((y.abs.shift y.fraction.length).integer.toNat : Rat) := by
    rw [integer_shift_fraction h, toNat_trimLeading, abs_value]
    field_simp
  push_cast
  rw [← div_div, ← hdividend, ← hdivisor]
  field_simp

/-- **The quotient of long division** is the ratio of the magnitudes, cut off at the cap.  The sign
is the caller's. -/
theorem value_divideDigits {cap : Nat} {x y : Decimal} (hx : x.Canonical) (hy : y.Canonical)
    (h : y.value ≠ 0) (negative : Bool) :
    (divideDigits cap negative x y).value =
      sign negative * cutOff cap (|x.value| / |y.value|) := by
  have hdividend : (x.abs.shift y.fraction.length).Canonical :=
    shift_canonical (abs_canonical hx) _
  have hdivisor := isDivisor_shift hy h
  obtain ⟨k, hk, hlength, -, hquotient, hexact⟩ :=
    LongDivision.quotient_divideFraction cap hdivisor hdividend.integer_valid
      hdividend.fraction_valid
  have hscale : (LongDivision.divideFraction (y.abs.shift y.fraction.length).integer cap
      (x.abs.shift y.fraction.length).fraction (LongDivision.divideWhole
        (y.abs.shift y.fraction.length).integer
        (x.abs.shift y.fraction.length).integer)).quotient.length -
      (LongDivision.divideWhole (y.abs.shift y.fraction.length).integer
        (x.abs.shift y.fraction.length).integer).quotient.length = k := by
    rw [hlength, LongDivision.length_divideWhole, Nat.add_sub_cancel_left]
  simp only [divideDigits]
  rw [value_ofDigits, hscale, hquotient, abs_div_eq h]
  congr 1
  exact div_eq_cutOff (Nat.mul_pos (Nat.pow_pos (by decide)) hdivisor.pos) hk hexact

/-! ## 4. The quotient

A division takes one of four ways, and only one of them depends on the cap.  What is known of the
quotient is proved way by way, from `divide_cases`, and put together by whether the divisor is a
power of ten. -/

/-- A division has a quotient unless the divisor is zero, whatever the cap. -/
theorem exists_divide {x y : Decimal} (h : y.value ≠ 0) (cap : Nat) :
    ∃ q, divide cap x y = .ok q := by
  cases hdivide : divide cap x y with
  | ok q => exact ⟨q, rfl⟩
  | error e => exact absurd (isZero_iff.1 (divide_eq_error_iff.1 hdivide).1) h

theorem divide_zero {x y : Decimal} (h : y.value = 0) (cap : Nat) :
    divide cap x y = .error .divisionByZero :=
  divide_eq_error_iff.2 ⟨isZero_iff.2 h, rfl⟩

theorem divideDigits_canonical {cap : Nat} {x y : Decimal} (hx : x.Canonical) (hy : y.Canonical)
    (h : y.value ≠ 0) (negative : Bool) : (divideDigits cap negative x y).Canonical := by
  have hdividend : (x.abs.shift y.fraction.length).Canonical :=
    shift_canonical (abs_canonical hx) _
  obtain ⟨k, -, -, hvalid, -⟩ := LongDivision.quotient_divideFraction cap (isDivisor_shift hy h)
    hdividend.integer_valid hdividend.fraction_valid
  exact ofDigits_canonical hvalid.reverse _ _

/-- **What a division can do.**  It returns zero for zero, moves the point for a power of ten,
returns one for equal magnitudes, and divides digit by digit otherwise.  Proofs about quotients
take the cases from here and do not open the definition. -/
theorem divide_cases {cap : Nat} {x y q : Decimal} (h : divide cap x y = .ok q) :
    y.value ≠ 0 ∧
      ((x.value = 0 ∧ q = zero) ∨
        (∃ k, y.powerOfTen? = some k ∧ q = (x.shift (-k)).withSign (x.negative != y.negative)) ∨
        (y.powerOfTen? = none ∧ compareMagnitude x y = .eq ∧
          q = one.withSign (x.negative != y.negative)) ∨
        (y.powerOfTen? = none ∧ q = divideDigits cap (x.negative != y.negative) x y)) := by
  unfold divide at h
  split at h
  · cases h
  next hy =>
  refine ⟨fun h0 => hy (isZero_iff.2 h0), ?_⟩
  split at h
  · next hx => exact .inl ⟨isZero_iff.1 hx, (Except.ok.inj h).symm⟩
  · simp only at h
    split at h
    · next k hk => exact .inr (.inl ⟨k, hk, (Except.ok.inj h).symm⟩)
    · next hk =>
      split at h
      · next heq => exact .inr (.inr (.inl ⟨hk, heq, (Except.ok.inj h).symm⟩))
      · exact .inr (.inr (.inr ⟨hk, (Except.ok.inj h).symm⟩))

theorem divide_canonical {cap : Nat} {x y q : Decimal} (hx : x.Canonical) (hy : y.Canonical)
    (h : divide cap x y = .ok q) : q.Canonical := by
  obtain ⟨hne, ⟨-, rfl⟩ | ⟨k, -, rfl⟩ | ⟨-, -, rfl⟩ | ⟨-, rfl⟩⟩ := divide_cases h
  · exact zero_canonical
  · exact withSign_canonical (shift_canonical hx _) _
  · exact withSign_canonical one_canonical _
  · exact divideDigits_canonical hx hy hne _

/-- **By a power of ten** the quotient is exact, whatever the cap.  It can have more fraction
digits than the cap allows. -/
theorem value_divide_of_pow {cap : Nat} {x y q : Decimal} (hy : y.Canonical)
    (h : divide cap x y = .ok q) {k : Int} (hk : |y.value| = 10 ^ k) :
    q.value = x.value / y.value := by
  have hratio : x.value / y.value =
      sign (x.negative != y.negative) * (|x.value| * 10 ^ (-k)) := by
    have hsign : sign y.negative * sign y.negative = 1 := by cases y.negative <;> simp
    have hpow : (10 : Rat) ^ k ≠ 0 := by positivity
    conv => lhs; rw [value_eq_sign_mul_abs x, value_eq_sign_mul_abs y, hk]
    rw [sign_bne, zpow_neg]
    have hne : sign y.negative ≠ 0 := left_ne_zero_of_mul_eq_one hsign
    field_simp
    rw [pow_two, hsign, mul_one]
  have hsome := (powerOfTen?_eq_some_iff hy).2 hk
  obtain ⟨hne, ⟨h0, rfl⟩ | ⟨j, hj, rfl⟩ | ⟨hnone, -⟩ | ⟨hnone, -⟩⟩ := divide_cases h
  · rw [value_zero, h0, zero_div]
  · rw [hsome] at hj
    obtain rfl := Option.some.inj hj
    rw [value_withSign, value_shift, abs_mul,
      abs_of_pos (by positivity : (0 : Rat) < 10 ^ (-k)), hratio]
  · rw [hsome] at hnone
    cases hnone
  · rw [hsome] at hnone
    cases hnone

/-- **By anything else** the magnitude of the quotient is the ratio cut off at the cap. -/
theorem abs_value_divide {cap : Nat} {x y q : Decimal} (hx : x.Canonical) (hy : y.Canonical)
    (h : divide cap x y = .ok q) (hk : ¬ IsPowerOfTen y.value) :
    |q.value| = cutOff cap (|x.value| / |y.value|) := by
  obtain ⟨hne, ⟨h0, rfl⟩ | ⟨j, hj, -⟩ | ⟨-, heq, rfl⟩ | ⟨-, rfl⟩⟩ := divide_cases h
  · simp [h0, cutOff]
  · exact absurd ⟨j, abs_value_of_powerOfTen? hj⟩ hk
  · rw [compareMagnitude_eq_eq_iff hx hy] at heq
    have hratio : |x.value| / |y.value| = 1 := by
      rw [heq]
      exact div_self (abs_ne_zero.2 hne)
    have hone : (1 : Rat) * 10 ^ cap = ((10 ^ cap : Nat) : Rat) := by simp
    rw [value_withSign, value_one, hratio, cutOff_eq_self hone, abs_mul, abs_sign]
    simp
  · rw [value_divideDigits hx hy hne, abs_mul, abs_sign, one_mul,
      abs_of_nonneg (cutOff_nonneg _ _)]

/-- The quotient has the sign of the ratio, as far as it has one; a quotient that was cut off may
be zero. -/
theorem divide_sign {cap : Nat} {x y q : Decimal} (hx : x.Canonical) (hy : y.Canonical)
    (h : divide cap x y = .ok q) : q.value = sign (x.negative != y.negative) * |q.value| := by
  have hsigned : ∀ (negative : Bool) {m : Rat}, 0 ≤ m →
      sign negative * m = sign negative * |sign negative * m| := by
    intro negative m hm
    rw [abs_mul, abs_sign, one_mul, abs_of_nonneg hm]
  obtain ⟨hne, ⟨-, rfl⟩ | ⟨k, -, rfl⟩ | ⟨-, -, rfl⟩ | ⟨-, rfl⟩⟩ := divide_cases h
  · simp
  · rw [value_withSign]
    exact hsigned _ (abs_nonneg _)
  · rw [value_withSign]
    exact hsigned _ (abs_nonneg _)
  · rw [value_divideDigits hx hy hne]
    exact hsigned _ (cutOff_nonneg _ _)

/-! ## 5. The remainder

The remainder is found by multiplying back, so its value is the difference of magnitudes by the
exactness of products and differences.  The bounds are those of cutting off, times the divisor. -/

/-- The value of the remainder, as it is calculated from the quotient. -/
theorem value_remainder {x y q : Decimal} (hx : x.Canonical) (hy : y.Canonical)
    (hq : q.Canonical) :
    (x.abs - q.abs * y.abs).value = |x.value| - |q.value| * |y.value| := by
  have hmul := mul_canonical (abs_canonical hq) (abs_canonical hy)
  rw [value_sub (abs_canonical hx) hmul, value_mul (abs_canonical hq) (abs_canonical hy),
    value_abs, value_abs, value_abs]

/-- The quotient never overshoots, and it stays short by less than one unit at the cap.  For the
exact ways the difference is zero. -/
theorem abs_value_divide_bounds {cap : Nat} {x y q : Decimal} (hx : x.Canonical)
    (hy : y.Canonical) (h : divide cap x y = .ok q) :
    |q.value| * |y.value| ≤ |x.value| ∧
      |x.value| - |q.value| * |y.value| < |y.value| / 10 ^ cap := by
  have hpos : 0 < |y.value| := abs_pos.2 (divide_cases h).1
  by_cases hk : IsPowerOfTen y.value
  · obtain ⟨k, hk⟩ := hk
    rw [value_divide_of_pow hy h hk, abs_div, div_mul_cancel₀ _ hpos.ne']
    exact ⟨le_rfl, by rw [sub_self]; positivity⟩
  · have hratio : |x.value| / |y.value| * |y.value| = |x.value| := div_mul_cancel₀ _ hpos.ne'
    rw [abs_value_divide hx hy h hk]
    have hle := cutOff_le cap (div_nonneg (abs_nonneg x.value) hpos.le)
    have hlt := lt_cutOff_add cap (|x.value| / |y.value|)
    refine ⟨?_, ?_⟩
    · calc cutOff cap (|x.value| / |y.value|) * |y.value|
          ≤ |x.value| / |y.value| * |y.value| := mul_le_mul_of_nonneg_right hle hpos.le
        _ = |x.value| := hratio
    · have := mul_lt_mul_of_pos_right hlt hpos
      rw [hratio, add_mul, div_mul_eq_mul_div, one_mul] at this
      linarith

/-- **Nothing remains exactly when the quotient is exact.** -/
theorem remainder_eq_zero_iff {cap : Nat} {x y q : Decimal} (hx : x.Canonical)
    (hy : y.Canonical) (h : divide cap x y = .ok q) :
    |x.value| - |q.value| * |y.value| = 0 ↔ q.value * y.value = x.value := by
  constructor
  · intro h0
    have hsign : sign y.negative * sign y.negative = 1 := by cases y.negative <;> simp
    rw [divide_sign hx hy h, sign_bne]
    conv => lhs; rw [value_eq_sign_mul_abs y]
    conv => rhs; rw [value_eq_sign_mul_abs x, sub_eq_zero.1 h0]
    linear_combination sign x.negative * |q.value| * |y.value| * hsign
  · intro heq
    rw [← heq, abs_mul, sub_self]

/-! ## 6. The contract

The contract holds of every division by anything but zero.  It determines the quotient's magnitude
and its sign, and with that everything there is to know about it. -/

/-- What dividing `p` by `q` has to find under a cap. -/
structure CappedQuotient (cap : Nat) (p q : Rat) (d : Divided) : Prop where
  quotient_canonical : d.quotient.Canonical
  remainder_canonical : d.remainder.Canonical
  /-- Quotient and remainder make up the dividend. -/
  abs_eq : |p| = |d.quotient.value| * |q| + d.remainder.value
  remainder_nonneg : 0 ≤ d.remainder.value
  remainder_lt : d.remainder.value < |q| / 10 ^ cap
  /-- The quotient is zero or has the sign of the ratio. -/
  sign : d.quotient.value = 0 ∨ 0 < d.quotient.value * (p / q)
  /-- A power of ten divides exactly, whatever the cap. -/
  of_isPowerOfTen : IsPowerOfTen q → d.quotient.value = p / q ∧ d.remainder.value = 0
  /-- Anything else is cut off at the cap. -/
  of_not_isPowerOfTen : ¬ IsPowerOfTen q →
    d.quotient.scale ≤ cap ∧ |d.quotient.value| = cutOff cap (|p| / |q|)

theorem divide_sign_pos {cap : Nat} {x y q : Decimal} (hx : x.Canonical) (hy : y.Canonical)
    (h : divide cap x y = .ok q) : q.value = 0 ∨ 0 < q.value * (x.value / y.value) := by
  rcases eq_or_ne q.value 0 with h0 | hne
  · exact .inl h0
  · right
    have hq : 0 < |q.value| := abs_pos.2 hne
    have hy0 : 0 < |y.value| := abs_pos.2 (divide_cases h).1
    have hx0 : 0 < |x.value| := (mul_pos hq hy0).trans_le (abs_value_divide_bounds hx hy h).1
    have hxsign : sign x.negative * sign x.negative = 1 := by cases x.negative <;> simp
    have hysign : sign y.negative ≠ 0 := by cases y.negative <;> simp
    have hratio : q.value * (x.value / y.value) = |q.value| * (|x.value| / |y.value|) := by
      conv =>
        lhs
        rw [divide_sign hx hy h, sign_bne, value_eq_sign_mul_abs x, value_eq_sign_mul_abs y]
      field_simp
      rw [pow_two, hxsign]
    rw [hratio]
    positivity

/-- By anything but a power of ten, the digits of the quotient end at the cap. -/
theorem scale_divide_le {cap : Nat} {x y q : Decimal} (hx : x.Canonical) (hy : y.Canonical)
    (h : divide cap x y = .ok q) (hk : ¬ IsPowerOfTen y.value) : q.scale ≤ cap := by
  rw [(divide_canonical hx hy h).scale_le_iff]
  refine ⟨(if x.negative != y.negative then -1 else 1) * (⌊|x.value| / |y.value| * 10 ^ cap⌋₊ : Nat),
    ?_⟩
  rw [divide_sign hx hy h, abs_value_divide hx hy h hk, cutOff, mul_assoc,
    div_mul_cancel₀ _ (by positivity), Decimal.sign]
  push_cast
  rfl

/-- A remainder is canonical, as the difference of canonical values. -/
theorem divideWithRemainder_canonical {cap : Nat} {x y : Decimal} {d : Divided} (hx : x.Canonical)
    (hy : y.Canonical) (h : Decimal.divideWithRemainder cap x y = .ok d) :
    d.quotient.Canonical ∧ d.remainder.Canonical := by
  unfold Decimal.divideWithRemainder at h
  cases hdivide : Decimal.divide cap x y with
  | error e =>
    rw [hdivide] at h
    cases h
  | ok q =>
    rw [hdivide] at h
    have hq := divide_canonical hx hy hdivide
    rw [← Except.ok.inj h]
    exact ⟨hq, sub_canonical (abs_canonical hx) (mul_canonical (abs_canonical hq) (abs_canonical hy))⟩

/-- **A division meets the contract** unless the divisor is zero.  Both entry points, with and
without the remainder, find the same quotient. -/
theorem exists_divided {x y : Decimal} (hx : x.Canonical) (hy : y.Canonical) (h : y.value ≠ 0)
    (cap : Nat) :
    ∃ d, divideWithRemainder cap x y = .ok d ∧ divide cap x y = .ok d.quotient ∧
      CappedQuotient cap x.value y.value d ∧
      (d.remainder.value = 0 ↔ d.quotient.value * y.value = x.value) := by
  obtain ⟨q, hq⟩ := exists_divide (x := x) h cap
  have hcanonical := divide_canonical hx hy hq
  have hvalue := value_remainder hx hy hcanonical
  obtain ⟨hle, hlt⟩ := abs_value_divide_bounds hx hy hq
  refine ⟨⟨q, x.abs - q.abs * y.abs⟩, by rw [divideWithRemainder, hq]; rfl, hq, ?_, ?_⟩
  · constructor
    · exact hcanonical
    · exact sub_canonical (abs_canonical hx) (mul_canonical (abs_canonical hcanonical)
        (abs_canonical hy))
    · rw [hvalue]
      ring
    · rw [hvalue]
      exact sub_nonneg.2 hle
    · rw [hvalue]
      exact hlt
    · exact divide_sign_pos hx hy hq
    · rintro ⟨k, hk⟩
      have hexact := value_divide_of_pow hy hq hk
      refine ⟨hexact, ?_⟩
      rw [hvalue, remainder_eq_zero_iff hx hy hq, hexact, div_mul_cancel₀ _ h]
    · intro hk
      exact ⟨scale_divide_le hx hy hq hk, abs_value_divide hx hy hq hk⟩
  · rw [hvalue]
    exact remainder_eq_zero_iff hx hy hq

/-- When the digits of the quotient end at the cap: always for divisors that are no power of ten,
and for powers of ten only if the exact quotient has so few digits. -/
theorem CappedQuotient.scale_le_iff {cap : Nat} {p q : Rat} {d : Divided}
    (h : CappedQuotient cap p q d) :
    d.quotient.scale ≤ cap ↔ ¬ IsPowerOfTen q ∨ ∃ m : Int, p / q * 10 ^ cap = m := by
  by_cases hk : IsPowerOfTen q
  · rw [h.quotient_canonical.scale_le_iff, (h.of_isPowerOfTen hk).1]
    simp [hk]
  · simp [hk, (h.of_not_isPowerOfTen hk).1]

end Decimal
end DecimalCalc
