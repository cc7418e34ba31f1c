/-
# Rounding rounds the value

Which number a rounded number is, is said for rational numbers, by `RoundingMode.onRationals`: half
up takes the nearest multiple of the last decimal's unit, and from the middle the one away from
zero; floor takes the greatest multiple that is not larger.  On the digits, what is cut off is less
than one unit and more than nothing, and its first digit tells whether it is half a unit.

The program looks at one digit or at the sign, and this module shows that it need not look at more.
A magnitude, counted in units of the last decimal, is split into what is kept and what is dropped,
an integer and a fraction of one unit.  Half a unit is reached exactly if the first dropped digit is
five or more, whatever comes behind it.  And since a canonical fraction does not end in zero,
something is always dropped where there are digits to drop, so that rounding down a negative number
always takes a unit more.

* `abs_value_mul_pow`: a magnitude is what is kept of it and what is dropped;
* `half_le_dropped_iff`: the first dropped digit decides about half a unit;
* `value_round_of_lt`: what is kept, and one unit more if the digits say so;
* `value_round`: rounding a canonical decimal rounds its value.
-/
import DecimalCalc.Decimal.Rounding
import DecimalCalc.Proofs.Decimal.Division

namespace DecimalCalc

open Digits

/-- Rounding of rational numbers to multiples of `10⁻ᵈ`, for `d` decimals.  This is the
specification; it knows nothing of digits, and it is computable, so single cases can be looked
at. -/
def RoundingMode.onRationals (mode : RoundingMode) (decimals : Nat) (q : Rat) : Rat :=
  match mode with
  | .halfUp => Decimal.sign (q < 0) * ((⌊|q| * 10 ^ decimals + 1 / 2⌋₊ : Rat) / 10 ^ decimals)
  | .floor => (⌊q * 10 ^ decimals⌋ : Rat) / 10 ^ decimals

example : RoundingMode.halfUp.onRationals 1 (-1 / 4) = -3 / 10 := by decide +kernel

namespace Decimal

variable {x : Decimal} {decimals : Nat}

/-! ## 1. What is kept and what is dropped

Both parts are read off the digits.  The bounds on what is dropped are the two sides of the
canonical form: digits are below ten, and the last one is not zero. -/

/-- The digits up to the last decimal, as an integer: so many units of the last decimal are kept. -/
def kept (decimals : Nat) (x : Decimal) : Nat := toNat (x.integer ++ x.fraction.take decimals)

/-- The digits past the last decimal, as a part of its unit.  There may be none, and then it is
zero. -/
def dropped (decimals : Nat) (x : Decimal) : Rat :=
  (toNat (x.fraction.drop decimals) : Rat) / 10 ^ (x.fraction.drop decimals).length

/-- **A magnitude is what is kept and what is dropped**, counted in units of the last decimal. -/
theorem abs_value_mul_pow (h : decimals ≤ x.fraction.length) :
    |x.value| * 10 ^ decimals = x.kept decimals + x.dropped decimals := by
  have hdigits : x.digits = (x.integer ++ x.fraction.take decimals) ++ x.fraction.drop decimals := by
    rw [List.append_assoc, List.take_append_drop, digits]
  have hlength : x.fraction.length = decimals + (x.fraction.drop decimals).length := by
    rw [List.length_drop]
    omega
  rw [abs_value, hlength, hdigits, toNat_append, kept, dropped, pow_add]
  push_cast
  field_simp

theorem Canonical.dropped_valid (hx : x.Canonical) : Valid (x.fraction.drop decimals) :=
  fun d hd => hx.fraction_valid d (List.mem_of_mem_drop hd)

theorem Canonical.dropped_lt_one (hx : x.Canonical) : x.dropped decimals < 1 := by
  rw [dropped, div_lt_one (by positivity)]
  exact_mod_cast toNat_lt hx.dropped_valid

/-- A canonical fraction ends in a digit other than zero, so whatever is dropped is something. -/
theorem Canonical.dropped_pos (hx : x.Canonical) (h : decimals < x.fraction.length) :
    0 < x.dropped decimals := by
  have hne : toNat (x.fraction.drop decimals) ≠ 0 := by
    intro hzero
    have hlast : x.fraction.getLast? = (x.fraction.drop decimals).getLast? := by
      rw [List.getLast?_drop, if_neg (Nat.not_le.2 h)]
    have hdrop : x.fraction.drop decimals ≠ [] := by simpa using h
    rw [List.getLast?_eq_some_getLast hdrop] at hlast
    refine hx.no_trailing_zero (hlast.trans (congrArg some ?_))
    exact eq_of_beq (List.all_eq_true.1 (allZero_iff.2 hzero) _ (List.getLast_mem hdrop))
  rw [dropped]
  exact div_pos (Nat.cast_pos.2 (Nat.pos_of_ne_zero hne)) (by positivity)

/-- **The first dropped digit decides about half a unit.** -/
theorem Canonical.half_le_dropped_iff (hx : x.Canonical) (h : decimals < x.fraction.length) :
    1 / 2 ≤ x.dropped decimals ↔ 5 ≤ x.fraction[decimals] := by
  have hrest := toNat_lt (@Canonical.dropped_valid x (decimals + 1) hx)
  rw [dropped, div_le_div_iff₀ (by norm_num) (by positivity), List.drop_eq_getElem_cons h, toNat_cons,
    List.length_cons, pow_succ, one_mul]
  generalize x.fraction[decimals] = d
  generalize toNat (x.fraction.drop (decimals + 1)) = rest at hrest ⊢
  generalize (x.fraction.drop (decimals + 1)).length = n at hrest ⊢
  have hcast : ((10 ^ n * 10 : Rat) ≤ ((d * 10 ^ n + rest : Nat) : Rat) * 2) ↔
      10 ^ n * 10 ≤ (d * 10 ^ n + rest) * 2 := by
    exact_mod_cast Iff.rfl
  rw [hcast]
  constructor
  · -- with four at most, not even nines behind it make half a unit
    intro hhalf
    by_contra hd
    have := @place_lt d 5 (10 ^ n) rest 0 (by omega) hrest
    omega
  · intro hd
    have := Nat.mul_le_mul_right (10 ^ n) hd
    omega

/-! ## 2. The rounded number

Cutting off keeps the units that are kept, and rounding away adds one.  Both are counted as integers
here, and the sign is put in front at the end. -/

theorem value_truncate (decimals : Nat) (x : Decimal) :
    (truncate decimals x).value = sign x.negative * (x.kept decimals / 10 ^ decimals) :=
  value_ofDigits _ _ _

theorem value_unit (decimals : Nat) (negative : Bool) :
    (unit decimals negative).value = sign negative * (1 / 10 ^ decimals) := by
  rw [unit, value_withSign, value_shift, value_one, one_mul, zpow_neg, zpow_natCast,
    abs_of_nonneg (by positivity), one_div]

/-- The units that are counted in the rounded magnitude, for either mode: one more than is kept, if
the mode rounds away. -/
def roundedUnits (mode : RoundingMode) (decimals : Nat) (x : Decimal) : Nat :=
  if roundsAway mode decimals x then x.kept decimals + 1 else x.kept decimals

/-- **What is kept, and one unit more** if the dropped digits ask for it.  A number with no digits
to drop is not covered here, and stays as it is. -/
theorem value_round_of_lt (hx : x.Canonical) (mode : RoundingMode)
    (h : decimals < x.fraction.length) : (round mode decimals x).value =
      sign x.negative * (roundedUnits mode decimals x / 10 ^ decimals) := by
  rw [round, if_neg (Nat.not_le.2 h), roundedUnits]
  split
  · rw [value_add (truncate_canonical hx _) (unit_canonical _ _), value_truncate, value_unit]
    push_cast
    ring
  · exact value_truncate _ _

/-! ## 3. Rounding the value

On the other side stand the integer parts of rational numbers.  The two modes need one lemma each,
which says that the integer part found there is the number of units counted on the digits. -/

theorem natFloor_add_half (n : Nat) : ⌊(n : Rat) + 1 / 2⌋₊ = n := by
  rw [Nat.floor_eq_iff (by positivity)]
  constructor <;> linarith

theorem Canonical.sign_negative (hx : x.Canonical) : sign (x.value < 0) = sign x.negative := by
  rw [Bool.eq_iff_iff.2 (hx.negative_iff.trans decide_eq_true_iff.symm)]

/-- Half a unit is added before the fraction of a unit is dropped. -/
theorem Canonical.floor_add_half (hx : x.Canonical) (h : decimals < x.fraction.length) :
    ⌊|x.value| * 10 ^ decimals + 1 / 2⌋₊ = roundedUnits .halfUp decimals x := by
  have haway : roundsAway .halfUp decimals x = true ↔ 1 / 2 ≤ x.dropped decimals := by
    rw [hx.half_le_dropped_iff h, roundsAway, List.getElem?_eq_getElem h]
    exact decide_eq_true_iff
  have hpos := hx.dropped_pos h
  have hlt := @Canonical.dropped_lt_one x decimals hx
  rw [abs_value_mul_pow h.le, roundedUnits, Nat.floor_eq_iff (by positivity)]
  split
  · next hup =>
    have := haway.1 hup
    push_cast
    constructor <;> linarith
  · next hdown =>
    have := not_le.1 (mt haway.2 hdown)
    constructor <;> linarith

/-- Below zero, whatever is dropped takes the floor one unit further down. -/
theorem Canonical.floor_eq (hx : x.Canonical) (h : decimals < x.fraction.length) :
    (⌊x.value * 10 ^ decimals⌋ : Rat) = sign x.negative * roundedUnits .floor decimals x := by
  have hpos := hx.dropped_pos h
  have hlt := @Canonical.dropped_lt_one x decimals hx
  rw [value_eq_sign_mul_abs, mul_assoc, abs_value_mul_pow h.le, roundedUnits, roundsAway]
  cases x.negative with
  | false =>
    have hfloor : ⌊(x.kept decimals : Rat) + x.dropped decimals⌋ = (x.kept decimals : Int) := by
      rw [Int.floor_eq_iff]
      push_cast
      constructor <;> linarith
    simp [hfloor]
  | true =>
    have hfloor : ⌊-((x.kept decimals : Rat) + x.dropped decimals)⌋ = -((x.kept decimals : Int) + 1) := by
      rw [Int.floor_eq_iff]
      push_cast
      constructor <;> linarith
    simp only [sign_true, neg_one_mul, hfloor, if_true]
    push_cast
    ring

/-- **Rounding a canonical decimal rounds its value**, for both modes and any number of decimals.
If there is nothing to drop, the value is a multiple of the unit already. -/
theorem value_round (hx : x.Canonical) (mode : RoundingMode) (decimals : Nat) :
    (round mode decimals x).value = mode.onRationals decimals x.value := by
  have hpow : (10 : Rat) ^ decimals ≠ 0 := by positivity
  rcases Nat.lt_or_ge decimals x.fraction.length with h | h
  · rw [value_round_of_lt hx mode h]
    cases mode with
    | halfUp => rw [RoundingMode.onRationals, hx.sign_negative, hx.floor_add_half h]
    | floor => rw [RoundingMode.onRationals, hx.floor_eq h, mul_div_assoc]
  · -- nothing is dropped, and the value is a whole number of units
    obtain ⟨m, hm⟩ := hx.scale_le_iff.1 h
    rw [round_of_length_le h]
    cases mode with
    | halfUp =>
      have habs : |x.value| * 10 ^ decimals = (m.natAbs : Rat) := by
        rw [← abs_of_pos (show (0 : Rat) < 10 ^ decimals by positivity), ← abs_mul, hm,
          Nat.cast_natAbs, Int.cast_abs]
      rw [RoundingMode.onRationals, habs, natFloor_add_half, ← habs, mul_div_cancel_right₀ _ hpow,
        hx.sign_negative, ← value_eq_sign_mul_abs]
    | floor =>
      rw [RoundingMode.onRationals, hm, Int.floor_intCast, ← hm, mul_div_cancel_right₀ _ hpow]

end Decimal
end DecimalCalc
