/-
# Where the point falls

To move the point is to multiply by a power of ten.  The digits stay the same run, and the point
falls in front of it, inside or behind it; the gap is filled with zeros, and what comes out is
normalised.  Whichever of the three it is, the result is the canonical decimal of the product, and
there is only one such decimal.  So moves add up, and a move by nothing changes nothing.

The definition that runs treats the three places in one, with fillings of which at most one is not
empty.  A machine makes the case distinction, with a word for the place of the point and with
lengths that are subtracted from each other.  Both are written down here: the three places as
equations, and the machine's way as a definition that has no result where a length would become
negative, an index would lie past the end, or the place would not fit its word.  That it always has
a result is what makes the first definition a faithful one.

* `placePoint_of_nonpos`, `placePoint_inside`, `placePoint_of_length_le`: the three places;
* `shift?_eq`, `ofDigits?_eq`: lengths and indices stay in range on the way;
* `shift_eq_iff`, `ofDigits_eq_iff`: the decimal that comes out, by its value;
* `shift_shift`, `shift_zero`: how moves add up;
* `point_moves_exactly`: all of it.
-/
import DecimalCalc.Proofs.Decimal.Canonical
import DecimalCalc.Proofs.Digits.Checked

namespace DecimalCalc
namespace Decimal

open Digits

/-! ## 1. The three places

In each case one filling is empty, or both are, and one half of the result can be empty.  Where two
cases meet, at an end of the run, their equations agree. -/

section Places

variable (negative : Bool) {ds : Digits} {point : Int}

/-- In front of the digits: zeros fill the fraction up. -/
theorem placePoint_of_nonpos (h : point ≤ 0) :
    placePoint negative ds point =
      normalize negative [] (List.replicate point.natAbs 0 ++ ds) := by
  have hfront : (-point).toNat = point.natAbs := by omega
  have hbehind : (point - ds.length).toNat = 0 := by omega
  have hpoint : point.toNat = 0 := by omega
  simp [placePoint, hfront, hbehind, hpoint]

/-- Among the digits, or at one of their ends: the run is cut in two. -/
theorem placePoint_inside (hpos : 0 ≤ point) (h : point ≤ ds.length) :
    placePoint negative ds point = normalize negative (ds.take point.toNat) (ds.drop point.toNat) := by
  have hfront : (-point).toNat = 0 := by omega
  have hbehind : (point - ds.length).toNat = 0 := by omega
  simp [placePoint, hfront, hbehind]

theorem placePoint_of_length_le (h : (ds.length : Int) ≤ point) :
    placePoint negative ds point =
      normalize negative (ds ++ List.replicate (point.toNat - ds.length) 0) [] := by
  have hfront : (-point).toNat = 0 := by omega
  have hbehind : (point - ds.length).toNat = point.toNat - ds.length := by omega
  have hlength : (ds ++ List.replicate (point.toNat - ds.length) 0).length ≤ point.toNat := by
    rw [List.length_append, List.length_replicate]
    omega
  simp only [placePoint, hfront, hbehind, List.replicate_zero, List.nil_append]
  rw [List.take_of_length_le hlength, List.drop_of_length_le hlength]

end Places

/-! ## 2. Lengths and indices

What is checked is what a machine relies on: that a difference of lengths is not negative, that a
run is cut no further than its end, and that the place of the point can be calculated at all.  The
last is the only condition that has to be assumed. -/

/-- A run cut at a place that must not be past its end, as slices of an array are. -/
def cut? (n : Nat) (ds : Digits) : Option (Digits × Digits) :=
  if n ≤ ds.length then some (ds.take n, ds.drop n) else none

/-- `shift`, place by place: the place of the point is found in a signed word of 64 bits, and no
length may go below zero and no index past the end.  The cases are asked in the order of the
machine. -/
def shift? (x : Decimal) (places : Int) : Option Decimal := do
  let point := x.integer.length + places
  if ¬ Fits64 point then none
  else if point ≤ 0 then
    some (normalize x.negative [] (List.replicate point.natAbs 0 ++ x.digits))
  else if x.digits.length ≤ point.toNat then
    let zeros ← minus? point.toNat x.digits.length
    some (normalize x.negative (x.digits ++ List.replicate zeros 0) [])
  else
    let (integer, fraction) ← cut? point.toNat x.digits
    some (normalize x.negative integer fraction)

/-- `ofDigits` with the zeros counted that a run shorter than the fraction needs: no length may go below zero
and no index past the end.  Only the cut itself stops at the front of the run. -/
def ofDigits? (negative : Bool) (ds : Digits) (fractionLength : Nat) : Option Decimal := do
  let place := ds.length - fractionLength
  let behind ← minus? ds.length place
  let zeros ← minus? fractionLength behind
  let (integer, fraction) ← cut? place ds
  some (normalize negative integer (List.replicate zeros 0 ++ fraction))

theorem cut?_eq {n : Nat} {ds : Digits} (h : n ≤ ds.length) : cut? n ds = some (ds.take n, ds.drop n) :=
  if_pos h

/-- **A move of the point stays in range** if its place does.  Each of the three cases satisfies
its own checks. -/
theorem shift?_eq {x : Decimal} {places : Int} (h : Fits64 (x.integer.length + places)) :
    x.shift? places = some (x.shift places) := by
  simp only [shift?, shift, if_neg (not_not.2 h)]
  generalize (x.integer.length + places : Int) = point
  split
  · next hfront => rw [placePoint_of_nonpos _ hfront]
  · next hpos =>
    split
    · next hbehind =>
      rw [minus?_eq hbehind, placePoint_of_length_le _ (by omega)]
      rfl
    · next hinside =>
      rw [cut?_eq (Nat.le_of_not_le hinside), placePoint_inside _ (by omega) (by omega)]
      rfl

/-- **The point is set from behind without leaving the run**, however short that is. -/
theorem ofDigits?_eq (negative : Bool) (ds : Digits) (fractionLength : Nat) :
    ofDigits? negative ds fractionLength = some (ofDigits negative ds fractionLength) := by
  have hplace : ds.length - fractionLength ≤ ds.length := Nat.sub_le _ _
  have hbehind : ds.length - (ds.length - fractionLength) ≤ fractionLength := by omega
  simp only [ofDigits?, minus?_eq hplace, minus?_eq hbehind, cut?_eq hplace, Option.bind_eq_bind,
    Option.bind_some, ofDigits]
  rcases Nat.lt_or_ge ds.length fractionLength with hshort | hlong
  · have hzeros : fractionLength - (ds.length - 0) = (ds.length - fractionLength : Int).natAbs := by omega
    rw [placePoint_of_nonpos _ (by omega), Nat.sub_eq_zero_of_le hshort.le, hzeros, List.take_zero,
      List.drop_zero]
  · have hzeros : fractionLength - (ds.length - (ds.length - fractionLength)) = 0 := by omega
    have hcut : (ds.length - fractionLength : Int).toNat = ds.length - fractionLength := by omega
    rw [placePoint_inside _ (by omega) (by omega), hzeros, hcut, List.replicate_zero, List.nil_append]

/-! ## 3. The decimal that comes out

A result that is canonical and has a certain value is the only one of its kind, so the two
operations are described by equivalences, and the laws of moves are laws of exponents. -/

variable {x : Decimal}

/-- **A move of the point multiplies by a power of ten.**  The right-hand side does not mention
digits. -/
theorem shift_eq_iff (hx : x.Canonical) {places : Int} {y : Decimal} :
    x.shift places = y ↔ y.Canonical ∧ y.value = x.value * 10 ^ places := by
  constructor
  · rintro rfl
    exact ⟨shift_canonical hx _, value_shift _ _⟩
  · rintro ⟨hy, hvalue⟩
    exact (shift_canonical hx _).ext_value hy ((value_shift _ _).trans hvalue.symm)

/-- **Digits behind the point divide by a power of ten.** -/
theorem ofDigits_eq_iff {ds : Digits} (h : ds.Valid) {negative : Bool} {fractionLength : Nat}
    {y : Decimal} :
    ofDigits negative ds fractionLength = y ↔
      y.Canonical ∧ y.value = sign negative * ((ds.toNat : Rat) / 10 ^ fractionLength) := by
  constructor
  · rintro rfl
    exact ⟨ofDigits_canonical h _ _, value_ofDigits _ _ _⟩
  · rintro ⟨hy, hvalue⟩
    exact (ofDigits_canonical h _ _).ext_value hy ((value_ofDigits _ _ _).trans hvalue.symm)

/-- The sign is kept unless the digits are those of zero. -/
theorem negative_ofDigits {ds : Digits} (h : ds.Valid) (negative : Bool) (fractionLength : Nat) :
    (ofDigits negative ds fractionLength).negative = (negative && ds.toNat != 0) := by
  have hscale : (0 : Rat) < 10 ^ fractionLength := by positivity
  rw [Bool.eq_iff_iff, (ofDigits_canonical h _ _).negative_iff, value_ofDigits]
  cases negative with
  | false =>
    have : (0 : Rat) ≤ (ds.toNat : Rat) / 10 ^ fractionLength := by positivity
    simpa using this
  | true => simp [hscale, Nat.pos_iff_ne_zero]

/-- **Moves add up**, also where the first one takes the point out of the digits and the second one
brings it back. -/
theorem shift_shift (hx : x.Canonical) (j k : Int) : (x.shift k).shift j = x.shift (j + k) := by
  refine (shift_eq_iff (shift_canonical hx k)).2 ⟨shift_canonical hx _, ?_⟩
  rw [value_shift, value_shift, add_comm, zpow_add₀ (by norm_num), mul_assoc]

/-- A move by nothing is none.  The decimal has to be canonical, since moving normalises. -/
theorem shift_zero (hx : x.Canonical) : x.shift 0 = x :=
  (shift_eq_iff hx).2 ⟨hx, by rw [zpow_zero, mul_one]⟩

/-- **The point moves exactly.**  Of a canonical decimal `x`, a move by `k` places makes the one canonical
decimal of `x * 10 ^ k`; moves add up, and a move by nothing is none; and as long as the place of the point
fits a signed word of 64 bits, no length and no index on the way leaves its range.  The exponent is found
exactly where the magnitude is a power of ten.  And any run of digits, with zeros at either end or shorter than
its fraction, makes the one canonical decimal of its integer over that power of ten, with the given sign unless
it is zero, without a length or an index that leaves its range. -/
theorem point_moves_exactly (hx : x.Canonical) :
    (∀ k y, x.shift k = y ↔ y.Canonical ∧ y.value = x.value * 10 ^ k) ∧
    (∀ j k, (x.shift k).shift j = x.shift (j + k)) ∧
    x.shift 0 = x ∧
    (∀ k, Fits64 (x.integer.length + k) → x.shift? k = some (x.shift k)) ∧
    (∀ k, x.powerOfTen? = some k ↔ |x.value| = 10 ^ k) ∧
    ∀ (negative : Bool) (ds : Digits) (f : Nat), ds.Valid →
      (∀ y, ofDigits negative ds f = y ↔
        y.Canonical ∧ y.value = sign negative * ((ds.toNat : Rat) / 10 ^ f)) ∧
      (ofDigits negative ds f).negative = (negative && ds.toNat != 0) ∧
      ofDigits? negative ds f = some (ofDigits negative ds f) := by
  refine ⟨fun k y => shift_eq_iff hx, shift_shift hx, shift_zero hx, fun k => shift?_eq,
    fun k => powerOfTen?_eq_some_iff hx, fun negative ds f h => ?_⟩
  exact ⟨fun y => ofDigits_eq_iff h, negative_ofDigits h negative f, ofDigits?_eq negative ds f⟩

/-- The point of 12.345 moves out in front of the digits, and behind them and back; -12.5 and 0.005 are made of
runs with zeros at both ends and shorter than the fraction. -/
theorem point_moves_exactly_past_both_ends :
    Canonical ⟨false, [1, 2], [3, 4, 5]⟩ ∧
    shift? ⟨false, [1, 2], [3, 4, 5]⟩ (-4) = some ⟨false, [0], [0, 0, 1, 2, 3, 4, 5]⟩ ∧
    shift (shift ⟨false, [1, 2], [3, 4, 5]⟩ 5) (-5) = ⟨false, [1, 2], [3, 4, 5]⟩ ∧
    ofDigits? true [0, 1, 2, 5, 0] 2 = some ⟨true, [1, 2], [5]⟩ ∧
    ofDigits? false [5] 3 = some ⟨false, [0], [0, 0, 5]⟩ := by
  have hx : Canonical ⟨false, [1, 2], [3, 4, 5]⟩ := by constructor <;> decide
  obtain ⟨-, hadd, hzero, hrange, -, hdigits⟩ := point_moves_exactly hx
  refine ⟨hx, ?_, ?_, ?_, ?_⟩
  · rw [hrange (-4) (by decide)]
    rfl
  · rw [hadd (-5) 5]
    exact hzero
  · rw [(hdigits true [0, 1, 2, 5, 0] 2 (by decide)).2.2]
    rfl
  · rw [(hdigits false [5] 3 (by decide)).2.2]
    rfl

end Decimal
end DecimalCalc
