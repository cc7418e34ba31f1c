/-
# One canonical form for each value

Two canonical decimals are compared on one scale: their fractions are filled up with zeros to one
length.  On that scale the comparison of magnitudes, which looks at lengths and places only, is the
comparison of two integers.  So equal values have equal digits, and a power of ten is told by its
digits.

This is where the canonical form pays.  Comparing the numbers of integer digits is right only
because neither integer part begins with a zero, and a value determines the digits only because no
fraction ends in one.  `Canonical.ext_value` turns statements about values into statements about
decimals and, with that, about texts: whatever way a result was calculated, if it is canonical and
has the right value, it is the right one.  Almost every theorem on results further on ends with it.

* `abs_value_eq_aligned`: a magnitude read on a common scale;
* `compareMagnitude_eq`, `compareMagnitude_eq_eq_iff`: the order of magnitudes is that of the
  values;
* `Canonical.ext_value`: a canonical decimal is determined by its value;
* `powerOfTen?_eq_some_iff`: `powerOfTen?` finds exactly the powers of ten.
-/
import DecimalCalc.Decimal.Arithmetic
import DecimalCalc.Proofs.Decimal.Value

namespace DecimalCalc
namespace Decimal

open Digits

/-! ## 1. A common scale

Aligned digits are all digits of a decimal with zeros behind them, up to a number of places that is
the same for both operands.  As integers they are ordered as the magnitudes are, since the power of
ten under them is common. -/

/-- Zeros filled in behind the fraction multiply by ten each. -/
theorem toNat_alignedDigits (x : Decimal) (scale : Nat) :
    (x.alignedDigits scale).toNat = x.digits.toNat * 10 ^ (scale - x.fraction.length) := by
  rw [alignedDigits, List.rightpad, ← List.append_assoc, toNat_append_zeros, digits]

/-- The magnitude is the integer of all digits over the common scale, which may be any that the
fraction fits into. -/
theorem abs_value_eq_aligned {x : Decimal} {scale : Nat} (h : x.fraction.length ≤ scale) :
    |x.value| = ((x.alignedDigits scale).toNat : Rat) / 10 ^ scale := by
  obtain ⟨n, rfl⟩ := Nat.exists_eq_add_of_le h
  rw [abs_value, toNat_alignedDigits, Nat.add_sub_cancel_left, pow_add]
  push_cast
  field_simp

/-- On a common scale, magnitudes are equal exactly when the integers are. -/
theorem abs_value_eq_iff {x y : Decimal} {scale : Nat} (hx : x.fraction.length ≤ scale)
    (hy : y.fraction.length ≤ scale) :
    |x.value| = |y.value| ↔ (x.alignedDigits scale).toNat = (y.alignedDigits scale).toNat := by
  rw [abs_value_eq_aligned hx, abs_value_eq_aligned hy, div_left_inj' (by positivity), Nat.cast_inj]

theorem abs_value_lt_iff {x y : Decimal} {scale : Nat} (hx : x.fraction.length ≤ scale)
    (hy : y.fraction.length ≤ scale) :
    |x.value| < |y.value| ↔ (x.alignedDigits scale).toNat < (y.alignedDigits scale).toNat := by
  rw [abs_value_eq_aligned hx, abs_value_eq_aligned hy,
    div_lt_div_iff_of_pos_right (by positivity), Nat.cast_lt]

/-! ## 2. The order of magnitudes

The program compares three things one after the other: the lengths of the integer parts, the integer
parts, the padded fractions.  The first two together compare the integer parts as numbers, and the
third one decides between numbers whose integer parts agree. -/

/-- Of two integer parts in canonical form the longer one is larger: only a lone zero begins with
zero, and nothing is shorter than that. -/
theorem Canonical.toNat_integer_lt {x y : Decimal} (hx : x.Canonical) (hy : y.Canonical)
    (h : x.integer.length < y.integer.length) : x.integer.toNat < y.integer.toNat := by
  refine toNat_lt_of_length_lt hx.integer_valid (fun h0 => ?_) h
  rw [hy.no_leading_zero h0, List.length_singleton, Nat.lt_one_iff, List.length_eq_zero_iff] at h
  exact hx.integer_ne_nil h

/-- Lengths first and digits second compare the integer parts as numbers. -/
theorem compare_integer {x y : Decimal} (hx : x.Canonical) (hy : y.Canonical) :
    (Ord.compare x.integer.length y.integer.length).then (Ord.compare x.integer y.integer) =
      Ord.compare x.integer.toNat y.integer.toNat := by
  rcases Nat.lt_trichotomy x.integer.length y.integer.length with hlt | heq | hgt
  · rw [Nat.compare_eq_lt.2 hlt, Nat.compare_eq_lt.2 (hx.toNat_integer_lt hy hlt)]
    rfl
  · rw [Nat.compare_eq_eq.2 heq, compare_eq_of_length_eq hx.integer_valid hy.integer_valid heq]
    rfl
  · rw [Nat.compare_eq_gt.2 hgt, Nat.compare_eq_gt.2 (hy.toNat_integer_lt hx hgt)]
    rfl

theorem length_rightpad_of_le {ds : Digits} {n : Nat} (h : ds.length ≤ n) :
    (ds.rightpad n 0).length = n := by
  rw [List.rightpad, List.length_append, List.length_replicate]
  omega

theorem rightpad_valid {ds : Digits} (h : ds.Valid) (n : Nat) : Valid (ds.rightpad n 0) :=
  h.append (valid_replicate_zero _)

/-- The aligned digits as an integer: the integer part at the scale, and the padded fraction below
it. -/
theorem alignedDigits_eq {x : Decimal} {scale : Nat} (h : x.fraction.length ≤ scale) :
    (x.alignedDigits scale).toNat =
      x.integer.toNat * 10 ^ scale + toNat (x.fraction.rightpad scale 0) := by
  rw [alignedDigits, toNat_append, length_rightpad_of_le h]

/-- A padded canonical fraction stays below one unit in front of the point. -/
theorem Canonical.toNat_rightpad_lt {x : Decimal} (hx : x.Canonical) {scale : Nat}
    (h : x.fraction.length ≤ scale) : toNat (x.fraction.rightpad scale 0) < 10 ^ scale := by
  have := toNat_lt (rightpad_valid hx.fraction_valid scale)
  rwa [length_rightpad_of_le h] at this

/-- **The order of canonical magnitudes** is the order of the integers on the common scale.  The
two parts of these are compared place by place, the padded fractions being less than one unit. -/
theorem compareMagnitude_eq {x y : Decimal} (hx : x.Canonical) (hy : y.Canonical) :
    compareMagnitude x y = Ord.compare (x.alignedDigits (commonScale x y)).toNat
      (y.alignedDigits (commonScale x y)).toNat := by
  have hxle : x.fraction.length ≤ commonScale x y := le_max_left _ _
  have hyle : y.fraction.length ≤ commonScale x y := le_max_right _ _
  have hlen := (length_rightpad_of_le hxle).trans (length_rightpad_of_le hyle).symm
  rw [alignedDigits_eq hxle, alignedDigits_eq hyle,
    compare_place (hx.toNat_rightpad_lt hxle) (hy.toNat_rightpad_lt hyle), ← compare_integer hx hy,
    ← compare_eq_of_length_eq (rightpad_valid hx.fraction_valid _)
      (rightpad_valid hy.fraction_valid _) hlen]
  rfl

/-- The form that divisions use, where equal magnitudes divide to one. -/
theorem compareMagnitude_eq_eq_iff {x y : Decimal} (hx : x.Canonical) (hy : y.Canonical) :
    compareMagnitude x y = .eq ↔ |x.value| = |y.value| := by
  rw [compareMagnitude_eq hx hy, Nat.compare_eq_eq,
    abs_value_eq_iff (le_max_left _ _) (le_max_right _ _)]
  rfl

theorem compareMagnitude_eq_lt_iff {x y : Decimal} (hx : x.Canonical) (hy : y.Canonical) :
    compareMagnitude x y = .lt ↔ |x.value| < |y.value| := by
  rw [compareMagnitude_eq hx hy, Nat.compare_eq_lt,
    abs_value_lt_iff (le_max_left _ _) (le_max_right _ _)]
  rfl

theorem compareMagnitude_eq_gt_iff {x y : Decimal} (hx : x.Canonical) (hy : y.Canonical) :
    compareMagnitude x y = .gt ↔ |y.value| < |x.value| := by
  rw [compareMagnitude_eq hx hy, Nat.compare_eq_gt,
    abs_value_lt_iff (le_max_right _ _) (le_max_left _ _)]
  rfl

/-! ## 3. The value determines the canonical form

Equal values have equal magnitudes, so their aligned digits are one integer; runs of one length with
one value are one run, and cutting it at the point and trimming gives both decimals. -/

/-- A fraction without a zero at the end is found again behind any zeros, so aligning loses
nothing. -/
theorem trimTrailing_append_zeros {ds : Digits} (h : ds.getLast? ≠ some 0) (n : Nat) :
    trimTrailing (ds ++ List.replicate n 0) = ds := by
  have hzeros : ∀ n, (List.replicate n 0 ++ ds.reverse).dropWhile (· == 0) =
      ds.reverse.dropWhile (· == 0) := by
    intro n
    induction n with
    | zero => rfl
    | succ n ih => rw [List.replicate_succ, List.cons_append, List.dropWhile_cons_of_pos rfl, ih]
  have hlast : ds.reverse.dropWhile (· == 0) = ds.reverse := by
    rw [← List.head?_reverse] at h
    cases hds : ds.reverse with
    | nil => rfl
    | cons d rest =>
      rw [hds] at h
      exact List.dropWhile_cons_of_neg (by simpa using h)
  rw [trimTrailing, trimLeading, List.reverse_append, List.reverse_replicate, hzeros, hlast,
    List.reverse_reverse]

/-- **Canonical decimals of one value are one decimal.**  Sign, integer part and fraction are each
determined, in this order. -/
theorem Canonical.ext_value {x y : Decimal} (hx : x.Canonical) (hy : y.Canonical)
    (h : x.value = y.value) : x = y := by
  have hnegative : x.negative = y.negative := by
    rw [Bool.eq_iff_iff, hx.negative_iff, hy.negative_iff, h]
  have hcompare : compareMagnitude x y = .eq :=
    (compareMagnitude_eq_eq_iff hx hy).2 (congrArg (|·|) h)
  simp only [compareMagnitude, Ordering.then_eq_eq, Std.LawfulEqOrd.compare_eq_iff_eq] at hcompare
  obtain ⟨⟨-, hinteger⟩, hpadded⟩ := hcompare
  have hfraction : x.fraction = y.fraction := by
    have := congrArg trimTrailing hpadded
    rwa [List.rightpad, List.rightpad, trimTrailing_append_zeros hx.no_trailing_zero,
      trimTrailing_append_zeros hy.no_trailing_zero] at this
  cases x
  cases y
  simp_all

/-! ## 4. Powers of ten

For each exponent there is one canonical decimal with that magnitude, written down here for
exponents from zero up and for negative ones.  A canonical decimal with that magnitude is therefore
one of these, and those are the ones that the program recognises. -/

/-- A power of ten is one followed by zeros.  This is its canonical form. -/
def tenPow (n : Nat) : Decimal := ⟨false, 1 :: List.replicate n 0, []⟩

/-- A negative power of ten is zeros behind the point, followed by one. -/
def tenthPow (n : Nat) : Decimal := ⟨false, [0], List.replicate n 0 ++ [1]⟩

theorem tenPow_canonical (n : Nat) : (tenPow n).Canonical where
  integer_valid := by
    intro d hd
    rcases List.mem_cons.1 hd with rfl | hd
    · decide
    · exact valid_replicate_zero n d hd
  fraction_valid := by simp [tenPow, Valid]
  integer_ne_nil := by simp [tenPow]
  no_leading_zero := by simp [tenPow]
  no_trailing_zero := by simp [tenPow]
  zero_not_negative := fun _ => rfl

theorem tenthPow_canonical (n : Nat) : (tenthPow n).Canonical where
  integer_valid := by simp [tenthPow, Valid]
  fraction_valid := (valid_replicate_zero n).append (by decide)
  integer_ne_nil := by simp [tenthPow]
  no_leading_zero := by simp [tenthPow]
  no_trailing_zero := by simp [tenthPow]
  zero_not_negative := fun _ => rfl

theorem value_tenPow (n : Nat) : (tenPow n).value = 10 ^ (n : Int) := by
  rw [value_eq]
  simp [tenPow, digits, toNat_cons]

theorem value_tenthPow (n : Nat) : (tenthPow n).value = 10 ^ (-(n + 1 : Nat) : Int) := by
  rw [value_eq, zpow_neg, zpow_natCast]
  simp [tenthPow, digits, toNat_concat]

/-- What is recognised is a power of ten, in any form; that all powers are recognised needs the
canonical one. -/
theorem abs_value_of_powerOfTen? {x : Decimal} {k : Int} (h : x.powerOfTen? = some k) :
    |x.value| = 10 ^ k := by
  rw [abs_value, digits]
  unfold powerOfTen? at h
  split at h
  · next hfraction =>
    split at h
    · next zeros hinteger =>
      split at h
      · next hzeros =>
        obtain rfl := Option.some.inj h
        rw [hfraction, hinteger, List.append_nil, toNat_cons, allZero_iff.1 hzeros]
        simp
      · cases h
    · cases h
  · split at h
    · next hten =>
      obtain ⟨hinteger, hlast, hzeros⟩ := hten
      obtain rfl := Option.some.inj h
      obtain ⟨zeros, hconcat⟩ := List.getLast?_eq_some_iff.1 hlast
      rw [hconcat, List.dropLast_concat] at hzeros
      rw [hinteger, hconcat, ← List.append_assoc, toNat_concat, toNat_append, allZero_iff.1 hzeros,
        zpow_neg, zpow_natCast]
      simp [Digits.toNat]
    · cases h

/-- **Powers of ten are found by their digits.** -/
theorem powerOfTen?_eq_some_iff {x : Decimal} (hx : x.Canonical) {k : Int} :
    x.powerOfTen? = some k ↔ |x.value| = 10 ^ k := by
  refine ⟨abs_value_of_powerOfTen?, fun h => ?_⟩
  -- the magnitude has the value of a written power of ten, so it is that decimal
  have habs : x.powerOfTen? = x.abs.powerOfTen? := rfl
  rw [← value_abs] at h
  rw [habs]
  obtain ⟨n, rfl⟩ | ⟨n, rfl⟩ : (∃ n : Nat, k = n) ∨ ∃ n : Nat, k = -((n + 1 : Nat) : Int) := by
    rcases k with n | n
    · exact .inl ⟨n, rfl⟩
    · exact .inr ⟨n, rfl⟩
  · rw [← value_tenPow] at h
    rw [(abs_canonical hx).ext_value (tenPow_canonical n) h]
    simp [tenPow, powerOfTen?, Digits.allZero]
  · rw [← value_tenthPow] at h
    rw [(abs_canonical hx).ext_value (tenthPow_canonical n) h]
    simp [tenthPow, powerOfTen?, Digits.allZero]

/-- The magnitude is a power of ten.  Division asks this of the divisor before it looks at any
digits. -/
def IsPowerOfTen (q : Rat) : Prop := ∃ k : Int, |q| = 10 ^ k

theorem powerOfTen?_eq_none_iff {x : Decimal} (hx : x.Canonical) :
    x.powerOfTen? = none ↔ ¬ IsPowerOfTen x.value := by
  constructor
  · rintro h ⟨k, hk⟩
    rw [(powerOfTen?_eq_some_iff hx).2 hk] at h
    cases h
  · intro h
    rcases hx' : x.powerOfTen? with _ | k
    · rfl
    · exact absurd ⟨k, (powerOfTen?_eq_some_iff hx).1 hx'⟩ h

end Decimal
end DecimalCalc
