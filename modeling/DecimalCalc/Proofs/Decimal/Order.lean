/-
# The order of decimals is the order of numbers

Canonical decimals are compared by counting and comparing digits, and two negative ones the other
way round.  The outcome is always that of comparing the two values; so everything known of the order
of the rational numbers holds of it, and sorting by it sorts by value.

Decimals of opposite signs are told apart by the flag alone, which is right since a canonical zero
has none.  For two of the same sign the magnitudes decide, and of two negative numbers the one of
larger magnitude is smaller.  Only decimals that are equal compare as equal, so an ascending
arrangement of a list is the only one, and a sort may be called stable or not without its result
being any different.

* `compareMagnitude_eq_compare`, `compare_eq_compare`: what a comparison finds;
* `compare_eq_eq_iff`: only equal decimals compare as equal;
* `sort_pairwise`, `sort_unique`: a sorted list ascends, and there is no other way to order its
  values.
-/
import DecimalCalc.Proofs.Decimal.Canonical

namespace DecimalCalc
namespace Decimal

/-! ## 1. Comparing is comparing values

The four cases of the signs are settled by what the sign says about the value.  The magnitudes are
compared as in the canonical form on a common scale. -/

/-- Comparing magnitudes is comparing the magnitudes of the values, in all three outcomes at
once. -/
theorem compareMagnitude_eq_compare {x y : Decimal} (hx : x.Canonical) (hy : y.Canonical) :
    compareMagnitude x y = Ord.compare |x.value| |y.value| := by
  rw [eq_comm, compare_iff]
  cases hcompare : compareMagnitude x y with
  | lt => exact (compareMagnitude_eq_lt_iff hx hy).1 hcompare
  | eq => exact (compareMagnitude_eq_eq_iff hx hy).1 hcompare
  | gt => exact (compareMagnitude_eq_gt_iff hx hy).1 hcompare

/-- A canonical decimal without a minus sign is its own magnitude. -/
theorem Canonical.abs_value_of_not_negative {x : Decimal} (hx : x.Canonical)
    (h : x.negative = false) : |x.value| = x.value := by
  refine abs_of_nonneg (not_lt.1 fun hlt => ?_)
  rw [hx.negative_iff.2 hlt] at h
  cases h

theorem Canonical.abs_value_of_negative {x : Decimal} (hx : x.Canonical) (h : x.negative = true) :
    |x.value| = -x.value :=
  abs_of_neg (hx.negative_iff.1 h)

/-- **Canonical decimals are compared by value.**  Everything else about the order follows from
this equation. -/
theorem compare_eq_compare {x y : Decimal} (hx : x.Canonical) (hy : y.Canonical) :
    Decimal.compare x y = Ord.compare x.value y.value := by
  unfold Decimal.compare
  cases hnx : x.negative <;> cases hny : y.negative
  · rw [compareMagnitude_eq_compare hx hy, hx.abs_value_of_not_negative hnx,
      hy.abs_value_of_not_negative hny]
  · -- only the second value is below zero
    have hnonneg := abs_nonneg x.value
    rw [hx.abs_value_of_not_negative hnx] at hnonneg
    exact (compare_gt_iff_gt.2 ((hy.negative_iff.1 hny).trans_le hnonneg)).symm
  · have hnonneg := abs_nonneg y.value
    rw [hy.abs_value_of_not_negative hny] at hnonneg
    exact (compare_lt_iff_lt.2 ((hx.negative_iff.1 hnx).trans_le hnonneg)).symm
  · -- the negative numbers are ordered as their magnitudes, the other way round
    rw [compareMagnitude_eq_compare hy hx, hx.abs_value_of_negative hnx,
      hy.abs_value_of_negative hny, eq_comm, compare_iff]
    cases hcompare : Ord.compare (-y.value) (-x.value) with
    | lt => exact neg_lt_neg_iff.1 (compare_lt_iff_lt.1 hcompare)
    | eq => exact (neg_inj.1 (compare_eq_iff_eq.1 hcompare)).symm
    | gt => exact neg_lt_neg_iff.1 (compare_gt_iff_gt.1 hcompare)

/-- Canonical decimals compare as equal exactly when they have one value. -/
theorem compare_eq_eq_iff {x y : Decimal} (hx : x.Canonical) (hy : y.Canonical) :
    Decimal.compare x y = .eq ↔ x.value = y.value := by
  rw [compare_eq_compare hx hy, compare_eq_iff_eq]

theorem isLE_compare_iff {x y : Decimal} (hx : x.Canonical) (hy : y.Canonical) :
    (Decimal.compare x y).isLE = true ↔ x.value ≤ y.value := by
  rw [compare_eq_compare hx hy]
  exact Ordering.isLE_iff_ne_gt.trans compare_le_iff_le

/-! ## 2. Sorting

Merge sort sorts by any relation that is total and transitive.  The order of the values is both, so
what is to be shown is only that the program's test is that order. -/

/-- **A sorted list ascends**, whatever its order was before and however often a value occurs. -/
theorem sort_pairwise {xs : List Decimal} (h : ∀ x ∈ xs, x.Canonical) :
    (sort xs).Pairwise fun x y => x.value ≤ y.value := by
  -- by value it is the list of the values, sorted
  have hvalues : (sort xs).map value = (xs.map value).mergeSort fun p q => decide (p ≤ q) := by
    refine List.map_mergeSort fun x hx y hy => ?_
    rw [Bool.eq_iff_iff, isLE_compare_iff (h x hx) (h y hy), decide_eq_true_eq]
  have hsorted : ((sort xs).map value).Pairwise fun p q => decide (p ≤ q) = true := by
    rw [hvalues]
    refine List.pairwise_mergeSort (fun p q r hpq hqr => ?_) (fun p q => ?_) _
    · rw [decide_eq_true_eq] at hpq hqr ⊢
      exact hpq.trans hqr
    · rw [Bool.or_eq_true, decide_eq_true_eq, decide_eq_true_eq]
      exact le_total p q
  exact (List.pairwise_map.1 hsorted).imp of_decide_eq_true

/-- **No other order ascends.**  Two ascending arrangements of one list agree, since numbers that
are neither smaller nor larger are equal decimals. -/
theorem sort_unique {xs ys : List Decimal} (h : ∀ x ∈ xs, x.Canonical) (hperm : ys.Perm xs)
    (hys : ys.Pairwise fun x y => x.value ≤ y.value) : ys = sort xs := by
  refine List.Perm.eq_of_pairwise (fun x y hx hy hle hge => ?_) hys (sort_pairwise h)
    (hperm.trans (sort_perm xs).symm)
  exact (h x (hperm.mem_iff.1 hx)).ext_value (h y ((sort_perm xs).mem_iff.1 hy))
    (le_antisymm hle hge)

end Decimal
end DecimalCalc
