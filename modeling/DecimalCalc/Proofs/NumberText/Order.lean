/-
# The order of number texts

Two texts are compared by reading both, so what is found is the order of the two numbers, however
they are spelled.  Texts that look alike may be far apart and texts that look different may be
equal; canonical texts are equal exactly if their numbers are.

On decimals the order is a linear one.  It is stated here as a user of the order needs it, by its
laws and not by the values: it turns round with its operands, it is transitive, and only equal
decimals are equal in it.  From the laws it follows that a list has exactly one ascending
arrangement.

* `compare_of_denotes`: the order that is found is the order of the numbers;
* `order_is_numeric`: so texts are ordered as numbers, decimals are ordered linearly, and sorting
  them gives the one ascending order.
-/
import DecimalCalc.Proofs.Decimal.Order
import DecimalCalc.Proofs.NumberText.Canonicalize

namespace DecimalCalc
namespace NumberText

/-- The order that is found is the order of the numbers, for any two spellings of them. -/
theorem compare_of_denotes {a b : String} {p q : Rat} (ha : Denotes a.toList p)
    (hb : Denotes b.toList q) : compare a b = .ok (Ord.compare p q) := by
  obtain ⟨x, hreada, hx, rfl⟩ := denotes_iff.1 ha
  obtain ⟨y, hreadb, hy, rfl⟩ := denotes_iff.1 hb
  rw [← Decimal.compare_eq_compare hx hy, compare, both, Decimal.ofString, hreada, Decimal.ofString,
    hreadb]
  rfl

/-- **Comparison is the order of the numbers.**  Number texts compare as the numbers do that they denote,
and as equal exactly when they have one canonical text.  The order of canonical decimals turns round
with its operands, is transitive, and takes no two of them for equal; so every list of them has one
ascending order, which sorting finds. -/
theorem order_is_numeric :
    (∀ (a b : String) (p q : Rat), Denotes a.toList p → Denotes b.toList q →
      (compare a b = .ok .lt ↔ p < q) ∧ (compare a b = .ok .eq ↔ p = q) ∧
        (compare a b = .ok .gt ↔ q < p) ∧
          (compare a b = .ok .eq ↔ canonicalize a = canonicalize b)) ∧
    (∀ x y z : Decimal, x.Canonical → y.Canonical → z.Canonical →
      Decimal.compare y x = (Decimal.compare x y).swap ∧
      (Decimal.compare x y = .eq ↔ x = y) ∧
      ((Decimal.compare x y).isLE ∨ (Decimal.compare y x).isLE) ∧
      ((Decimal.compare x y).isLE → (Decimal.compare y x).isLE → x = y) ∧
      ((Decimal.compare x y).isLE → (Decimal.compare y z).isLE → (Decimal.compare x z).isLE)) ∧
    ∀ xs : List Decimal, (∀ x ∈ xs, x.Canonical) →
      (Decimal.sort xs).Perm xs ∧ (Decimal.sort xs).Pairwise (fun x y => x.value ≤ y.value) ∧
        ∀ ys : List Decimal, ys.Perm xs → ys.Pairwise (fun x y => x.value ≤ y.value) →
          ys = Decimal.sort xs := by
  refine ⟨?_, ?_, ?_⟩
  · intro a b p q ha hb
    have hcompare (o : Ordering) : compare a b = .ok o ↔ Ord.compare p q = o := by
      rw [compare_of_denotes ha hb, Except.ok.injEq]
    rw [hcompare, hcompare, hcompare, compare_lt_iff_lt, compare_eq_iff_eq, compare_gt_iff_gt]
    exact ⟨Iff.rfl, Iff.rfl, Iff.rfl, (canonicalize_eq_iff ha hb).symm⟩
  · intro x y z hx hy hz
    have heq : x.value = y.value ↔ x = y := ⟨hx.ext_value hy, congrArg Decimal.value⟩
    rw [Decimal.isLE_compare_iff hx hy, Decimal.isLE_compare_iff hy hx,
      Decimal.isLE_compare_iff hy hz, Decimal.isLE_compare_iff hx hz, Decimal.compare_eq_eq_iff hx hy,
      Decimal.compare_eq_compare hx hy, Decimal.compare_eq_compare hy hx]
    exact ⟨Std.OrientedOrd.eq_swap, heq, le_total _ _, fun hle hge => heq.1 (le_antisymm hle hge),
      le_trans⟩
  · intro xs h
    exact ⟨Decimal.sort_perm xs, Decimal.sort_pairwise h, fun ys => Decimal.sort_unique h⟩

/-- Two spellings of one number, a number below zero, and three values brought into order. -/
theorem order_is_numeric_sample :
    (compare "-05e-1" "2" = .ok .lt ↔ (-1 / 2 : Rat) < 2) ∧
    (compare "-05e-1" "-.50" = .ok .eq ↔ canonicalize "-05e-1" = canonicalize "-.50") ∧
    (Decimal.sort [⟨false, [1, 0], []⟩, ⟨false, [9], [5]⟩, ⟨true, [1, 0], [0, 1]⟩]).Pairwise
      (fun x y => x.value ≤ y.value) := by
  have hhalf : Denotes "-05e-1".toList (-1 / 2) := denotes_of_ofString (by decide +kernel)
  have hbare : Denotes "-.50".toList (-1 / 2) := denotes_of_ofString (by decide +kernel)
  have htwo : Denotes "2".toList 2 := denotes_of_ofString (by decide +kernel)
  refine ⟨(order_is_numeric.1 _ _ _ _ hhalf htwo).1, (order_is_numeric.1 _ _ _ _ hhalf hbare).2.2.2,
    (order_is_numeric.2.2 _ ?_).2.1⟩
  intro x hx
  simp only [List.mem_cons, List.not_mem_nil, or_false] at hx
  rcases hx with rfl | rfl | rfl <;> constructor <;> decide

end NumberText
end DecimalCalc
