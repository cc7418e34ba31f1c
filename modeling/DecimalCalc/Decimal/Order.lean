/-
# The order of decimals

Magnitudes in canonical form are ordered by the number of integer digits, then by those digits, then
by the fractions filled up with zeros to one length.  Between numbers the signs come first, and two
negative ones are ordered the other way round.

No difference is formed and no value is calculated.  That this is the order of the values relies on
the canonical form: only there does a longer integer part mean a larger number.  Sorting goes by
this order and keeps equal numbers, which are equal records, in their places.

* `sort_perm`: sorting only rearranges;
* `compare_self`, `compareMagnitude_self`: every number is equal to itself, in any form.
-/
import DecimalCalc.Decimal.Basic

namespace DecimalCalc
namespace Decimal

/-- The order of two magnitudes in canonical form.  The signs are not looked at, so a number and
its opposite are equal here. -/
def compareMagnitude (x y : Decimal) : Ordering :=
  let length := max x.fraction.length y.fraction.length
  ((Ord.compare x.integer.length y.integer.length).then (Ord.compare x.integer y.integer)).then
    (Ord.compare (x.fraction.rightpad length 0) (y.fraction.rightpad length 0))

/-- The order of two decimals.  Zero has no sign in canonical form and so stands among the numbers
that are not negative. -/
protected def compare (x y : Decimal) : Ordering :=
  match x.negative, y.negative with
  | false, true => .gt
  | true, false => .lt
  | false, false => compareMagnitude x y
  | true, true => compareMagnitude y x

instance : Ord Decimal := ⟨Decimal.compare⟩

/-- Sorts into ascending order; equal values keep their places. -/
def sort (xs : List Decimal) : List Decimal := xs.mergeSort fun x y => (Decimal.compare x y).isLE

theorem sort_perm (xs : List Decimal) : (sort xs).Perm xs := List.mergeSort_perm _ _

@[simp] theorem compareMagnitude_self (x : Decimal) : compareMagnitude x x = .eq := by
  simp [compareMagnitude]

@[simp] theorem compare_self (x : Decimal) : Decimal.compare x x = .eq := by
  unfold Decimal.compare
  cases x.negative <;> simp

end Decimal
end DecimalCalc
