/-
# Exact arithmetic

Sums, differences and products of decimals have finitely many digits, so they are exact.  Nothing is
ever cut off here, and there is no limit to the number of digits.

Sums and differences are calculated on magnitudes.  The operands are lined up on the point, by
filling the shorter fraction with zeros, and are then two runs of digits with one scale.  Which of
the two algorithms on runs is used depends on the signs, and the larger magnitude comes first where
digits are subtracted, so that no borrow is left over.  Zero operands are answered at once.

A product has as many fraction digits as its operands have together, before zeros at the end are
dropped.  A factor that is a power of ten only moves the point of the other one; this is a shortcut,
and it is proved that it gives what the digits give.

* `add_canonical`, `sub_canonical`, `mul_canonical`, `sum_canonical`: the results are canonical.
-/
import DecimalCalc.Decimal.Order
import DecimalCalc.Digits.Product

namespace DecimalCalc
namespace Decimal

open Digits

/-! ## 1. Addition and subtraction

The cases by sign are shared between the two operations: what adds magnitudes for one subtracts them
for the other.  Each of the three helpers takes the sign of the result from its caller. -/

/-- The digits of a magnitude with `fractionLength` places behind the point, so that two numbers
with the same number of places differ in their runs alone. -/
def alignedDigits (x : Decimal) (fractionLength : Nat) : Digits :=
  x.integer ++ x.fraction.rightpad fractionLength 0

/-- The longer one of two fractions, which is the scale that both operands are brought to. -/
def commonScale (x y : Decimal) : Nat := max x.fraction.length y.fraction.length

/-- The sum of two magnitudes, with the given sign.  The scale is common to both, so only the runs
of digits are added. -/
def addMagnitudes (negative : Bool) (x y : Decimal) : Decimal :=
  let scale := commonScale x y
  ofDigits negative (Digits.add (x.alignedDigits scale) (y.alignedDigits scale)) scale

/-- The smaller magnitude taken from the larger one, with the given sign.  The order of the two
arguments is the caller's concern. -/
def subtractMagnitudes (negative : Bool) (larger smaller : Decimal) : Decimal :=
  let scale := commonScale larger smaller
  ofDigits negative (Digits.subtract (larger.alignedDigits scale) (smaller.alignedDigits scale))
    scale

/-- The difference of two magnitudes, with the given sign if the first one is larger and with the other
sign if it is smaller. -/
def differMagnitudes (negative : Bool) (x y : Decimal) : Decimal :=
  match compareMagnitude x y with
  | .eq => zero
  | .gt => subtractMagnitudes negative x y
  | .lt => subtractMagnitudes (!negative) y x

/-- The sum.  Operands of one sign add up; of two signs, the larger magnitude decides. -/
def add (x y : Decimal) : Decimal :=
  if x.isZero then y
  else if y.isZero then x
  else if x.negative = y.negative then addMagnitudes x.negative x y
  else differMagnitudes x.negative x y

/-- The difference.  Operands of two signs add up; of one sign, the larger magnitude decides. -/
def sub (x y : Decimal) : Decimal :=
  if y.isZero then x
  else if x.isZero then neg y
  else if x.negative = y.negative then differMagnitudes x.negative x y
  else addMagnitudes x.negative x y

instance : Add Decimal := ⟨add⟩
instance : Sub Decimal := ⟨sub⟩

/-- The sum of a list, from the left; zero for the empty one.  As sums are exact, the order does
not matter to the result. -/
def sum (xs : List Decimal) : Decimal := xs.foldl add zero

/-! ## 2. Multiplication

Digits are multiplied as whole runs, and the point is set afterwards.  Powers of ten are asked for
first, the second operand before the first one. -/

/-- The product by multiplying digit by digit.  This is what multiplication means; the shortcut is
measured against it. -/
def mulDigits (negative : Bool) (x y : Decimal) : Decimal :=
  ofDigits negative (Digits.multiply x.digits y.digits) (x.fraction.length + y.fraction.length)

/-- The product.  If an operand is a power of ten, the point of the other one moves, and no digit
is multiplied. -/
def mul (x y : Decimal) : Decimal :=
  if x.isZero || y.isZero then zero
  else
    let negative := x.negative != y.negative
    match y.powerOfTen?, x.powerOfTen? with
    | some k, _ => (x.shift k).withSign negative
    | none, some k => (y.shift k).withSign negative
    | none, none => mulDigits negative x y

instance : Mul Decimal := ⟨mul⟩

/-! ## 3. Results are canonical

Each operation ends in `ofDigits`, in a shift or in one of its operands, so it is canonical as soon
as the runs hold digits.  The lemmas follow the cases of the definitions. -/

theorem alignedDigits_valid {x : Decimal} (h : x.Canonical) (fractionLength : Nat) :
    (x.alignedDigits fractionLength).Valid := by
  intro d hd
  rcases List.mem_append.1 hd with hd | hd
  · exact h.integer_valid d hd
  · rcases List.mem_append.1 hd with hd | hd
    · exact h.fraction_valid d hd
    · rw [List.eq_of_mem_replicate hd]; decide

theorem addMagnitudes_canonical {x y : Decimal} (hx : x.Canonical) (hy : y.Canonical)
    (negative : Bool) : (addMagnitudes negative x y).Canonical :=
  ofDigits_canonical (add_valid (alignedDigits_valid hx _) (alignedDigits_valid hy _)) _ _

theorem subtractMagnitudes_canonical {x y : Decimal} (hx : x.Canonical) (hy : y.Canonical)
    (negative : Bool) : (subtractMagnitudes negative x y).Canonical :=
  ofDigits_canonical (subtract_valid (alignedDigits_valid hx _) (alignedDigits_valid hy _)) _ _

theorem differMagnitudes_canonical {x y : Decimal} (hx : x.Canonical) (hy : y.Canonical)
    (negative : Bool) : (differMagnitudes negative x y).Canonical := by
  unfold differMagnitudes
  split
  · exact zero_canonical
  · exact subtractMagnitudes_canonical hx hy _
  · exact subtractMagnitudes_canonical hy hx _

theorem add_canonical {x y : Decimal} (hx : x.Canonical) (hy : y.Canonical) :
    (x + y).Canonical := by
  show (add x y).Canonical
  unfold add
  split
  · exact hy
  split
  · exact hx
  split
  · exact addMagnitudes_canonical hx hy _
  · exact differMagnitudes_canonical hx hy _

theorem sub_canonical {x y : Decimal} (hx : x.Canonical) (hy : y.Canonical) :
    (x - y).Canonical := by
  show (sub x y).Canonical
  unfold sub
  split
  · exact hx
  split
  · exact neg_canonical hy
  split
  · exact differMagnitudes_canonical hx hy _
  · exact addMagnitudes_canonical hx hy _

theorem mul_canonical {x y : Decimal} (hx : x.Canonical) (hy : y.Canonical) :
    (x * y).Canonical := by
  show (mul x y).Canonical
  simp only [mul]
  split
  · exact zero_canonical
  split
  · exact withSign_canonical (shift_canonical hx _) _
  · exact withSign_canonical (shift_canonical hy _) _
  · exact ofDigits_canonical (multiply_valid _ _) _ _

theorem sum_canonical {xs : List Decimal} (h : ∀ x ∈ xs, x.Canonical) : (sum xs).Canonical := by
  have step : ∀ (xs : List Decimal) (x : Decimal), x.Canonical → (∀ y ∈ xs, y.Canonical) →
      (xs.foldl add x).Canonical := by
    intro xs
    induction xs with
    | nil => exact fun x hx _ => hx
    | cons y xs ih =>
      exact fun x hx hxs => ih _ (add_canonical hx (hxs y (by simp))) fun z hz => hxs z (by simp [hz])
  exact step xs zero zero_canonical h

end Decimal
end DecimalCalc
