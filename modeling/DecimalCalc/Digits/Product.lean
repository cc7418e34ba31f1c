/-
# Multiplying runs of digits

Every pair of digits is multiplied into the cell that its two places add up to, without carrying
anything, and one carry pass settles all cells at the end.  Two runs of `m` and `n` digits fill `m +
n` cells.  The first of these receives no product at all; it is there for the last carry, which
therefore never leaves the cells.

The cells are built with the least significant entry first, since that is where two rows of
different length line up, and are turned around at the end.  A cell holds as many products of two
digits as there are pairs of places that meet in it, so its number grows with the length of the
shorter run.  For runs of any length that a machine can hold, a word of 64 bits is wide enough for
it; this is proved where the cells are filled with checked additions.

What makes the multiplication right is visible before a single carry is settled: read as a run with
entries that are no digits yet, the cells denote the product already.  The carry pass keeps the
number that is denoted, and it leaves digits.

* `toNat_cells`: the cells, read as a run, denote the product already;
* `length_cells`, `length_multiply`: two runs of `m` and `n` digits fill `m + n` cells;
* `multiply_valid`: what is left after the carries are digits.
-/
import DecimalCalc.Digits.Carry

namespace DecimalCalc
namespace Digits

/-! ## 1. The cells

One row for each digit of the first run, and each row one place further on than the row before, as
on paper.  The rows are not written down one below the other but added up at once. -/

/-- Adds `d` times each digit of a row to the cells, both with the least significant entry first.
Cells that the row does not reach stay as they are. -/
def addRow (d : Nat) : List Nat → List Nat → List Nat
  | [], cells => cells
  | y :: ys, [] => d * y :: addRow d ys []
  | y :: ys, cell :: cells => (d * y + cell) :: addRow d ys cells

/-- All rows, the least significant entry first: each digit of the first run starts its row one
cell further on. -/
def addRows : List Nat → List Nat → List Nat
  | [], ys => List.replicate ys.length 0
  | x :: xs, ys => addRow x ys (0 :: addRows xs ys)

/-- The cells of a product, most significant first: each holds the sum of the digit products that
belong to its place.  Nothing has been carried yet. -/
def cells (x y : Digits) : List Nat := (addRows x.reverse y.reverse).reverse

theorem toNat_addRow (d : Nat) (ys cells : List Nat) :
    toNat (addRow d ys cells).reverse = d * toNat ys.reverse + toNat cells.reverse := by
  induction ys generalizing cells with
  | nil => simp [addRow]
  | cons y ys ih => cases cells with
    | nil =>
      simp only [addRow, List.reverse_cons, toNat_concat, ih, List.reverse_nil, toNat_nil,
        Nat.mul_add, Nat.add_zero]
      rw [Nat.mul_left_comm]
    | cons cell cells =>
      simp only [addRow, List.reverse_cons, toNat_concat, ih, Nat.mul_add]
      rw [Nat.mul_left_comm]
      omega

theorem toNat_addRows (xs ys : List Nat) :
    toNat (addRows xs ys).reverse = toNat xs.reverse * toNat ys.reverse := by
  induction xs with
  | nil => simp [addRows]
  | cons x xs ih =>
    simp only [addRows, toNat_addRow, List.reverse_cons, toNat_concat, ih, Nat.add_mul]
    rw [Nat.mul_assoc]
    omega

/-- **The cells denote the product.**  The rows are the digits of one factor times the other, each
counted ten times as often as the row before. -/
theorem toNat_cells (x y : Digits) : toNat (cells x y) = toNat x * toNat y := by
  simp [cells, toNat_addRows]

theorem length_addRow (d : Nat) (ys cells : List Nat) :
    (addRow d ys cells).length = max ys.length cells.length := by
  induction ys generalizing cells with
  | nil => simp [addRow]
  | cons y ys ih => cases cells with
    | nil => simp [addRow, ih]
    | cons cell cells => simp [addRow, ih]

theorem length_addRows (xs ys : List Nat) :
    (addRows xs ys).length = xs.length + ys.length := by
  induction xs with
  | nil => simp [addRows]
  | cons x xs ih => simp [addRows, length_addRow, ih]; omega

@[simp] theorem length_cells (x y : Digits) :
    (cells x y).length = List.length x + List.length y := by
  simp [cells, length_addRows]

/-! ## 2. The product

The carry pass turns the cells into digits.  There are as many as the factors have together, so a
product often has a zero in front, which is taken away when the number is brought into canonical
form. -/

/-- The product of two runs, in as many digits as they have together.  What the pass carries out of
the first cell is dropped: it is always zero. -/
def multiply (x y : Digits) : Digits := (carryPass (cells x y)).digits

theorem multiply_valid (x y : Digits) : (multiply x y).Valid := carryPass_valid _

@[simp] theorem length_multiply (x y : Digits) :
    (multiply x y).length = List.length x + List.length y := by
  simp [multiply]

end Digits
end DecimalCalc
