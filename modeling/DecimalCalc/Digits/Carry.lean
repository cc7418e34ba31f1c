/-
# Adding and subtracting runs of digits

Addition writes the sums of the digits into cells, one for each place, and settles them in one pass
from the last cell to the first: a cell keeps the last digit of its total and hands the rest on to
its left neighbour.  The pass does not ask where the cells came from.  It settles the cells of a
product just as well, which may hold any number, and so it is stated for lists of numbers and not
for sums of two digits.

Subtraction borrows in the same direction.  It is meant for a minuend that is no smaller, since then
the last borrow has something to borrow from; the callers compare before they subtract, and what
would come out otherwise is never looked at.  Both operations line their operands up at the last
digits, with zeros in front of the shorter one.

This module says what form the results have: that they are runs of digits, and how much can be
carried or borrowed on the way.  Which numbers the results denote is a matter of `toNat` and is
proved apart, where multiples of ten may be calculated with.

* `carryPass_valid`: what a pass settles are digits, whatever the cells held;
* `add_valid`, `subtract_valid`: so are the results;
* `carry_zipWith_lt`, `borrow_le_one`: what is carried out of a sum is less than ten, and what is
  borrowed is at most one.
-/
import DecimalCalc.Digits.Basic

namespace DecimalCalc
namespace Digits

/-! ## 1. The carry pass

The pass is a right fold, since the last cell is settled first.  What it has settled so far is a run
of digits together with one number that is still to be added further left. -/

/-- The digits settled so far and what they carry into the next place on the left.  The carry is no
digit in general: in a product it can be as large as the cells are. -/
structure Carried where
  digits : Digits
  carry : Nat
deriving DecidableEq, Repr

/-- Settles one more cell on the left: it keeps the last digit of its total and carries the rest. -/
def settle (cell : Nat) (right : Carried) : Carried :=
  ⟨(cell + right.carry) % 10 :: right.digits, (cell + right.carry) / 10⟩

/-- Settles all cells, from the last to the first.  A cell may hold any number, and there are as
many digits in the end as there were cells. -/
def carryPass (cells : List Nat) : Carried := cells.foldr settle ⟨[], 0⟩

@[simp] theorem carryPass_nil : carryPass [] = ⟨[], 0⟩ := rfl

@[simp] theorem carryPass_cons (cell : Nat) (cells : List Nat) :
    carryPass (cell :: cells) = settle cell (carryPass cells) := rfl

@[simp] theorem length_carryPass (cells : List Nat) :
    (carryPass cells).digits.length = cells.length := by
  induction cells with
  | nil => rfl
  | cons cell cells ih => simp [settle, ih]

theorem carryPass_valid (cells : List Nat) : (carryPass cells).digits.Valid := by
  induction cells with
  | nil => simp [Valid]
  | cons cell cells ih =>
    intro d hd
    rcases List.mem_cons.1 hd with rfl | hd
    · exact Nat.mod_lt _ (by decide)
    · exact ih d hd

/-! ## 2. Addition

The carry that is left over in front of a sum is a digit of its own, or nothing.  It is put in front
only if it is not zero, so a sum is at most one digit longer than its operands. -/

/-- The sum of two runs, lined up at their last digits.  The shorter one is filled up with zeros in
front. -/
def add (x y : Digits) : Digits :=
  let length := max x.length y.length
  let sums := carryPass (List.zipWith (· + ·) (x.leftpad length 0) (y.leftpad length 0))
  if sums.carry = 0 then sums.digits else sums.carry :: sums.digits

theorem Valid.leftpad {ds : Digits} (h : ds.Valid) (n : Nat) : Valid (ds.leftpad n 0) := by
  intro d hd
  rcases List.mem_append.1 hd with hd | hd
  · rw [List.eq_of_mem_replicate hd]; decide
  · exact h d hd

theorem length_leftpad (n : Nat) (ds : Digits) : (ds.leftpad n 0).length = max n ds.length := by
  simp [List.leftpad]; omega

theorem carry_zipWith_lt {x y : Digits} (hx : x.Valid) (hy : y.Valid) :
    (carryPass (List.zipWith (· + ·) x y)).carry < 10 := by
  induction x generalizing y with
  | nil => simp
  | cons a x ih => cases y with
    | nil => simp
    | cons b y =>
      have hy' : Valid y := fun d hd => hy d (by simp [hd])
      have := ih (fun d hd => hx d (by simp [hd])) hy'
      have ha := hx a (by simp)
      have hb := hy b (by simp)
      simp only [List.zipWith_cons_cons, carryPass_cons, settle]
      omega

theorem add_valid {x y : Digits} (hx : x.Valid) (hy : y.Valid) : (add x y).Valid := by
  simp only [add]
  split
  · exact carryPass_valid _
  · intro d hd
    rcases List.mem_cons.1 hd with rfl | hd
    · exact carry_zipWith_lt (hx.leftpad _) (hy.leftpad _)
    · exact carryPass_valid _ d hd

/-! ## 3. Subtraction

Where a digit is too small, ten is borrowed from the place on its left, which then has one more to
give.  The pass is the mirror image of the carry pass, with a flag in the place of a number. -/

/-- The digits found so far and whether they borrowed one from the next place on the left.  A
borrow is zero or one. -/
structure Borrowed where
  digits : Digits
  borrow : Nat
deriving DecidableEq, Repr

/-- Subtracts one more place on the left, borrowing ten when its digit is too small. -/
def takeAway (place : Nat × Nat) (right : Borrowed) : Borrowed :=
  let subtrahend := place.2 + right.borrow
  if place.1 < subtrahend then ⟨(place.1 + 10 - subtrahend) :: right.digits, 1⟩
  else ⟨(place.1 - subtrahend) :: right.digits, 0⟩

/-- Subtracts place by place, from the last to the first. -/
def borrowPass (places : List (Nat × Nat)) : Borrowed := places.foldr takeAway ⟨[], 0⟩

@[simp] theorem borrowPass_nil : borrowPass [] = ⟨[], 0⟩ := rfl

@[simp] theorem borrowPass_cons (place : Nat × Nat) (places : List (Nat × Nat)) :
    borrowPass (place :: places) = takeAway place (borrowPass places) := rfl

/-- The difference of two runs, lined up at their last digits.  It is meant for a subtrahend that
is no larger and no longer; a borrow that is left over in front would be dropped. -/
def subtract (x y : Digits) : Digits := (borrowPass (x.zip (y.leftpad x.length 0))).digits

theorem borrow_le_one (places : List (Nat × Nat)) : (borrowPass places).borrow ≤ 1 := by
  cases places with
  | nil => simp
  | cons place places =>
    simp only [borrowPass_cons, takeAway]
    split <;> simp

@[simp] theorem length_borrowPass (places : List (Nat × Nat)) :
    (borrowPass places).digits.length = places.length := by
  induction places with
  | nil => rfl
  | cons place places ih =>
    simp only [borrowPass_cons, takeAway]
    split <;> simp [ih]

theorem borrowPass_valid {places : List (Nat × Nat)} (h : ∀ p ∈ places, p.1 < 10 ∧ p.2 < 10) :
    (borrowPass places).digits.Valid := by
  induction places with
  | nil => simp [Valid]
  | cons place places ih =>
    have ih := ih fun p hp => h p (by simp [hp])
    have hplace := h place (by simp)
    simp only [borrowPass_cons, takeAway]
    split <;>
    · intro d hd
      rcases List.mem_cons.1 hd with rfl | hd
      · omega
      · exact ih d hd

/-- The places of two runs hold digits, also where the second run was filled up with zeros in
front. -/
theorem lt_ten_of_mem_zip {x y : Digits} (hx : x.Valid) (hy : y.Valid) (n : Nat) :
    ∀ p ∈ x.zip (y.leftpad n 0), p.1 < 10 ∧ p.2 < 10 := by
  intro p hp
  obtain ⟨hfst, hsnd⟩ := List.of_mem_zip hp
  exact ⟨hx _ hfst, hy.leftpad n _ hsnd⟩

theorem subtract_valid {x y : Digits} (hx : x.Valid) (hy : y.Valid) : (subtract x y).Valid :=
  borrowPass_valid (lt_ten_of_mem_zip hx hy _)

end Digits
end DecimalCalc
