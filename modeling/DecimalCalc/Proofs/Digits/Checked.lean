/-
# Passes in machine words

Digits are held in bytes and the cells of a product in words of 64 bits.  Here the borrow pass and
the carry pass are done the way a machine does them that notices when a result leaves its range: a
sum that needs more than its word, or a difference below zero, leaves the pass without a result.  So
a pass that has a result has left no range, and the result is that of the pass over plain numbers.

The definitions repeat the ones that run, with a check wherever a number is made.  Each check is a
function into an option, and the lemma about it says when it lets its number through.  A checked
pass is then equal to the plain one under the condition that all its checks pass, which for digits
is always the case and for the cells of a product depends on how large they get.  The plain
definitions stay the ones that are calculated with.

* `subtract?_eq`: a difference of digits is found within bytes, and nothing is left to borrow, if
  the subtrahend is no larger;
* `carryPass?_eq`: a carry pass stays within words as long as each cell does with what is carried
  into it.
-/
import DecimalCalc.Proofs.Digits.Arithmetic

namespace DecimalCalc
namespace Digits

/-! ## 1. Ranges

The two checks that a machine makes: that a sum or a product fits its word, and that a difference is
not negative.  The size of the word is an argument. -/

/-- A number that must stay below a limit; the number itself is passed on. -/
def below? (limit n : Nat) : Option Nat := if n < limit then some n else none

/-- A difference that must not go below zero.  Of natural numbers there would be one anyway, and a
wrong one. -/
def minus? (m n : Nat) : Option Nat := if n ≤ m then some (m - n) else none

theorem below?_eq {limit n : Nat} (h : n < limit) : below? limit n = some n := if_pos h

theorem minus?_eq {m n : Nat} (h : n ≤ m) : minus? m n = some (m - n) := if_pos h

/-! ## 2. Borrowing in bytes

A borrow step adds at most ten to a digit and takes at most ten away, so it is far from the limits
of a byte.  What can fail is the whole: digits without a place to be taken from, or a borrow that
nothing is left for. -/

/-- `takeAway` in bytes.  The digit is raised by ten before anything is taken from it, so no
difference is ever negative. -/
def takeAway? (place : Nat × Nat) (right : Borrowed) : Option Borrowed := do
  let subtrahend ← below? UInt8.size (place.2 + right.borrow)
  if place.1 < subtrahend then
    let raised ← below? UInt8.size (place.1 + 10)
    let d ← minus? raised subtrahend
    some ⟨d :: right.digits, 1⟩
  else
    let d ← minus? place.1 subtrahend
    some ⟨d :: right.digits, 0⟩

/-- `borrowPass` in bytes, from the last place to the first.  The first place that fails leaves the
whole without a result. -/
def borrowPass? (places : List (Nat × Nat)) : Option Borrowed := places.foldrM takeAway? ⟨[], 0⟩

/-- `subtract` in bytes.  There is no result either if digits of the subtrahend find no place to be taken
from, or if a borrow is left over in front. -/
def subtract? (x y : Digits) : Option Digits := do
  let _ ← minus? x.length y.length
  let difference ← borrowPass? (x.zip (y.leftpad x.length 0))
  if difference.borrow = 0 then some difference.digits else none

/-- One place: with digits and a borrow of at most one, every check passes and nothing else is
different. -/
theorem takeAway?_eq {place : Nat × Nat} (h : place.1 < 10 ∧ place.2 < 10) {right : Borrowed}
    (hright : right.borrow ≤ 1) : takeAway? place right = some (takeAway place right) := by
  have hsubtrahend : place.2 + right.borrow < UInt8.size := by simp only [UInt8.size]; omega
  have hraised : place.1 + 10 < UInt8.size := by simp only [UInt8.size]; omega
  simp only [takeAway?, takeAway, below?_eq hsubtrahend, below?_eq hraised, Option.bind_eq_bind,
    Option.bind_some]
  split
  · rw [minus?_eq (by omega)]
    rfl
  · next hle =>
    rw [minus?_eq (Nat.not_lt.1 hle)]
    rfl

/-- A borrow pass over digits stays within bytes.  That a borrow is at most one is carried along
the induction. -/
theorem borrowPass?_eq {places : List (Nat × Nat)} (h : ∀ p ∈ places, p.1 < 10 ∧ p.2 < 10) :
    borrowPass? places = some (borrowPass places) := by
  induction places with
  | nil => rfl
  | cons place places ih =>
    have ih := ih fun p hp => h p (by simp [hp])
    rw [borrowPass?] at ih
    rw [borrowPass?, List.foldrM_cons, ih]
    exact takeAway?_eq (h place (by simp)) (borrow_le_one places)

/-- **A difference of digits is found within bytes**, and uses up the subtrahend, if that is no larger. -/
theorem subtract?_eq {x y : Digits} (hx : x.Valid) (hy : y.Valid) (hlen : y.length ≤ x.length)
    (h : toNat y ≤ toNat x) : subtract? x y = some (subtract x y) := by
  have hpass := borrowPass?_eq (lt_ten_of_mem_zip hx hy x.length)
  simp only [subtract?, minus?_eq hlen, hpass, Option.bind_eq_bind, Option.bind_some]
  exact if_pos (borrow_eq_zero hx hy hlen h)

/-! ## 3. Carrying in words of 64 bits

A cell that is settled has the carry of the cells on its right added first, and this sum is the only
number that could be too large.  The condition is stated for every cell with what is carried into
it. -/

/-- `settle` in words of 64 bits.  The digit and the carry are both smaller than the total, so only
the total is checked. -/
def settle? (cell : Nat) (right : Carried) : Option Carried := do
  let total ← below? UInt64.size (cell + right.carry)
  some ⟨total % 10 :: right.digits, total / 10⟩

/-- `carryPass` in words of 64 bits, from the last cell to the first. -/
def carryPass? (cells : List Nat) : Option Carried := cells.foldrM settle? ⟨[], 0⟩

/-- **A carry pass stays within words** if each cell does with what is carried into it.  The cells
behind a cell are a suffix of the whole, which is how the condition is handed down. -/
theorem carryPass?_eq {cells : List Nat}
    (h : ∀ cell back, cell :: back <:+ cells → cell + (carryPass back).carry < UInt64.size) :
    carryPass? cells = some (carryPass cells) := by
  induction cells with
  | nil => rfl
  | cons cell cells ih =>
    have ih := ih fun c back hsuffix => h c back (hsuffix.trans (List.suffix_cons _ _))
    rw [carryPass?] at ih
    rw [carryPass?, List.foldrM_cons, ih]
    simp only [settle?, Option.bind_eq_bind, Option.bind_some]
    rw [below?_eq (h cell cells List.suffix_rfl)]
    rfl

end Digits
end DecimalCalc
