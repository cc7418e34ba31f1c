/-
# Sums, differences and products of runs

One carry pass settles the cells of a sum or of a product without changing the number they denote,
and a borrow pass does the same for a difference.  The statements are about `toNat`, which makes
sense of cells that hold more than a digit, so the value can be followed through the pass and needs
no assumption about what the cells hold.

A pass is an equation between what goes in and what comes out, with the carry or the borrow counted
at the place in front.  For a sum this is all: what is left over is put in front as a digit.  For a
difference one has to know that nothing is left over, and for a product that the first cell, which
no product goes into, takes the last carry.  Both follow from the size of the result: a run of that
length holds it.

* `carryPass_eq`: a pass keeps the value of the cells, the carry counting as one more cell in front;
* `toNat_add`: the sum of two runs denotes the sum;
* `toNat_subtract`: the difference of two runs denotes the difference, the subtrahend being no
  larger, and then nothing is left to borrow (`borrow_eq_zero`);
* `toNat_multiply`: the product of two runs denotes the product, and nothing is carried out of its
  first cell (`carry_cells`).
-/
import DecimalCalc.Digits.Product
import DecimalCalc.Proofs.Digits.Value

namespace DecimalCalc
namespace Digits

/-! ## 1. The carry pass and the sum

The induction follows the pass, from the last cell to the first.  At each cell a number is split
into its last digit and the rest, and the rest is worth ten times as much one place further left. -/

/-- A pass keeps the value, whatever the cells held; the carry that is left counts in front of the
digits. -/
theorem carryPass_eq (cells : List Nat) :
    (carryPass cells).carry * 10 ^ cells.length + toNat (carryPass cells).digits = toNat cells := by
  induction cells with
  | nil => rfl
  | cons cell cells ih =>
    have hdiv := Nat.div_add_mod (cell + (carryPass cells).carry) 10
    simp only [carryPass_cons, settle, toNat_cons, length_carryPass, List.length_cons,
      Nat.pow_succ]
    rw [← ih, ← Nat.add_assoc, ← Nat.add_assoc, ← Nat.add_mul, Nat.mul_comm (10 ^ cells.length) 10,
      ← Nat.mul_assoc, ← Nat.add_mul]
    congr 2
    omega

/-- Adding two runs of one length place by place adds what they denote, before anything is
carried. -/
theorem toNat_zipWith_add {x y : Digits} (h : x.length = y.length) :
    toNat (List.zipWith (· + ·) x y) = toNat x + toNat y := by
  induction x generalizing y with
  | nil => cases y with
    | nil => rfl
    | cons _ _ => cases h
  | cons a x ih => cases y with
    | nil => cases h
    | cons b y =>
      have hxy : x.length = y.length := Nat.succ.inj h
      rw [List.zipWith_cons_cons, toNat_cons, toNat_cons, toNat_cons, ih hxy, List.length_zipWith,
        hxy, Nat.min_self, Nat.add_mul]
      omega

/-- Lining a run up with a longer one does not change what it denotes. -/
@[simp] theorem toNat_leftpad (n : Nat) (ds : Digits) : toNat (ds.leftpad n 0) = toNat ds := by
  simp [List.leftpad, toNat_append]

/-- No assumption is made about the entries: cells that hold more than a digit are added and
settled just as well. -/
@[simp] theorem toNat_add (x y : Digits) : toNat (add x y) = toNat x + toNat y := by
  have hlen : (x.leftpad (max x.length y.length) 0).length =
      (y.leftpad (max x.length y.length) 0).length := by
    rw [length_leftpad, length_leftpad]; omega
  have hpass := carryPass_eq (List.zipWith (· + ·) (x.leftpad (max x.length y.length) 0)
    (y.leftpad (max x.length y.length) 0))
  rw [toNat_zipWith_add hlen, toNat_leftpad, toNat_leftpad] at hpass
  simp only [add]
  split
  · next h => rwa [h, Nat.zero_mul, Nat.zero_add] at hpass
  · rw [toNat_cons, length_carryPass]; exact hpass

/-! ## 2. The borrow pass and the difference

Here the entries have to be digits, since ten is what a borrow is worth.  The equation is written
without subtraction: what comes out and the subtrahend make up the minuend and what was borrowed. -/

/-- A borrow pass keeps the difference: what is borrowed at the end counts against the digits.
There is at most one to borrow, but the equation does not need to know. -/
theorem borrowPass_eq {places : List (Nat × Nat)} (h : ∀ p ∈ places, p.1 < 10 ∧ p.2 < 10) :
    toNat (borrowPass places).digits + toNat (places.map (·.2)) =
      toNat (places.map (·.1)) + (borrowPass places).borrow * 10 ^ places.length := by
  induction places with
  | nil => rfl
  | cons place places ih =>
    have ih := ih fun p hp => h p (by simp [hp])
    have hplace := h place (by simp)
    have hborrow := borrow_le_one places
    simp only [borrowPass_cons, takeAway, List.map_cons, List.length_cons, Nat.pow_succ]
    generalize hB : (borrowPass places).borrow = b at *
    split
    · next hlt =>
      simp only [toNat_cons, length_borrowPass, List.length_map]
      have : (place.1 + 10 - (place.2 + b)) * 10 ^ places.length + place.2 * 10 ^ places.length
          + b * 10 ^ places.length = place.1 * 10 ^ places.length + 10 * 10 ^ places.length := by
        rw [← Nat.add_mul, ← Nat.add_mul, ← Nat.add_mul]
        congr 1
        omega
      omega
    · next hle =>
      simp only [toNat_cons, length_borrowPass, List.length_map]
      have : (place.1 - (place.2 + b)) * 10 ^ places.length + place.2 * 10 ^ places.length
          + b * 10 ^ places.length = place.1 * 10 ^ places.length := by
        rw [← Nat.add_mul, ← Nat.add_mul]
        congr 1
        omega
      omega

/-- The difference of two runs, together with what is left to borrow at the end. -/
theorem toNat_subtract_add {x y : Digits} (hx : x.Valid) (hy : y.Valid) (hlen : y.length ≤ x.length) :
    toNat (subtract x y) + toNat y =
      toNat x + (borrowPass (x.zip (y.leftpad x.length 0))).borrow * 10 ^ x.length := by
  have hlen' : x.length = (y.leftpad x.length 0).length := by
    rw [length_leftpad]; omega
  have hpass := borrowPass_eq (lt_ten_of_mem_zip hx hy x.length)
  rwa [List.map_fst_zip (Nat.le_of_eq hlen'), List.map_snd_zip (Nat.le_of_eq hlen'.symm),
    toNat_leftpad, List.length_zip, ← hlen', Nat.min_self] at hpass

/-- Nothing is left to borrow if the subtrahend is no larger, since the digits alone cannot make up
for a unit in front of them. -/
theorem borrow_eq_zero {x y : Digits} (hx : x.Valid) (hy : y.Valid) (hlen : y.length ≤ x.length)
    (h : toNat y ≤ toNat x) : (borrowPass (x.zip (y.leftpad x.length 0))).borrow = 0 := by
  have hpass := toNat_subtract_add hx hy hlen
  have hlt := toNat_lt (subtract_valid hx hy)
  have hborrow := borrow_le_one (x.zip (y.leftpad x.length 0))
  rw [subtract, length_borrowPass, List.length_zip, length_leftpad, Nat.max_eq_left hlen,
    Nat.min_self] at hlt
  rw [subtract] at hpass
  generalize (borrowPass (x.zip (y.leftpad x.length 0))).borrow = b at *
  obtain rfl | rfl : b = 0 ∨ b = 1 := by omega
  · rfl
  · omega

/-- The difference as it is used: longer and larger minuends are what the callers have made sure of
by comparing. -/
theorem toNat_subtract {x y : Digits} (hx : x.Valid) (hy : y.Valid) (hlen : y.length ≤ x.length)
    (h : toNat y ≤ toNat x) : toNat (subtract x y) + toNat y = toNat x := by
  rw [toNat_subtract_add hx hy hlen, borrow_eq_zero hx hy hlen h, Nat.zero_mul, Nat.add_zero]

/-! ## 3. The product

The cells denote the product by the distributive law, row by row.  What is left to see is that the
pass drops nothing, that is, that no carry leaves the first cell. -/

/-- Nothing is carried out of the first cell of a product.  The product of two numbers of `m` and
`n` digits has at most `m + n` of them, and there are as many cells. -/
theorem carry_cells {x y : Digits} (hx : x.Valid) (hy : y.Valid) :
    (carryPass (cells x y)).carry = 0 := by
  have hpass := carryPass_eq (cells x y)
  have hlt : toNat x * toNat y < 10 ^ (List.length x + List.length y) := by
    rw [Nat.pow_add]
    exact Nat.mul_lt_mul'' (toNat_lt hx) (toNat_lt hy)
  rw [toNat_cells, length_cells] at hpass
  generalize (carryPass (cells x y)).carry = carry at *
  cases carry with
  | zero => rfl
  | succ carry =>
    rw [Nat.succ_mul] at hpass
    omega

/-- The product that runs, with every product of two digits in its cell and the cells settled
once. -/
theorem toNat_multiply {x y : Digits} (hx : x.Valid) (hy : y.Valid) :
    toNat (multiply x y) = toNat x * toNat y := by
  have hpass := carryPass_eq (cells x y)
  rwa [carry_cells hx hy, Nat.zero_mul, Nat.zero_add, toNat_cells] at hpass

end Digits
end DecimalCalc
