/-
# The cells of a product hold

Every pair of digits is added into the cell that its two places add up to, and at most as many pairs
meet in a cell as the shorter run has digits.  So with `m` for that number a cell comes to `81 * m`,
what is carried on to `9 * m`, and both together to `90 * m`, which words of 64 bits hold as long as
`m` is at most `2 ^ 56`.

The cells are filled here as a machine fills them: one array of zeros, two loops over the digits,
each product added in place, with no result if a product or a sum does not fit its word or a place
is outside the array.  The definition that runs builds the cells from rows instead and has no words
to leave.  The two are connected row by row.  A row of the inner loop touches a stretch of the array
and leaves what stands in front of it and behind it; and one more digit of the first factor moves
all cells on by a place and adds a row to the last ones, which is what a row of the other definition
does too.  The bound on a cell is needed on the way only, to see that no addition leaves its word,
and it holds of every array that the loops pass through, since these hold cells of shorter products.

* `cells_le`: how large a cell gets;
* `cells_concat`: what one more digit of the first factor adds to the cells;
* `accumulate?_eq`: the two loops fill the cells without leaving words, and with what `cells` says;
* `carry_le`: how much is carried;
* `accumulator_holds`: filling, carrying and the digits that come out.
-/
import DecimalCalc.Proofs.Digits.Checked
import Mathlib.Data.List.GetD
import Mathlib.Data.List.Induction

namespace DecimalCalc
namespace Digits

/-! ## 1. How large a cell gets

A cell is read off by its distance from the end, with zero for cells that are not there, so rows of
different length need no alignment.  Each of the two runs gives a bound on a cell by the number of
its digits, and the smaller of these is the one that is wanted. -/

/-- What a row adds to the cell `k` places from the end: one product, of the digit that the row
belongs to and the one whose place is `k`. -/
theorem getD_addRow (d : Nat) (ys cells : List Nat) (k : Nat) :
    (addRow d ys cells).getD k 0 = d * ys.getD k 0 + cells.getD k 0 := by
  induction ys generalizing cells k with
  | nil => simp [addRow]
  | cons y ys ih =>
    cases cells with
    | nil => cases k with
      | zero => simp [addRow]
      | succ k => simpa [addRow] using ih [] k
    | cons cell cells => cases k with
      | zero => simp [addRow]
      | succ k => simpa [addRow] using ih cells k

theorem getD_addRows_nil (ys : List Nat) (k : Nat) : (addRows [] ys).getD k 0 = 0 := by
  rw [addRows, List.getD_eq_getElem?_getD, List.getElem?_replicate]
  split <;> rfl

/-- Two digits multiply to no more than nine times nine, also where there is no digit and zero is
read. -/
theorem mul_getD_le {d : Nat} (hd : d < 10) {ds : Digits} (h : ds.Valid) (k : Nat) :
    d * ds.getD k 0 ≤ 81 := by
  have hdigit : ds.getD k 0 ≤ 9 := by
    rw [List.getD_eq_getElem?_getD]
    cases hk : ds[k]? with
    | none => exact Nat.zero_le _
    | some e => exact Nat.le_of_lt_succ (h e (List.mem_of_getElem? hk))
  exact Nat.mul_le_mul (Nat.le_of_lt_succ hd) hdigit

/-- Each digit of the first run adds one product to a cell.  The induction is on that run, which
the rows are made from. -/
theorem getD_addRows_le_left {xs ys : Digits} (hx : xs.Valid) (hy : ys.Valid) (k : Nat) :
    (addRows xs ys).getD k 0 ≤ 81 * List.length xs := by
  induction xs generalizing k with
  | nil => rw [getD_addRows_nil, List.length_nil]
  | cons x xs ih =>
    have hproduct := mul_getD_le (hx x (by simp)) hy k
    rw [addRows, getD_addRow, List.length_cons]
    cases k with
    | zero =>
      rw [List.getD_cons_zero]
      omega
    | succ k =>
      have := ih hx.tail k
      rw [List.getD_cons_succ]
      omega

/-- Each digit of the second run adds one product too, if its place is in front of the cell's.  The
induction is on the first run all the same; a row moves the cell by one place, and that is why the
place is part of the bound. -/
theorem getD_addRows_le_right {xs ys : Digits} (hx : xs.Valid) (hy : ys.Valid) (k : Nat) :
    (addRows xs ys).getD k 0 ≤ 81 * min ys.length (k + 1) := by
  induction xs generalizing k with
  | nil =>
    rw [getD_addRows_nil]
    exact Nat.zero_le _
  | cons x xs ih =>
    -- a row adds a product to the cells that it reaches, and only there may one more be counted
    have hproduct : x * ys.getD k 0 + 81 * min ys.length k ≤ 81 * min ys.length (k + 1) := by
      rcases Nat.lt_or_ge k ys.length with hlt | hge
      · have := mul_getD_le (hx x (by simp)) hy k
        omega
      · rw [List.getD_eq_default _ _ hge]
        omega
    rw [addRows, getD_addRow]
    cases k with
    | zero =>
      rw [List.getD_cons_zero]
      omega
    | succ k =>
      have := ih hx.tail k
      rw [List.getD_cons_succ]
      omega

/-- **How large a cell gets.**  No more pairs of digits meet in it than the shorter run has digits. -/
theorem cells_le {x y : Digits} (hx : x.Valid) (hy : y.Valid) {cell : Nat} (h : cell ∈ cells x y) :
    cell ≤ 81 * min x.length y.length := by
  obtain ⟨k, hk, hcell⟩ := List.mem_iff_getElem.1 (List.mem_reverse.1 h)
  have hgetD : (addRows x.reverse y.reverse).getD k 0 = cell := by
    rw [List.getD_eq_getElem _ _ hk, hcell]
  have hleft := getD_addRows_le_left hx.reverse hy.reverse k
  have hright := getD_addRows_le_right hx.reverse hy.reverse k
  rw [hgetD, List.length_reverse] at hleft hright
  omega

/-! ## 2. Filling the cells

The loops as a machine runs them.  A place is found by adding the two indices, a product and a sum
are checked before they are stored, and any failure ends the whole, so that a result is evidence of
every check. -/

/-- Adds a product into the cell at a place.  There is no result if the place is outside, or if the
sum leaves its word. -/
def addInto? (cells : List Nat) (place product : Nat) : Option (List Nat) := do
  let cell ← cells[place]?
  let sum ← below? UInt64.size (cell + product)
  some (cells.set place sum)

/-- One round of the inner loop: the digit `d` at place `i` of the first run meets a digit of the second one. -/
def addProduct? (d i : Nat) (cells : List Nat) (other : Nat × Nat) : Option (List Nat) := do
  let product ← below? UInt64.size (d * other.1)
  addInto? cells (i + other.2 + 1) product

/-- One round of the outer loop: a digit of the first run meets all digits of the second one. -/
def accumulateRow? (y : Digits) (cells : List Nat) (digit : Nat × Nat) : Option (List Nat) :=
  y.zipIdx.foldlM (addProduct? digit.1 digit.2) cells

/-- Both loops, from cells of zero.  There are as many cells as the two runs have digits
together. -/
def accumulate? (x y : Digits) : Option (List Nat) :=
  x.zipIdx.foldlM (accumulateRow? y) (List.replicate (x.length + y.length) 0)

/-- What a digit adds to the cells that its row reaches: one cell for each digit of the second
run. -/
def withRow (d : Nat) (reached y : List Nat) : List Nat :=
  List.zipWith (fun cell e => cell + d * e) reached y

/-- The array is written as what stands in front of the cell, the cell, and what stands behind it,
so the place is a length. -/
theorem addInto?_eq {front back : List Nat} {cell product : Nat} (h : cell + product < UInt64.size) :
    addInto? (front ++ cell :: back) front.length product =
      some (front ++ (cell + product) :: back) := by
  have hcell : (front ++ cell :: back)[front.length]? = some cell := by simp
  simp only [addInto?, hcell, Option.bind_eq_bind, Option.bind_some]
  rw [below?_eq h]
  simp

/-- **The inner loop** adds its row where it reaches, and nowhere else.  The induction is on the
digits that are still to come, from the one at place `j` on; the cells that were passed join the
front. -/
theorem foldlM_addProduct? {y front reached back : List Nat} {d i j : Nat}
    (hfront : front.length = i + j + 1) (hreached : reached.length = y.length)
    (hfit : ∀ cell ∈ withRow d reached y, cell < UInt64.size) :
    (y.zipIdx j).foldlM (addProduct? d i) (front ++ (reached ++ back)) =
      some (front ++ (withRow d reached y ++ back)) := by
  induction y generalizing front reached j with
  | nil =>
    rw [List.length_eq_zero_iff.1 hreached]
    rfl
  | cons e y ih =>
    cases reached with
    | nil => cases hreached
    | cons cell reached =>
      have hcell : cell + d * e < UInt64.size := hfit _ (by simp [withRow])
      have hproduct : d * e < UInt64.size := by omega
      have hround : addProduct? d i (front ++ (cell :: reached ++ back)) (e, j) =
          some (front ++ (cell + d * e) :: (reached ++ back)) := by
        simp only [addProduct?, below?_eq hproduct, Option.bind_eq_bind, Option.bind_some]
        rw [← hfront]
        exact addInto?_eq hcell
      have hnext := @ih (front ++ [cell + d * e]) reached (j + 1) (by simp; omega)
        (Nat.succ.inj hreached) fun c hc => hfit c (List.mem_cons_of_mem _ hc)
      rw [List.append_assoc, List.append_assoc] at hnext
      rw [List.zipIdx_cons, List.foldlM_cons, hround]
      exact hnext

/-! ## 3. What the loops fill in

The outer loop is followed digit by digit from the end of the first run, where a further digit adds
the last row.  The cells of zero that no row has reached yet are carried along behind the cells that
have their final number of rows. -/

/-- A row that ends before the cells do leaves the remaining ones alone. -/
theorem addRow_append {d : Nat} {ys reached : List Nat} (h : reached.length = ys.length)
    (back : List Nat) : addRow d ys (reached ++ back) = withRow d reached ys ++ back := by
  induction ys generalizing reached with
  | nil =>
    rw [List.length_eq_zero_iff.1 h]
    cases back <;> rfl
  | cons y ys ih =>
    cases reached with
    | nil => cases h
    | cons cell reached =>
      rw [List.cons_append, addRow, ih (Nat.succ.inj h), Nat.add_comm]
      rfl

/-- **One more digit** at the end of the first run moves the cells on and adds a row to the last ones. -/
theorem cells_concat {x y front reached : Digits} (d : Nat)
    (hcells : cells x y ++ [0] = front ++ reached) (hreached : reached.length = y.length) :
    cells (x ++ [d]) y = front ++ withRow d reached y := by
  have hlen : reached.reverse.length = y.reverse.length := by simpa using hreached
  have hrows : 0 :: addRows x.reverse y.reverse = reached.reverse ++ front.reverse := by
    rw [← List.reverse_append, ← hcells, cells, List.reverse_append, List.reverse_reverse]
    rfl
  rw [cells, List.reverse_append, List.reverse_singleton, List.singleton_append, addRows, hrows,
    addRow_append hlen, List.reverse_append, List.reverse_reverse, withRow, withRow,
    List.reverse_zipWith hlen, List.reverse_reverse, List.reverse_reverse]

/-- **The two loops fill the cells** without leaving the words, whatever cells of zero stand
behind.  The number of these is general so that the induction can take one of them away with each
digit. -/
theorem accumulateRows?_eq {x y : Digits} (hx : x.Valid) (hy : y.Valid)
    (hfit : 81 * min x.length y.length < UInt64.size) (m : Nat) :
    x.zipIdx.foldlM (accumulateRow? y) (List.replicate (x.length + y.length + m) 0) =
      some (cells x y ++ List.replicate m 0) := by
  induction x using List.reverseRecOn generalizing m with
  | nil =>
    simp [cells, addRows, List.replicate_append_replicate]
  | append_singleton x d ih =>
    rw [List.length_append, List.length_singleton] at hfit ⊢
    have hbefore := ih (fun e he => hx e (by simp [he])) (by omega) (m + 1)
    -- the cells so far and one more, cut where the row of the new digit begins
    obtain ⟨front, reached, hcells, hfront⟩ : ∃ front reached,
        cells x y ++ [0] = front ++ reached ∧ front.length = x.length + 1 :=
      ⟨_, _, (List.take_append_drop (x.length + 1) _).symm, by simp⟩
    have hreached : reached.length = y.length := by
      have := congrArg List.length hcells
      simp only [List.length_append, length_cells, List.length_singleton] at this
      omega
    have hconcat := cells_concat d hcells hreached
    have hrow := @foldlM_addProduct? y front reached (List.replicate m 0) d x.length 0 hfront hreached
      fun cell hcell => by
        have hle := cells_le hx hy (hconcat ▸ List.mem_append_right front hcell)
        rw [List.length_append, List.length_singleton] at hle
        omega
    have hzeros : cells x y ++ List.replicate (m + 1) 0 = front ++ (reached ++ List.replicate m 0) := by
      rw [← List.append_assoc, ← hcells, List.append_assoc, List.replicate_succ]
      rfl
    have hlength : x.length + 1 + y.length + m = x.length + y.length + (m + 1) := by omega
    rw [List.zipIdx_append, List.foldlM_append, hlength, hbefore, hconcat, hzeros]
    simpa [accumulateRow?] using hrow

/-- The case that runs: no cells are left over once every digit has added its row. -/
theorem accumulate?_eq {x y : Digits} (hx : x.Valid) (hy : y.Valid)
    (hfit : 81 * min x.length y.length < UInt64.size) : accumulate? x y = some (cells x y) := by
  simpa [accumulate?] using accumulateRows?_eq hx hy hfit 0

/-! ## 4. What is carried

What is carried out of a cell is a tenth of what the cell came to with the carry from the right, so
a bound of `81 * m` on the cells keeps the carry at `9 * m`.  Cell and carry together then fit a
word, and checked carrying agrees with plain carrying. -/

/-- **How much is carried** out of cells that `m` pairs of digits meet in at most.  The bound
passes from cell to cell, since a tenth of `81 * m` and `9 * m` together is `9 * m` again. -/
theorem carry_le {cells : List Nat} {m : Nat} (h : ∀ cell ∈ cells, cell ≤ 81 * m) :
    (carryPass cells).carry ≤ 9 * m := by
  induction cells with
  | nil => exact Nat.zero_le _
  | cons cell cells ih =>
    have hcell := h cell (by simp)
    have hcarry := ih fun c hc => h c (by simp [hc])
    simp only [carryPass_cons, settle]
    omega

/-- A cell with what is carried into it, which is the largest number of the whole calculation. -/
theorem cell_add_carry_le {x y : Digits} (hx : x.Valid) (hy : y.Valid) {cell : Nat} {back : List Nat}
    (h : cell :: back <:+ cells x y) :
    cell + (carryPass back).carry ≤ 90 * min x.length y.length := by
  have hcell := cells_le hx hy (h.mem List.mem_cons_self)
  have hcarry := carry_le fun c hc => cells_le hx hy (h.mem (List.mem_cons_of_mem _ hc))
  omega

/-- **The accumulator holds.**  For two runs of digits of which the shorter one has no more than `2 ^ 56`, the
two loops fill the cells of the product without a product or a sum that leaves its word of 64 bits; in the
carry pass every cell stays below `2 ^ 64` together with what is carried into it; and what comes out are digits,
which bytes hold, with nothing carried out of the first cell, so that they denote the product. -/
theorem accumulator_holds {x y : Digits} (hx : x.Valid) (hy : y.Valid)
    (hshort : min x.length y.length ≤ 2 ^ 56) :
    accumulate? x y = some (cells x y) ∧
    (∀ cell back, cell :: back <:+ cells x y → cell + (carryPass back).carry < 2 ^ 64) ∧
    ∃ settled, carryPass? (cells x y) = some settled ∧
      settled.carry = 0 ∧ settled.digits = multiply x y ∧
      (∀ d ∈ settled.digits, d ≤ 9 ∧ d.toUInt8.toNat = d) ∧
      settled.digits.toNat = x.toNat * y.toNat := by
  have hsum : ∀ cell back, cell :: back <:+ cells x y → cell + (carryPass back).carry < 2 ^ 64 := by
    intro cell back h
    have := cell_add_carry_le hx hy h
    omega
  have hfit : 81 * min x.length y.length < UInt64.size := by
    simp only [UInt64.size]
    omega
  refine ⟨accumulate?_eq hx hy hfit, hsum, _, carryPass?_eq hsum, carry_cells hx hy, rfl, ?_,
    toNat_multiply hx hy⟩
  intro d hd
  have hdigit : d < 10 := carryPass_valid _ d hd
  refine ⟨Nat.le_of_lt_succ hdigit, ?_⟩
  rw [Nat.toUInt8_eq, UInt8.toNat_ofNat']
  omega

/-- The cells of 999 times 99 reach twice 81, and the digits are those of 98901. -/
theorem accumulator_holds_nines :
    Valid [9, 9, 9] ∧ Valid [9, 9] ∧ min [9, 9, 9].length [9, 9].length ≤ 2 ^ 56 ∧
    accumulate? [9, 9, 9] [9, 9] = some [0, 81, 162, 162, 81] ∧
    multiply [9, 9, 9] [9, 9] = [9, 8, 9, 0, 1] ∧ toNat (multiply [9, 9, 9] [9, 9]) = 999 * 99 := by
  obtain ⟨hcells, -, settled, -, -, hdigits, -, hvalue⟩ :=
    @accumulator_holds [9, 9, 9] [9, 9] (by decide) (by decide) (by decide)
  refine ⟨by decide, by decide, by decide, hcells, by decide, ?_⟩
  rw [← hdigits, hvalue]
  rfl

end Digits
end DecimalCalc
