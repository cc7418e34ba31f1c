/-
# The value of a run, place by place

A run is the usual positional numeral.  A valid run is below ten to the power of its length, so a
run of fixed length is told apart by its value, and so is a run without a zero in front.

Everything here is about `toNat` and the way it depends on places.  The definition reads a run from
the left; the lemmas cut it where a proof needs it cut, at the front, at the end or in the middle.
The bounds make the connection between lengths and values that comparing relies on: a longer run
without a zero in front is the larger one, and of two runs of one length the first different digit
decides, since all that stands behind it weighs less than one of its units.

* `toNat_append`, `toNat_cons`: the value of a run cut in two;
* `toNat_lt`, `pow_le_toNat`: a valid run lies below ten to its length, and reaches ten to one less
  if its first digit is not zero;
* `compare_eq`: the order of runs is the order of their values.
-/
import DecimalCalc.Digits.Basic
import Mathlib.Algebra.Order.Ring.Nat
import Mathlib.Tactic.Ring

namespace DecimalCalc
namespace Digits

/-! ## 1. Cutting a run in two

The front part counts ten times for each digit behind it.  From this come the two ways in which
zeros are put on: behind a run they multiply, in front they do nothing. -/

/-- The general case, from which the others follow.  Nothing has to be a digit for it. -/
theorem toNat_append (x y : Digits) : toNat (x ++ y) = x.toNat * 10 ^ y.length + y.toNat := by
  have h : ∀ (y : Digits) (n : Nat),
      y.foldl (fun n d => 10 * n + d) n = n * 10 ^ y.length + y.toNat := by
    intro y
    induction y with
    | nil => simp
    | cons d y ih =>
      intro n
      have hy : toNat (d :: y) = d * 10 ^ y.length + toNat y := by simpa [toNat] using ih d
      rw [List.foldl_cons, ih, hy, List.length_cons, Nat.pow_succ, Nat.add_mul,
        Nat.mul_comm 10 n, Nat.mul_assoc, Nat.mul_comm 10 (10 ^ _), Nat.add_assoc]
  rw [toNat, List.foldl_append, h]
  rfl

/-- The first digit stands at the place that the rest leaves open. -/
theorem toNat_cons (d : Nat) (ds : Digits) : toNat (d :: ds) = d * 10 ^ ds.length + ds.toNat := by
  have h := toNat_append [d] ds
  simpa [toNat] using h

theorem toNat_append_zeros (ds : Digits) (n : Nat) :
    toNat (ds ++ List.replicate n 0) = ds.toNat * 10 ^ n := by
  rw [toNat_append, toNat_replicate_zero, List.length_replicate, Nat.add_zero]

theorem toNat_zeros_append (n : Nat) (ds : Digits) :
    toNat (List.replicate n 0 ++ ds) = ds.toNat := by
  rw [toNat_append, toNat_replicate_zero, Nat.zero_mul, Nat.zero_add]

/-! ## 2. Bounds

For bounds the entries have to be digits.  The upper one holds of every valid run, the lower one
needs a first digit that is not zero. -/

/-- A run of `n` digits is below ten to the `n`, so one more place is always enough. -/
theorem toNat_lt {ds : Digits} (h : ds.Valid) : ds.toNat < 10 ^ ds.length := by
  induction ds with
  | nil => simp
  | cons d ds ih =>
    have hd : d < 10 := h d (by simp)
    have hds := ih fun e he => h e (by simp [he])
    have hmul : d * 10 ^ ds.length ≤ 9 * 10 ^ ds.length := Nat.mul_le_mul_right _ (by omega)
    rw [toNat_cons, List.length_cons, Nat.pow_succ]
    omega

/-- A first digit other than zero makes a run at least as large as its place. -/
theorem pow_le_toNat {d : Nat} (hd : d ≠ 0) (ds : Digits) : 10 ^ ds.length ≤ toNat (d :: ds) := by
  rw [toNat_cons]
  exact le_trans (Nat.le_mul_of_pos_left _ (Nat.pos_of_ne_zero hd)) (Nat.le_add_right _ _)

/-- A longer run without a zero in front is larger. -/
theorem toNat_lt_of_length_lt {x y : Digits} (hx : x.Valid) (hy : y.head? ≠ some 0)
    (h : x.length < y.length) : x.toNat < y.toNat := by
  cases y with
  | nil => simp at h
  | cons d ds =>
    have hd : d ≠ 0 := by simpa using hy
    have hle : x.length ≤ ds.length := by simpa using Nat.le_of_lt_succ h
    calc x.toNat < 10 ^ x.length := toNat_lt hx
      _ ≤ 10 ^ ds.length := Nat.pow_le_pow_right (by decide) hle
      _ ≤ toNat (d :: ds) := pow_le_toNat hd ds

theorem allZero_iff {ds : Digits} : ds.allZero = true ↔ ds.toNat = 0 := by
  induction ds with
  | nil => simp [allZero]
  | cons d ds ih =>
    rw [toNat_cons]
    simp only [allZero, List.all_cons, Bool.and_eq_true, beq_iff_eq] at ih ⊢
    rw [ih, Nat.add_eq_zero_iff, Nat.mul_eq_zero]
    simp

/-- A larger digit outweighs everything behind it, as long as that stays below one unit of the
place. -/
theorem place_lt {d e p m n : Nat} (hde : d < e) (hm : m < p) : d * p + m < e * p + n := by
  have hmul : (d + 1) * p ≤ e * p := Nat.mul_le_mul_right _ hde
  rw [Nat.add_mul, Nat.one_mul] at hmul
  omega

/-- The run of zero without a zero in front is empty. -/
theorem eq_nil_of_toNat_eq_zero {ds : Digits} (htrim : ds.head? ≠ some 0) (h : ds.toNat = 0) :
    ds = [] := by
  cases ds with
  | nil => rfl
  | cons d ds =>
    have hpow := pow_le_toNat (by simpa using htrim : d ≠ 0) ds
    have hpos : 0 < 10 ^ ds.length := Nat.pow_pos (by decide)
    omega

/-! ## 3. Valid runs

Runs are put together from parts, turned around and filled up with zeros, and stay valid
throughout. -/

theorem Valid.tail {d : Nat} {ds : Digits} (h : Valid (d :: ds)) : ds.Valid :=
  fun e he => h e (List.mem_cons_of_mem _ he)

/-- Two valid runs behind each other are one, which is how the digits of a decimal are. -/
theorem Valid.append {x y : Digits} (hx : x.Valid) (hy : y.Valid) : Valid (x ++ y) :=
  fun d hd => (List.mem_append.1 hd).elim (hx d) (hy d)

theorem Valid.reverse {ds : Digits} (h : ds.Valid) : Valid ds.reverse :=
  fun d hd => h d (List.mem_reverse.1 hd)

theorem valid_replicate_zero (n : Nat) : Valid (List.replicate n 0) := by
  intro d hd
  rw [List.eq_of_mem_replicate hd]
  decide

/-! ## 4. Order

The program compares lengths first and then digits from the left.  That this is the order of the
values is shown at one place and then, by induction, along the runs. -/

/-- Two numbers split at one place are ordered by their higher parts first, provided that the lower
parts are below one unit of that place. -/
theorem compare_place {d e p m n : Nat} (hm : m < p) (hn : n < p) :
    Ord.compare (d * p + m) (e * p + n) = (Ord.compare d e).then (Ord.compare m n) := by
  rcases Nat.lt_trichotomy d e with hlt | rfl | hgt
  · rw [Nat.compare_eq_lt.2 hlt, Nat.compare_eq_lt.2 (place_lt (n := n) hlt hm)]
    rfl
  · rw [Nat.compare_eq_eq.2 rfl]
    simp [Nat.compare_eq_ite_lt]
  · rw [Nat.compare_eq_gt.2 hgt, Nat.compare_eq_gt.2 (place_lt (n := m) hgt hn)]
    rfl

/-- Runs of one length are ordered at the first place where they differ, as words in a dictionary
are. -/
theorem compare_eq_of_length_eq {x y : Digits} (hx : x.Valid) (hy : y.Valid)
    (hlen : x.length = y.length) : Ord.compare x y = Ord.compare x.toNat y.toNat := by
  induction x generalizing y with
  | nil =>
    rw [List.length_eq_zero_iff.1 hlen.symm]
    rfl
  | cons d x ih =>
    cases y with
    | nil => cases hlen
    | cons e y =>
      have hlen' : x.length = y.length := Nat.succ.inj hlen
      have hxlt := toNat_lt hx.tail
      rw [hlen'] at hxlt
      rw [toNat_cons, toNat_cons, hlen', compare_place hxlt (toNat_lt hy.tail),
        List.compare_eq_compareLex, List.compareLex_cons_cons, ← List.compare_eq_compareLex,
        ih hx.tail hy.tail hlen']

/-- **Runs are ordered by value.**  This holds with zeros in front as well, since comparing takes
them away. -/
theorem compare_eq {x y : Digits} (hx : x.Valid) (hy : y.Valid) :
    Digits.compare x y = Ord.compare x.toNat y.toNat := by
  have hx' := hx.trimLeading
  have hy' := hy.trimLeading
  rw [Digits.compare, ← toNat_trimLeading x, ← toNat_trimLeading y]
  rcases Nat.lt_trichotomy x.trimLeading.length y.trimLeading.length with hlt | heq | hgt
  · rw [Nat.compare_eq_lt.2 hlt,
      Nat.compare_eq_lt.2 (toNat_lt_of_length_lt hx' (head?_trimLeading y) hlt)]
    rfl
  · rw [Nat.compare_eq_eq.2 heq, compare_eq_of_length_eq hx' hy' heq]
    rfl
  · rw [Nat.compare_eq_gt.2 hgt,
      Nat.compare_eq_gt.2 (toNat_lt_of_length_lt hy' (head?_trimLeading x) hgt)]
    rfl

end Digits
end DecimalCalc
