/-
# What rounding promises

A mode of rounding is a promise about the multiples of the last decimal's unit: half up gives the
nearest one, and of two nearest ones the one away from zero; floor gives the greatest one that is
not larger.  Either promise fixes the number, and the program keeps it, so nothing about digits is
needed for what follows from it: a number that has no more decimals stays what it is, rounding twice
is rounding once, and the order is kept.

The promise is stated for a set of rational numbers, which is the set of multiples in all uses, and
it is stated in such a way that a reader recognises it: nearest, with ties away from zero, and
greatest below.  That there is only one such number is proved from the promise, and that the
program's number is one of them is proved by counting in steps, where it comes down to integers.
Everything that is said about texts goes through the number that a text denotes, so it holds of
every spelling.

* `RoundingMode.rounds_iff`: one number keeps the promise, the multiple that is rounded to;
* `Decimal.rounds_iff_round`: on decimals, it is what the digits are rounded to;
* `NumberFormat.places_render_le`: no format writes more decimals than it keeps;
* `NumberFormat.round_round`: a text that was rounded is rounded to itself;
* `rounding_keeps_its_promise`: all of it, for decimals and for number texts.
-/
import DecimalCalc.Proofs.Decimal.Multiples
import DecimalCalc.Proofs.Format.Rendering
import DecimalCalc.Proofs.NumberText.Division
import Mathlib.Algebra.Group.Subgroup.ZPowers.Basic

namespace DecimalCalc

/-! ## 1. Promises

Neither promise mentions a decimal or a step.  Two numbers that keep one promise are compared with
each other, and come out equal; for half up, zero has to be among the numbers to settle the ties
around it. -/

/-- Of the numbers in the set, `r` is nearest to `q`, and of two nearest ones it is the one away
from zero.  The set need not be one of multiples. -/
structure IsNearest (s : Set Rat) (q r : Rat) : Prop where
  mem : r ∈ s
  le : ∀ m ∈ s, |r - q| ≤ |m - q|
  away : ∀ m ∈ s, |m - q| = |r - q| → |m| ≤ |r|

namespace IsNearest

variable {s : Set Rat} {q r r' : Rat}

/-- Nothing in the set is nearer to zero than zero. -/
theorem eq_zero (h : IsNearest s 0 r) (hzero : 0 ∈ s) : r = 0 := by
  have hle := h.le 0 hzero
  rw [sub_zero, sub_self, abs_zero] at hle
  exact abs_nonpos_iff.1 hle

/-- **One number at most is nearest.**  Two nearest ones on either side of `q` are as far from zero
as each other, and that leaves only zero between them. -/
theorem unique (h : IsNearest s q r) (h' : IsNearest s q r') (hzero : 0 ∈ s) : r = r' := by
  have hdistance : |r - q| = |r' - q| := le_antisymm (h.le r' h'.mem) (h'.le r h.mem)
  have habs : |r| = |r'| :=
    le_antisymm (h'.away r h.mem hdistance) (h.away r' h'.mem hdistance.symm)
  rcases abs_eq_abs.1 habs with heq | hopposite
  · exact heq
  · -- two opposite numbers are equally near to zero only, where zero itself is nearer
    rw [hopposite] at hdistance
    rcases abs_eq_abs.1 hdistance with hsame | hmirror
    · linarith
    · have hq : q = 0 := by linarith
      subst hq
      rw [h.eq_zero hzero, h'.eq_zero hzero]

end IsNearest

namespace RoundingMode

/-- What a mode promises of the number that `q` is rounded to, among the numbers of a set. -/
def Rounds (mode : RoundingMode) (s : Set Rat) (q r : Rat) : Prop :=
  match mode with
  | .halfUp => IsNearest s q r
  | .floor => IsGreatest {m ∈ s | m ≤ q} r

theorem Rounds.unique {mode : RoundingMode} {s : Set Rat} {q r r' : Rat} (h : mode.Rounds s q r)
    (h' : mode.Rounds s q r') (hzero : 0 ∈ s) : r = r' := by
  cases mode with
  | halfUp => exact IsNearest.unique h h' hzero
  | floor => exact IsGreatest.unique h h'

/-! ## 2. The multiple that is rounded to

Counted in steps, multiples are integers, so the promise is kept if it is kept for integers: no
integer is nearer than the one that a mode gives, and none as near is further from zero. -/

/-- No integer is nearer to the number than the one it is rounded to; that other one may be as near
in a tie. -/
theorem abs_toInt_halfUp_sub_le_abs (q : Rat) (n : Int) :
    |(toInt .halfUp q : Rat) - q| ≤ |(n : Rat) - q| := by
  have hhalf := abs_toInt_halfUp_sub_le q
  rcases eq_or_ne n (toInt .halfUp q) with rfl | hne
  · exact le_rfl
  · -- any other integer is a whole unit away
    have hunit : (1 : Rat) ≤ |(n : Rat) - toInt .halfUp q| := by
      exact_mod_cast Int.one_le_abs (sub_ne_zero.2 hne)
    have htriangle := abs_sub_le (n : Rat) q (toInt .halfUp q)
    rw [abs_sub_comm q] at htriangle
    linarith

/-- From the middle between two integers, half up goes away from zero. -/
theorem abs_le_abs_toInt_halfUp {q : Rat} {n : Int}
    (h : |(n : Rat) - q| = |(toInt .halfUp q : Rat) - q|) : |n| ≤ |toInt .halfUp q| := by
  have hnonneg : ∀ {p : Rat} {m : Int}, 0 ≤ p → |(m : Rat) - p| = |(⌊p + 1 / 2⌋ : Rat) - p| →
      |m| ≤ |⌊p + 1 / 2⌋| := by
    intro p m hp hdistance
    obtain ⟨hlow, hhigh⟩ := floor_add_half_bounds p
    rcases abs_eq_abs.1 hdistance with hsame | hmirror
    · have heq : (m : Rat) = (⌊p + 1 / 2⌋ : Rat) := by linarith
      rw [Int.cast_injective heq]
    · -- the two lie on either side, and the one in front is above minus one
      have hlow' : ((-1 : Int) : Rat) < m := by push_cast; linarith
      have hnext : (m : Rat) < ((⌊p + 1 / 2⌋ + 1 : Int) : Rat) := by push_cast; linarith
      rw [Int.cast_lt] at hlow' hnext
      rw [abs_of_nonneg (by omega), abs_of_nonneg (by omega)]
      omega
  rw [toInt] at h ⊢
  split at h
  · next hneg =>
    rw [if_pos hneg]
    rw [abs_neg, ← abs_neg n]
    refine hnonneg (by linarith) ?_
    rw [← abs_neg, ← abs_neg ((⌊-q + 1 / 2⌋ : Rat) - -q)]
    convert h using 2 <;> push_cast <;> ring
  · next hpos =>
    rw [if_neg hpos]
    exact hnonneg (not_lt.1 hpos) h

variable {step : Rat} (hstep : 0 < step)
include hstep

theorem mul_step_sub (q : Rat) (n : Int) : |(n : Rat) * step - q| = |(n : Rat) - q / step| * step := by
  rw [← abs_of_pos hstep, ← abs_mul, abs_of_pos hstep, sub_mul, div_mul_cancel₀ _ hstep.ne']

/-- **Rounding to multiples keeps the promise** of each mode, for any positive step. -/
theorem rounds_toMultiple (mode : RoundingMode) (q : Rat) :
    mode.Rounds (AddSubgroup.zmultiples step) q (mode.toMultiple step q) := by
  have hmem : mode.toMultiple step q ∈ AddSubgroup.zmultiples step :=
    AddSubgroup.mem_zmultiples_iff.2 ⟨mode.toInt (q / step), zsmul_eq_mul _ _⟩
  cases mode with
  | halfUp =>
    refine ⟨hmem, ?_, ?_⟩
    · rintro _ ⟨n, rfl⟩
      simp only [zsmul_eq_mul, toMultiple, mul_step_sub hstep]
      exact mul_le_mul_of_nonneg_right (abs_toInt_halfUp_sub_le_abs _ n) hstep.le
    · rintro _ ⟨n, rfl⟩ hdistance
      simp only [zsmul_eq_mul, toMultiple, mul_step_sub hstep] at hdistance ⊢
      have hle := abs_le_abs_toInt_halfUp (mul_right_cancel₀ hstep.ne' hdistance)
      rw [abs_mul, abs_mul]
      exact mul_le_mul_of_nonneg_right (by exact_mod_cast hle) (abs_nonneg step)
  | floor =>
    refine ⟨⟨hmem, sub_nonneg.1 (toMultiple_floor_bounds hstep q).1⟩, ?_⟩
    rintro _ ⟨⟨n, rfl⟩, hle⟩
    simp only [zsmul_eq_mul, toMultiple] at hle ⊢
    refine mul_le_mul_of_nonneg_right (Int.cast_le.2 (Int.le_floor.2 ?_)) hstep.le
    exact (le_div_iff₀ hstep).2 hle

/-- **One number keeps the promise**: the multiple that is rounded to. -/
theorem rounds_iff {mode : RoundingMode} {q r : Rat} :
    mode.Rounds (AddSubgroup.zmultiples step) q r ↔ r = mode.toMultiple step q := by
  constructor
  · exact fun h => h.unique (rounds_toMultiple hstep mode q) (zero_mem _)
  · rintro rfl
    exact rounds_toMultiple hstep mode q

end RoundingMode

/-! ## 3. Rounding decimals

Numbers with a bounded number of decimals are the multiples of a power of ten, and a canonical
decimal is among them if it has no more digits.  The laws of rounding follow from the promise by its
uniqueness. -/

/-- The numbers with at most `decimals` digits behind the point: the multiples of the last one's
unit.  As a subgroup it contains zero and both signs. -/
def decimalMultiples (decimals : Nat) : AddSubgroup Rat := .zmultiples (10 ^ (-(decimals : Int)))

/-- To be such a number is to become whole when the point moves that far. -/
theorem mem_decimalMultiples {decimals : Nat} {q : Rat} :
    q ∈ decimalMultiples decimals ↔ ∃ m : Int, q * 10 ^ decimals = m := by
  have hpow : (10 : Rat) ^ decimals ≠ 0 := by positivity
  rw [decimalMultiples, AddSubgroup.mem_zmultiples_iff]
  refine exists_congr fun m => ?_
  rw [zsmul_eq_mul, zpow_neg, zpow_natCast, ← div_eq_mul_inv, div_eq_iff hpow, eq_comm]

theorem RoundingMode.rounds_iff_onRationals {mode : RoundingMode} {decimals : Nat} {q r : Rat} :
    mode.Rounds (decimalMultiples decimals) q r ↔ r = mode.onRationals decimals q := by
  rw [mode.onRationals_eq_toMultiple]
  exact RoundingMode.rounds_iff (by positivity)

namespace Decimal

variable {x y : Decimal} {mode : RoundingMode} {decimals : Nat} (hx : x.Canonical)
include hx

/-- The digits behind the point tell which multiples a decimal is among. -/
theorem Canonical.mem_decimalMultiples_iff : x.value ∈ decimalMultiples decimals ↔ x.scale ≤ decimals :=
  mem_decimalMultiples.trans hx.scale_le_iff.symm

/-- **One number keeps the promise**: the one that the digits are rounded to. -/
theorem rounds_iff_round {r : Rat} :
    mode.Rounds (decimalMultiples decimals) x.value r ↔ r = (round mode decimals x).value := by
  rw [RoundingMode.rounds_iff_onRationals, value_round hx]

theorem rounds_round :
    mode.Rounds (decimalMultiples decimals) x.value (round mode decimals x).value :=
  (rounds_iff_round hx).2 rfl

/-- What is rounded to `decimals` decimals has no more of them. -/
theorem scale_round_le : (round mode decimals x).scale ≤ decimals := by
  refine (round_canonical hx mode decimals).mem_decimalMultiples_iff.1 ?_
  have hrounds := @rounds_round x mode decimals hx
  cases mode with
  | halfUp => exact hrounds.mem
  | floor => exact hrounds.1.1

/-- **Rounding twice is rounding once**, since what was rounded has no more decimals than asked
for. -/
theorem round_round : round mode decimals (round mode decimals x) = round mode decimals x :=
  round_of_length_le (scale_round_le hx)

/-- **Rounding keeps the order.** -/
theorem value_round_mono (hy : y.Canonical) (h : x.value ≤ y.value) :
    (round mode decimals x).value ≤ (round mode decimals y).value := by
  rw [value_round hx, value_round hy, mode.onRationals_eq_toMultiple, mode.onRationals_eq_toMultiple]
  exact RoundingMode.toMultiple_mono (by positivity) mode h

end Decimal

/-! ## 4. Rounding number texts

A format writes the rounded number, with zeros behind it or not, so its text has no more digits
behind the point than the format keeps, and reads as the rounded number. -/

/-- The places of plain text are the digits of its fraction. -/
theorem Plain.WellFormed.places_toChars {p : Plain} (h : p.WellFormed) :
    NumberText.places (String.ofList p.toChars) = p.fraction.length := by
  have hpoint : ∀ c ∈ signChars p.negative ++ p.integer, (c == '.') = false := by
    intro c hc
    rw [beq_eq_false_iff_ne]
    rcases List.mem_append.1 hc with hc | hc
    · rintro rfl
      cases hsign : p.negative <;> simp [signChars, hsign] at hc
    · exact ne_of_isDigit (h.integer_digits c hc) rfl
  rw [NumberText.places, String.toList_ofList, toChars_eq, ← List.append_assoc,
    cutAt_pointChars hpoint, getD_behindPoint]

namespace NumberFormat

variable {f : NumberFormat} {x : Decimal} (hx : x.Canonical)
include hx

/-- **No format writes more decimals than it keeps.** -/
theorem places_render_le : NumberText.places (f.render x) ≤ f.decimals.toNat := by
  have hscale : (f.rounded x).fraction.length ≤ f.decimals.toNat := Decimal.scale_round_le hx
  have hwidth : f.width ≤ f.decimals.toNat := by
    unfold width
    split <;> omega
  rw [render_eq hx, ((rounded_canonical hx).plain_wellFormed _).places_toChars]
  simp only [Decimal.plain, Digits.toChars, List.length_map, List.rightpad, List.length_append,
    List.length_replicate]
  omega

/-- What is written is read as the rounded number, with the zeros that pad it and without. -/
theorem ofString_render : Decimal.ofString (f.render x) = .ok (f.rounded x) := by
  obtain ⟨y, hread, hy, hvalue⟩ := denotes_iff.1 (denotes_render (f := f) hx)
  rw [← value_rounded hx] at hvalue
  rw [← hy.ext_value (rounded_canonical hx) hvalue]
  exact hread

/-- **A text that was rounded is rounded to itself.** -/
theorem round_render : f.round (f.render x) = .ok (f.render x) := by
  have hrounded : f.rounded (f.rounded x) = f.rounded x := Decimal.round_round hx
  rw [round, ofString_render hx, Except.map, render_eq (rounded_canonical hx), hrounded,
    render_eq hx]

omit hx

/-- A number that has no more decimals is written as it is, if no zeros are put behind it. -/
theorem render_of_scale_le (hscale : x.scale ≤ f.decimals.toNat) (hpad : f.pad = false) :
    f.render x = x.toString := by
  rw [render, hpad, if_neg Bool.false_ne_true, Decimal.round_of_length_le hscale]

/-- A text that denotes a number is rounded as the canonical decimal of that number is. -/
theorem round_of_denotes {text : String} {q : Rat} (h : Denotes text.toList q) :
    ∃ x : Decimal, x.Canonical ∧ x.value = q ∧ Decimal.ofString text = .ok x ∧
      f.round text = .ok (f.render x) := by
  obtain ⟨x, hread, hx, hvalue⟩ := denotes_iff.1 h
  replace hread : Decimal.ofString text = .ok x := hread
  exact ⟨x, hx, hvalue, hread, by rw [round, hread]; rfl⟩

end NumberFormat

/-! ## 5. The promise

One theorem for decimals and for texts, with the promise on the right-hand side.  The laws are
stated beside it, so that they can be used without going back to it. -/

/-- **Rounding keeps its promise.**  A decimal is rounded to the multiple of the last decimal's unit that the
mode promises, half up to the nearest one and from the middle away from zero, floor to the greatest one that is
not larger, and to no other number; it has no more decimals than asked for, stays as it is if it had no more
before, and the order of decimals is kept.  The text of a number is rounded to a text that denotes this number,
with zeros behind it or not; if no more decimals are there, it is the canonical text, and rounding it again
changes nothing. -/
theorem rounding_keeps_its_promise :
    (∀ (mode : RoundingMode) (decimals : Nat) (x : Decimal), x.Canonical →
      (∀ r, mode.Rounds (decimalMultiples decimals) x.value r ↔
        r = (Decimal.round mode decimals x).value) ∧
      (Decimal.round mode decimals x).scale ≤ decimals ∧
      (x.scale ≤ decimals → Decimal.round mode decimals x = x) ∧
      Decimal.round mode decimals (Decimal.round mode decimals x) = Decimal.round mode decimals x ∧
      ∀ y : Decimal, y.Canonical → x.value ≤ y.value →
        (Decimal.round mode decimals x).value ≤ (Decimal.round mode decimals y).value) ∧
    ∀ (f : NumberFormat) (text : String) (q : Rat), Denotes text.toList q → ∃ result r,
      f.round text = .ok result ∧ Denotes result.toList r ∧
      (∀ r', f.mode.Rounds (decimalMultiples f.decimals.toNat) q r' ↔ r' = r) ∧
      NumberText.places result ≤ f.decimals.toNat ∧
      (∀ canonical, NumberText.canonicalize text = .ok canonical →
        NumberText.places canonical ≤ f.decimals.toNat →
          r = q ∧ (f.pad = false → result = canonical)) ∧
      f.round result = .ok result ∧
      ∀ (other : String) (q' : Rat), Denotes other.toList q' → q ≤ q' → ∃ result' r',
        f.round other = .ok result' ∧ Denotes result'.toList r' ∧ r ≤ r' := by
  constructor
  · intro mode decimals x hx
    exact ⟨fun r => Decimal.rounds_iff_round hx, Decimal.scale_round_le hx,
      Decimal.round_of_length_le, Decimal.round_round hx, fun y => Decimal.value_round_mono hx⟩
  · intro f text q h
    obtain ⟨x, hx, rfl, hread, hround⟩ := NumberFormat.round_of_denotes (f := f) h
    have hvalue := NumberFormat.value_rounded (f := f) hx
    refine ⟨f.render x, (f.rounded x).value, hround, ?_, ?_, NumberFormat.places_render_le hx, ?_,
      NumberFormat.round_render hx, ?_⟩
    · rw [hvalue]
      exact NumberFormat.denotes_render hx
    · exact fun r' => Decimal.rounds_iff_round hx
    · intro canonical hcanonical hplaces
      obtain ⟨y, hy, rfl⟩ := NumberText.canonicalize_eq_ok_iff.1 hcanonical
      obtain rfl : x = y := Except.ok.inj (hread.symm.trans hy)
      rw [NumberText.places_toString hx] at hplaces
      exact ⟨congrArg Decimal.value (Decimal.round_of_length_le hplaces),
        NumberFormat.render_of_scale_le hplaces⟩
    · intro other q' hother hle
      obtain ⟨y, hy, rfl, -, hround'⟩ := NumberFormat.round_of_denotes (f := f) hother
      refine ⟨f.render y, (f.rounded y).value, hround', ?_, Decimal.value_round_mono hx hy hle⟩
      rw [NumberFormat.value_rounded hy]
      exact NumberFormat.denotes_render hy

/-- From the middle away from zero, with a carry through every digit; and down from a negative number that is
almost zero, twice. -/
theorem rounding_keeps_its_promise_below_zero :
    (∀ r, RoundingMode.halfUp.Rounds (decimalMultiples 2) (-1999 / 200) r ↔ r = -10) ∧
    Decimal.round .halfUp 2 ⟨true, [9], [9, 9, 5]⟩ = ⟨true, [1, 0], []⟩ ∧
    (RoundingMode.floor.Rounds (decimalMultiples 2) (-1 / 1000) (-1 / 100) ∧
      NumberFormat.round ⟨2, false, .floor, ',', 3⟩ "-1e-3" = .ok "-0.01" ∧
      NumberFormat.round ⟨2, false, .floor, ',', 3⟩ "-0.01" = .ok "-0.01") := by
  obtain ⟨hdecimals, htexts⟩ := rounding_keeps_its_promise
  refine ⟨?_, by decide +kernel, ?_⟩
  · have hcanonical : Decimal.Canonical ⟨true, [9], [9, 9, 5]⟩ := by constructor <;> decide
    have hvalue : (⟨true, [9], [9, 9, 5]⟩ : Decimal).value = -1999 / 200 := by decide +kernel
    have hrounded : (Decimal.round .halfUp 2 ⟨true, [9], [9, 9, 5]⟩).value = -10 := by decide +kernel
    have hrounds := (hdecimals .halfUp 2 _ hcanonical).1
    rwa [hvalue, hrounded] at hrounds
  · have hdenotes : Denotes "-1e-3".toList (-1 / 1000) := denotes_of_ofString (by decide +kernel)
    obtain ⟨result, r, hround, hresult, hrounds, -, -, htwice, -⟩ :=
      htexts ⟨2, false, .floor, ',', 3⟩ "-1e-3" _ hdenotes
    obtain rfl : "-0.01" = result := Except.ok.inj (.trans (by decide +kernel) hround)
    obtain rfl : r = -1 / 100 := hresult.unique (denotes_of_ofString (by decide +kernel))
    exact ⟨(hrounds _).2 rfl, hround, htwice⟩

end DecimalCalc
