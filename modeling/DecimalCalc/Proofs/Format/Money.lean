/-
# Amounts of money

An amount is counted in billions, in millions or as it is, and only then rounded.  So its scale
depends on the amount itself and not on what becomes of it, and amounts on either side of a
threshold are rounded to different steps.  Their order is kept nevertheless: a threshold is a
multiple of the step on either side, so neither side is rounded across it.

What a reader makes of a formatted amount is a number again, `reported`: the number that is shown,
counted in the unit that is shown behind it.  All statements on errors and order are about this
number, and it is tied to the text that is written by `money_reads_back_in_order`.  In one scale the
reported number is the amount rounded to multiples of one step, so what is known of such rounding
applies.  From scale to scale the order is carried over the threshold between them, which is
reported as itself in every scale that reaches up to it.

* `NumberFormat.renderMoney_eq`: what is written is the amount in its scale, and the ending of the
  scale;
* `NumberFormat.reportedIn_eq_toMultiple`: in one scale, amounts are rounded to multiples of one
  step;
* `NumberFormat.reportedIn_pow`: no scale moves a threshold at or above its unit;
* `NumberFormat.reported_mono`: the order is kept from scale to scale;
* `money_reads_back_in_order`: what a formatted amount denotes, how far it is off, and its order.
-/
import DecimalCalc.Proofs.Decimal.Multiples
import DecimalCalc.Proofs.Decimal.Order
import DecimalCalc.Proofs.Format.Rendering

namespace DecimalCalc

/-! ## 1. Scales

The three scales as a type of their own, each with its exponent and with what is written behind the
amount.  Which scale an amount has is decided by its magnitude, and a magnitude of just a unit does
not have that unit's scale. -/

/-- What an amount of money is counted in.  A scale of one has no suffix. -/
inductive MoneyScale where
  | ones
  | millions
  | billions
deriving DecidableEq, Repr

namespace MoneyScale

/-- The unit is this power of ten. -/
def exponent : MoneyScale → Nat
  | ones => 0
  | millions => 6
  | billions => 9

theorem exponent_injective {a b : MoneyScale} (h : a.exponent = b.exponent) : a = b := by
  cases a <;> cases b <;> first | rfl | cases h

/-- What is written behind the amount. -/
def ending : MoneyScale → String
  | ones => ""
  | millions => " mn"
  | billions => " bn"

/-- The largest unit that a magnitude exceeds, by comparing it with the thresholds from below. -/
def of (q : Rat) : MoneyScale :=
  if |q| ≤ 10 ^ 6 then ones else if |q| ≤ 10 ^ 9 then millions else billions

/-- The scale with the bounds that it was chosen for; proofs about scales split into these cases. -/
theorem of_cases (q : Rat) : (of q = ones ∧ |q| ≤ 10 ^ 6) ∨
    (of q = millions ∧ 10 ^ 6 < |q| ∧ |q| ≤ 10 ^ 9) ∨ (of q = billions ∧ 10 ^ 9 < |q|) := by
  unfold of
  split
  · next hlow => exact .inl ⟨rfl, hlow⟩
  split
  · next hlow hhigh => exact .inr (.inl ⟨rfl, not_le.1 hlow, hhigh⟩)
  · next hhigh => exact .inr (.inr ⟨rfl, not_le.1 hhigh⟩)

/-- A unit larger than that of the scale is not exceeded. -/
theorem abs_le_of_exponent_lt {q : Rat} {scale : MoneyScale}
    (h : (of q).exponent < scale.exponent) : |q| ≤ 10 ^ scale.exponent := by
  have hpow : (10 : Rat) ^ 6 ≤ 10 ^ 9 := by norm_num
  rcases of_cases q with ⟨hscale, hq⟩ | ⟨hscale, -, hq⟩ | ⟨hscale, -⟩ <;> rw [hscale] at h <;>
    cases scale
  case inl.millions => exact hq
  case inl.billions => exact hq.trans hpow
  case inr.inl.billions => exact hq
  all_goals exact absurd h (by decide)

/-- The unit of the scale is exceeded, unless it is one. -/
theorem lt_abs_of_pos {q : Rat} (h : 0 < (of q).exponent) : 10 ^ (of q).exponent < |q| := by
  rcases of_cases q with ⟨hscale, -⟩ | ⟨hscale, hq, -⟩ | ⟨hscale, hq⟩ <;> rw [hscale] at h ⊢
  · cases h
  · exact hq
  · exact hq

end MoneyScale

/-! ## 2. What is written

The program asks for billions first and for millions second.  Both questions are about the
magnitude of the value, so together they pick the scale, and what they lead to is one equation
for all three. -/

theorem AmountUnit.applies_iff (unit : AmountUnit) {x : Decimal} (hx : x.Canonical) :
    unit.applies x = true ↔ 10 ^ unit.exponent < |x.value| := by
  have hpos : (0 : Rat) < 10 ^ unit.exponent := by positivity
  rw [applies, beq_iff_eq,
    Decimal.compareMagnitude_eq_gt_iff hx (Decimal.shift_canonical Decimal.one_canonical _),
    Decimal.value_shift, Decimal.value_one, one_mul, zpow_natCast, abs_of_pos hpos]

namespace NumberFormat

variable {f : NumberFormat} {x : Decimal}

theorem renderIn_of_applies {unit : AmountUnit} (h : unit.applies x = true) :
    f.renderIn unit x = (f.renderGrouped (unit.count x)).map (· ++ (" " ++ unit.suffix)) := by
  rw [renderIn, if_pos h]
  simp only [String.append_assoc]

theorem renderIn_of_not_applies {unit : AmountUnit} (h : ¬ unit.applies x = true) :
    f.renderIn unit x = f.renderGrouped x :=
  if_neg h

/-- **What is written** is the amount, counted in its scale, and the ending of the scale.  Counting
in ones moves the point by nothing. -/
theorem renderMoney_eq (hx : x.Canonical) : f.renderMoney x =
    (f.renderGrouped (x.shift (-((MoneyScale.of x.value).exponent : Int)))).map
      (· ++ (MoneyScale.of x.value).ending) := by
  have hmillion : AmountUnit.million.applies x = true ↔ (10 : Rat) ^ 6 < |x.value| :=
    AmountUnit.applies_iff _ hx
  have hbillion : AmountUnit.billion.applies x = true ↔ (10 : Rat) ^ 9 < |x.value| :=
    AmountUnit.applies_iff _ hx
  have hpow : (10 : Rat) ^ 6 ≤ 10 ^ 9 := by norm_num
  rcases MoneyScale.of_cases x.value with ⟨hscale, hq⟩ | ⟨hscale, hlow, hhigh⟩ | ⟨hscale, hq⟩
  · have hcount : x.shift (-((MoneyScale.ones.exponent : Nat) : Int)) = x :=
      (Decimal.shift_canonical hx _).ext_value hx (by simp [Decimal.value_shift, MoneyScale.exponent])
    rw [renderMoney, if_neg fun h => (hbillion.1 h).not_ge (hq.trans hpow),
      renderIn_of_not_applies fun h => (hmillion.1 h).not_ge hq, hscale, hcount]
    cases f.renderGrouped x <;> simp [Except.map, MoneyScale.ending]
  · rw [renderMoney, if_neg fun h => (hbillion.1 h).not_ge hhigh,
      renderIn_of_applies (hmillion.2 hlow), hscale]
    rfl
  · rw [renderMoney, if_pos (hbillion.2 hq), renderIn_of_applies (hbillion.2 hq), hscale]
    rfl

/-- **A formatted amount reads back**: without separators and ending it denotes the amount in its scale,
rounded. -/
theorem exists_formatMoney (hseparator : Config.isNumberPart f.separator = false) {text : String}
    {q : Rat} (h : Denotes text.toList q) : ∃ amount,
      f.formatMoney text = .ok (amount ++ (MoneyScale.of q).ending) ∧
      Denotes (clearSeparators amount (String.singleton f.separator)).toList
        (f.mode.onRationals f.decimals.toNat
          (q * 10 ^ (-((MoneyScale.of q).exponent : Int)))) := by
  obtain ⟨x, hread, hx, rfl⟩ := denotes_iff.1 h
  replace hread : Decimal.ofString text = .ok x := hread
  have hcount := Decimal.shift_canonical hx (-((MoneyScale.of x.value).exponent : Int))
  obtain ⟨amount, hamount, hcleared⟩ := exists_renderGrouped (f := f) hcount hseparator
  refine ⟨amount, ?_, ?_⟩
  · show (Decimal.ofString text).bind f.renderMoney = _
    rw [hread, Except.bind, renderMoney_eq hx, hamount, Except.map]
  · rw [hcleared, ← Decimal.value_shift]
    exact denotes_render hcount

/-! ## 3. What is reported

The number that a reader takes from the text.  In one scale it is a multiple of the step of that
scale; across scales it is compared through thresholds. -/

/-- The amount that is reported when it is counted in the scale: rounded there, and counted in ones
again.  The scale need not be the amount's own. -/
def reportedIn (f : NumberFormat) (scale : MoneyScale) (q : Rat) : Rat :=
  f.mode.onRationals f.decimals.toNat (q * 10 ^ (-(scale.exponent : Int))) * 10 ^ scale.exponent

/-- The amount that is reported, in the scale that it selects. -/
def reported (f : NumberFormat) (q : Rat) : Rat := f.reportedIn (MoneyScale.of q) q

/-- One unit of the last decimal, in the scale: the distance between two amounts that can be told
apart in the text. -/
def step (f : NumberFormat) (scale : MoneyScale) : Rat :=
  10 ^ ((scale.exponent : Int) - f.decimals.toNat)

theorem step_pos (f : NumberFormat) (scale : MoneyScale) : 0 < f.step scale := by
  unfold step
  positivity

/-- **In one scale**, amounts are rounded to the multiples of one step. -/
theorem reportedIn_eq_toMultiple (f : NumberFormat) (scale : MoneyScale) (q : Rat) :
    f.reportedIn scale q = f.mode.toMultiple (f.step scale) q := by
  have hten : (10 : Rat) ≠ 0 := by norm_num
  have hstep : f.step scale = 10 ^ (-(f.decimals.toNat : Int)) * 10 ^ scale.exponent := by
    rw [step, sub_eq_neg_add, zpow_add₀ hten, zpow_natCast]
  have hcount : q * 10 ^ (-(scale.exponent : Int)) / 10 ^ (-(f.decimals.toNat : Int)) =
      q / f.step scale := by
    rw [hstep, zpow_neg, zpow_natCast, ← div_eq_mul_inv, div_div, mul_comm]
  rw [reportedIn, RoundingMode.onRationals_eq_toMultiple, RoundingMode.toMultiple, hcount, mul_assoc,
    ← hstep, RoundingMode.toMultiple]

/-- In one scale the order is kept, as rounding to multiples keeps it. -/
theorem reportedIn_mono (f : NumberFormat) (scale : MoneyScale) {p q : Rat} (h : p ≤ q) :
    f.reportedIn scale p ≤ f.reportedIn scale q := by
  rw [reportedIn_eq_toMultiple, reportedIn_eq_toMultiple]
  exact RoundingMode.toMultiple_mono (f.step_pos scale) _ h

/-- **No scale moves a threshold** at or above its unit, on either side of zero. -/
theorem reportedIn_pow (f : NumberFormat) {scale : MoneyScale} {k : Nat} (h : scale.exponent ≤ k)
    {n : Int} : f.reportedIn scale (n * 10 ^ k) = n * 10 ^ k := by
  have hten : (10 : Rat) ≠ 0 := by norm_num
  have hmultiple : (n : Rat) * 10 ^ k =
      ((n * 10 ^ (k - scale.exponent + f.decimals.toNat) : Int) : Rat) * f.step scale := by
    push_cast
    rw [mul_assoc, step, ← zpow_natCast, ← zpow_natCast, ← zpow_add₀ hten]
    congr 2
    omega
  rw [reportedIn_eq_toMultiple, hmultiple, RoundingMode.toMultiple_intCast_mul (f.step_pos scale)]

/-- A threshold between two amounts is between what is reported for them.  The threshold is
reported as itself in either scale. -/
theorem reported_le_of_threshold (f : NumberFormat) {p q : Rat} {n : Int} {k : Nat}
    (hp : (MoneyScale.of p).exponent ≤ k) (hq : (MoneyScale.of q).exponent ≤ k)
    (hle : p ≤ n * 10 ^ k) (hge : n * 10 ^ k ≤ q) : f.reported p ≤ f.reported q :=
  calc f.reported p ≤ f.reportedIn (MoneyScale.of p) (n * 10 ^ k) := f.reportedIn_mono _ hle
    _ = n * 10 ^ k := f.reportedIn_pow hp
    _ = f.reportedIn (MoneyScale.of q) (n * 10 ^ k) := (f.reportedIn_pow hq).symm
    _ ≤ f.reported q := f.reportedIn_mono _ hge

/-- **The order is kept**, whatever the scales are.  If they differ, a threshold lies between the
two amounts: the unit of the larger scale, above zero or below. -/
theorem reported_mono (f : NumberFormat) {p q : Rat} (h : p ≤ q) : f.reported p ≤ f.reported q := by
  rcases lt_trichotomy (MoneyScale.of p).exponent (MoneyScale.of q).exponent with hlt | heq | hgt
  · -- the amount in the larger unit is beyond it, and above zero, since it is the larger amount
    have hp := abs_le.1 (MoneyScale.abs_le_of_exponent_lt hlt)
    have hq : 10 ^ (MoneyScale.of q).exponent < q :=
      (lt_abs.1 (MoneyScale.lt_abs_of_pos (Nat.zero_lt_of_lt hlt))).resolve_right fun hneg => by
        linarith
    refine f.reported_le_of_threshold (n := 1) hlt.le le_rfl ?_ ?_
    · simpa using hp.2
    · simpa using hq.le
  · have hscale : MoneyScale.of p = MoneyScale.of q := MoneyScale.exponent_injective heq
    rw [reported, reported, hscale]
    exact f.reportedIn_mono _ h
  · -- and below zero, if it is the smaller one
    have hq := abs_le.1 (MoneyScale.abs_le_of_exponent_lt hgt)
    have hp : 10 ^ (MoneyScale.of p).exponent < -p :=
      (lt_abs.1 (MoneyScale.lt_abs_of_pos (Nat.zero_lt_of_lt hgt))).resolve_left fun hpos => by
        linarith
    refine f.reported_le_of_threshold (n := -1) le_rfl hgt.le ?_ ?_
    · simpa using (lt_neg.1 hp).le
    · simpa using hq.1

/-- **Half up is half a step off at most.** -/
theorem abs_reported_sub_le {f : NumberFormat} (h : f.mode = .halfUp) (q : Rat) :
    |f.reported q - q| ≤ 1 / 2 * f.step (MoneyScale.of q) := by
  rw [reported, reportedIn_eq_toMultiple, h]
  exact RoundingMode.abs_toMultiple_sub_le (f.step_pos _) q

/-- **Floor never reports too much**, and less than a step too little. -/
theorem reported_floor_bounds {f : NumberFormat} (h : f.mode = .floor) (q : Rat) :
    0 ≤ q - f.reported q ∧ q - f.reported q < f.step (MoneyScale.of q) := by
  rw [reported, reportedIn_eq_toMultiple, h]
  exact RoundingMode.toMultiple_floor_bounds (f.step_pos _) q

end NumberFormat

/-! ## 4. Reading an amount back

What a caller can rely on, for any configuration that passes validation.  The separator is known to
be no part of a number, so clearing it away leaves a number text. -/

/-- **Formatted amounts read back, in order.**  A valid format writes every amount in the scale that its
magnitude selects, followed by the ending of the scale; without the separators, what is written denotes the
amount in that scale, rounded as configured.  Counted in ones again, it is half a unit of the last decimal off
at most if halves go up, and less than one unit too low, never too high, if the mode is floor.  And it keeps
the order of the amounts, in one scale and from scale to scale. -/
theorem money_reads_back_in_order {c : Config} (hvalid : c.validate = .ok ()) :
    (∀ (text : String) (q : Rat), Denotes text.toList q → ∃ amount counted,
      c.format.formatMoney text = .ok (amount ++ (MoneyScale.of q).ending) ∧
      Denotes (clearSeparators amount (String.singleton c.format.separator)).toList counted ∧
      counted = c.format.mode.onRationals c.format.decimals.toNat
        (q * 10 ^ (-((MoneyScale.of q).exponent : Int))) ∧
      c.format.reported q = counted * 10 ^ (MoneyScale.of q).exponent) ∧
    (c.format.mode = .halfUp → ∀ q : Rat, |c.format.reported q - q| ≤
      1 / 2 * 10 ^ (((MoneyScale.of q).exponent : Int) - c.format.decimals.toNat)) ∧
    (c.format.mode = .floor → ∀ q : Rat, 0 ≤ q - c.format.reported q ∧
      q - c.format.reported q <
        10 ^ (((MoneyScale.of q).exponent : Int) - c.format.decimals.toNat)) ∧
    ∀ p q : Rat, p ≤ q → c.format.reported p ≤ c.format.reported q := by
  obtain ⟨-, -, hseparator⟩ := Config.validate_eq_ok_iff.1 hvalid
  refine ⟨?_, ?_, ?_, ?_⟩
  · intro text q h
    obtain ⟨amount, hamount, hdenotes⟩ := NumberFormat.exists_formatMoney hseparator h
    exact ⟨amount, _, hamount, hdenotes, rfl, rfl⟩
  · intro h q
    exact NumberFormat.abs_reported_sub_le h q
  · intro h q
    exact NumberFormat.reported_floor_bounds h q
  · intro p q h
    exact c.format.reported_mono h

/-- On either side of a million, which both amounts are rounded to. -/
theorem money_reads_back_in_order_at_million :
    (∃ amount, amount ++ " mn" = "1 mn" ∧
      Config.truncating.format.formatMoney "1009999.99" = .ok "1 mn" ∧
      Denotes (clearSeparators amount ",").toList 1 ∧
      Config.truncating.format.reported (100999999 / 100) = 1000000) ∧
    (0 ≤ (100999999 / 100 : Rat) - 1000000 ∧ (100999999 / 100 : Rat) - 1000000 < 10 ^ (6 - 2)) ∧
    |Config.financial.format.reported (-1004999) - -1004999| ≤ 1 / 2 * 10 ^ (6 - 2) ∧
    Config.financial.format.reported (-1004999) ≤
      Config.financial.format.reported (-999999999 / 1000) ∧
    Config.financial.format.reported (-999999999 / 1000) = -1000000 := by
  obtain ⟨hwritten, -, hfloor, -⟩ := money_reads_back_in_order Config.truncating_valid
  obtain ⟨-, hhalfUp, -, hmono⟩ := money_reads_back_in_order Config.financial_valid
  have hscale : MoneyScale.of (100999999 / 100) = .millions := by decide +kernel
  have hreported : Config.truncating.format.reported (100999999 / 100) = 1000000 := by
    decide +kernel
  refine ⟨?_, ?_, ?_, hmono _ _ (by norm_num), by decide +kernel⟩
  · have hdenotes : Denotes "1009999.99".toList (100999999 / 100) :=
      denotes_of_ofString (by decide +kernel)
    obtain ⟨amount, counted, hamount, hcounted, -, heq⟩ := hwritten _ _ hdenotes
    rw [hscale] at hamount heq
    have htext : Config.truncating.format.formatMoney "1009999.99" = .ok "1 mn" := by decide +kernel
    obtain rfl : counted = 1 := by
      rw [hreported] at heq
      norm_num [MoneyScale.exponent] at heq
      linarith
    exact ⟨amount, Except.ok.inj (hamount.symm.trans htext), htext, hcounted, hreported⟩
  · have hbounds := hfloor rfl (100999999 / 100)
    rw [hreported, hscale] at hbounds
    exact hbounds
  · have hscale : MoneyScale.of (-1004999) = .millions := by decide +kernel
    have hnear := hhalfUp rfl (-1004999)
    rw [hscale] at hnear
    exact hnear

end DecimalCalc
