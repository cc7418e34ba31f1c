/-
# Dividing number texts

The texts go through the division of decimals, so what it finds can be said of the numbers that the
texts denote.  One division holds up to its cap and one does not: by a power of ten the quotient
keeps every digit of the dividend.

The contract of a capped division carries over as it stands, since it speaks of values only.  What
texts add is that the number of digits behind the point can be counted on them, and so it can be
said for which operands the cap bounds that number.  The condition is on the two numbers alone and
has nothing to do with how they are spelled or through which entry point they are divided.  It fails
for a divisor as plain as one, and that case is exhibited.

* `divide_and_remainder_spec`: the texts of a division meet the contract of capped quotients;
* `places_divide_le_iff`: when a quotient has no more places than the cap allows.
-/
import DecimalCalc.Calculator.Basic
import DecimalCalc.Proofs.Decimal.Division
import DecimalCalc.Proofs.Decimal.Spelling

namespace DecimalCalc
namespace NumberText

open Decimal (CappedQuotient IsPowerOfTen)

/-! ## 1. Canonical texts

Two things are read off canonical texts here: how many digits stand behind the point, and whether
the number is zero.  Both are what the decimal says. -/

/-- The digits that a text has behind its point; none if it has no point. -/
def places (text : String) : Nat := ((Text.cutAt (· == '.') text.toList).2.getD []).length

theorem places_toString {x : Decimal} (hx : x.Canonical) : places x.toString = x.scale := by
  have hpoint : ∀ c ∈ (if x.negative then ['-'] else []) ++ x.integer.toChars,
      (c == '.') = false := by
    intro c hc
    rw [beq_eq_false_iff_ne]
    rintro rfl
    rcases List.mem_append.1 hc with hc | hc
    · cases hsign : x.negative <;> simp [hsign] at hc
    · exact absurd (isDigit_of_mem_toChars hx.integer_valid hc) (by decide)
  rw [places, Decimal.toString, String.toList_ofList, Decimal.toChars, Decimal.scale]
  cases hfraction : x.fraction with
  | nil =>
    rw [List.isEmpty_nil, if_pos rfl, List.append_nil, Text.cutAt_of_forall hpoint]
    rfl
  | cons d ds =>
    rw [List.isEmpty_cons, if_neg Bool.false_ne_true, Text.cutAt_append hpoint rfl]
    simp [Digits.toChars]

/-- Zero is written in one way only, so comparing a remainder with that text is a test for zero. -/
theorem toString_eq_zero_iff {x : Decimal} (hx : x.Canonical) : x.toString = "0" ↔ x.value = 0 := by
  rw [show "0" = Decimal.zero.toString from rfl, toString_eq_iff hx Decimal.zero_canonical,
    Decimal.value_zero]

/-! ## 2. The two divisions

Both entry points read their operands in the same order and divide in the same way, so their
quotients are one text.  The remainder comes along or does not. -/

/-- Operands that denote numbers are read, and as the canonical decimals of these. -/
theorem both_of_denotes {a b : String} {p q : Rat} (ha : Denotes a.toList p)
    (hb : Denotes b.toList q) : ∃ x y : Decimal, both a b = .ok (x, y) ∧
      x.Canonical ∧ y.Canonical ∧ x.value = p ∧ y.value = q := by
  obtain ⟨x, hx, hxc, hxv⟩ := denotes_iff.1 ha
  obtain ⟨y, hy, hyc, hyv⟩ := denotes_iff.1 hb
  refine ⟨x, y, ?_, hxc, hyc, hxv, hyv⟩
  rw [both, Decimal.ofString, hx, Decimal.ofString, hy]
  rfl

/-- Once the operands are read, the result is that of the division of decimals. -/
theorem divide_of_both {cap : Nat} {a b : String} {x y q : Decimal} (hboth : both a b = .ok (x, y))
    (h : Decimal.divide cap x y = .ok q) : divide cap a b = .ok q.toString := by
  rw [divide, hboth]
  simp only [bind, Except.bind, h]
  rfl

/-- **Division of number texts.**  A zero divisor is refused.  By any other the two divisions return
the same quotient, it meets the contract together with the remainder, and the remainder tells whether
it is exact. -/
theorem divide_and_remainder_spec {a b : String} {p q : Rat} (ha : Denotes a.toList p)
    (hb : Denotes b.toList q) (cap : Nat) :
    (q = 0 → divide cap a b = .error .divisionByZero ∧
      divideWithRemainder cap a b = .error .divisionByZero) ∧
    (q ≠ 0 → ∃ d : Decimal.Divided, CappedQuotient cap p q d ∧
      divide cap a b = .ok d.quotient.toString ∧
      divideWithRemainder cap a b = .ok (.ofDivided d) ∧
      ((Division.ofDivided d).isExact = true ↔ d.quotient.value * q = p)) := by
  obtain ⟨x, y, hboth, hx, hy, rfl, rfl⟩ := both_of_denotes ha hb
  constructor
  · intro h
    have hdivide := Decimal.divide_zero (x := x) h cap
    simp [divide, divideWithRemainder, hboth, bind, Except.bind, Decimal.divideWithRemainder,
      hdivide, Except.map]
  · intro h
    obtain ⟨d, hd, hquotient, hcontract, hexact⟩ := Decimal.exists_divided hx hy h cap
    refine ⟨d, hcontract, divide_of_both hboth hquotient, ?_, ?_⟩
    · rw [divideWithRemainder, hboth]
      simp only [bind, Except.bind, hd]
      rfl
    · rw [Division.isExact, Division.ofDivided, beq_iff_eq,
        toString_eq_zero_iff hcontract.remainder_canonical, hexact]

/-- A repeating quotient, and a zero divisor. -/
theorem divide_and_remainder_seventh :
    (∃ d : Decimal.Divided, CappedQuotient 5 (-1) 7 d ∧
      divide 5 "-1" "7" = .ok d.quotient.toString ∧
      divideWithRemainder 5 "-1" "7" = .ok (.ofDivided d) ∧
      ((Division.ofDivided d).isExact = true ↔ d.quotient.value * 7 = -1)) ∧
    divideWithRemainder 5 "-1" "0.0" = .error .divisionByZero := by
  have hone : Denotes "-1".toList (-1) := denotes_of_ofString (by decide +kernel)
  have hseven : Denotes "7".toList 7 := denotes_of_ofString (by decide +kernel)
  have hzero : Denotes "0.0".toList 0 := denotes_of_ofString (by decide +kernel)
  exact ⟨(divide_and_remainder_spec hone hseven 5).2 (by decide),
    ((divide_and_remainder_spec hone hzero 5).1 rfl).2⟩

/-- **Which quotients stay within the cap**: those by anything but a power of ten, and those by a power
of ten that come out even there.  It makes no difference who divides. -/
theorem places_divide_le_iff {a b : String} {p q : Rat} (ha : Denotes a.toList p)
    (hb : Denotes b.toList q) (hq : q ≠ 0) (cap : Nat) :
    ∃ quotient : Decimal, divide cap a b = .ok quotient.toString ∧
      (divideWithRemainder cap a b).map (·.quotient) = .ok quotient.toString ∧
      (∀ x y : Decimal, x.Canonical → y.Canonical → x.value = p → y.value = q →
        Decimal.divide cap x y = .ok quotient) ∧
      (∀ c : Calculator, c.cap = cap → (c.divide a b).result = .ok quotient.toString) ∧
      (places quotient.toString ≤ cap ↔
        ¬ IsPowerOfTen q ∨ ∃ m : Int, p / q * 10 ^ cap = m) := by
  obtain ⟨x, y, hboth, hx, hy, rfl, rfl⟩ := both_of_denotes ha hb
  obtain ⟨d, -, hquotient, hcontract, -⟩ := Decimal.exists_divided hx hy hq cap
  have hdivide := divide_of_both hboth hquotient
  refine ⟨d.quotient, hdivide, ?_, ?_, ?_, ?_⟩
  · rw [← divide_eq_quotient, hdivide]
  · intro u v hu hv huv hvv
    rw [hu.ext_value hx huv, hv.ext_value hy hvv, hquotient]
  · rintro c rfl
    rw [Calculator.divide_result, hdivide]
  · rw [places_toString hcontract.quotient_canonical, hcontract.scale_le_iff]

/-- By seven the digits end at the cap, by a hundred only if it leaves room for them. -/
theorem places_divide_le_seven_and_hundred :
    (∃ quotient : Decimal, divide 2 "0.5" "7" = .ok quotient.toString ∧
      places quotient.toString ≤ 2) ∧
    ∃ quotient : Decimal, divide 2 "0.5" "100" = .ok quotient.toString ∧
      ¬ places quotient.toString ≤ 2 := by
  have hhalf : Denotes "0.5".toList (1 / 2) := denotes_of_ofString (by decide +kernel)
  have hseven : Denotes "7".toList 7 := denotes_of_ofString (by decide +kernel)
  have hhundred : Denotes "100".toList 100 :=
    denotes_of_ofString (by decide +kernel)
  constructor
  · obtain ⟨quotient, hdivide, -, -, -, hplaces⟩ :=
      places_divide_le_iff hhalf hseven (by decide) 2
    have hpow : ¬ IsPowerOfTen 7 := by
      have hread : Decimal.ofString "7" = .ok ⟨false, [7], []⟩ := by decide
      have hvalue : (⟨false, [7], []⟩ : Decimal).value = 7 := by decide +kernel
      have hnone := (Decimal.powerOfTen?_eq_none_iff (Decimal.parse_canonical hread)).1 (by decide)
      rwa [hvalue] at hnone
    exact ⟨quotient, hdivide, hplaces.2 (.inl hpow)⟩
  · obtain ⟨quotient, hdivide, -, -, -, hplaces⟩ :=
      places_divide_le_iff hhalf hhundred (by decide) 2
    refine ⟨quotient, hdivide, fun hle => ?_⟩
    rcases hplaces.1 hle with hpow | ⟨m, hm⟩
    · exact hpow ⟨2, by norm_num⟩
    · norm_num at hm
      have : (2 * m : Rat) = 1 := by linarith
      have : 2 * m = 1 := by exact_mod_cast this
      omega

/-- **The cap is not kept by every division**: by one, a quotient keeps all digits. -/
theorem not_forall_places_divide_le :
    ¬ ∀ (a b quotient : String) (p q : Rat) (cap : Nat), Denotes a.toList p →
      Denotes b.toList q → q ≠ 0 → divide cap a b = .ok quotient → places quotient ≤ cap := by
  intro h
  have hdividend : Denotes "0.12345".toList (12345 / 100000) :=
    denotes_of_ofString (by decide +kernel)
  have hone : Denotes "1".toList 1 := denotes_of_ofString (by decide +kernel)
  have hdivide : divide 2 "0.12345" "1" = .ok "0.12345" := by decide
  exact absurd (h _ _ _ _ _ _ hdividend hone one_ne_zero hdivide) (by decide)

end NumberText
end DecimalCalc
