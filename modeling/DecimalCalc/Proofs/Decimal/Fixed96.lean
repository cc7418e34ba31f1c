/-
# Ninety-six bits, there and back

Nothing is lost on the way from the systems next door: a mantissa and a scale become the decimal of
the same value.  The way back goes through the canonical text, which they read with a reader of
their own.  Of that reader only this is relied on: it takes the canonical texts whose digits fit,
and gives their digits as they stand.

What is relied on is a structure, `ReadsCanonical`, and the theorems hold of every reader that
satisfies it.  It leaves open what the reader does with other texts and which errors it reports.
One reader that satisfies it is defined here, so that the assumption is seen to be one that can be
met.

That a number cannot go out is decided by its digits.  The canonical form has the least scale and,
with it, the least mantissa of its value, so if that pair does not fit, no other does, and a number
is never refused for the way it is written.

* `value_ofFixed96`: what comes in keeps its value;
* `Fixed96.ReadsCanonical`: what is relied on in a reader;
* `toFixed96_eq`: every such reader finds what `toFixed96?` finds without one;
* `scale_le_of_value_eq`: the canonical form has the least scale of its value;
* `fixed96_round_trips`: both ways, and what cannot go back.
-/
import DecimalCalc.Decimal.Fixed96
import DecimalCalc.Proofs.Format.Rendering

namespace DecimalCalc

open Digits

/-! ## 1. Readers

Canonical texts are plain texts, so a reader is described by what it does with the parts of plain
text: how many digits it takes, and which mantissa and scale it makes of them. -/

namespace Plain

/-- The digits on both sides of the point, as one run, for a mantissa. -/
def digits (p : Plain) : Digits := (p.integer ++ p.fraction).map digitOf

/-- All digits of plain text as one signed integer. -/
def mantissa (p : Plain) : Int := if p.negative then -(p.digits.toNat : Int) else p.digits.toNat

theorem natAbs_mantissa (p : Plain) : p.mantissa.natAbs = p.digits.toNat := by
  unfold mantissa
  split <;> simp

end Plain

namespace Fixed96

/-- What is relied on in a reader of decimals in ninety-six bits.  Nothing is said of texts that
are not canonical, nor of the errors; a reader may well round what does not fit, as long as that is
no canonical text whose digits do. -/
structure ReadsCanonical {ε : Type} (read : String → Except ε Fixed96) : Prop where
  /-- It takes exactly the canonical texts whose digits fit. -/
  accepts_iff : ∀ p : Plain, p.WellFormed → IsCanonicalText p.toChars →
    ((∃ d, read (String.ofList p.toChars) = .ok d) ↔
      p.fraction.length ≤ 28 ∧ p.digits.toNat ≤ maxMantissa)
  /-- It gives the digits as they stand. -/
  gives : ∀ p : Plain, p.WellFormed → IsCanonicalText p.toChars →
    ∀ d, read (String.ofList p.toChars) = .ok d → d.mantissa = p.mantissa ∧ d.scale = p.fraction.length

theorem make?_eq_some_iff {m : Int} {s : Nat} {d : Fixed96} :
    make? m s = some d ↔ d.mantissa = m ∧ d.scale = s := by
  obtain ⟨mantissa, scale, hmantissa, hscale⟩ := d
  simp only [make?, Option.dite_none_right_eq_some, Option.some.injEq, mk.injEq]
  constructor
  · rintro ⟨-, rfl, rfl⟩
    exact ⟨rfl, rfl⟩
  · rintro ⟨rfl, rfl⟩
    exact ⟨⟨hmantissa, hscale⟩, rfl, rfl⟩

theorem exists_make?_iff {m : Int} {s : Nat} :
    (∃ d, make? m s = some d) ↔ s ≤ 28 ∧ m.natAbs ≤ maxMantissa := by
  simp only [make?_eq_some_iff]
  constructor
  · rintro ⟨d, rfl, rfl⟩
    exact ⟨d.scale_le, d.mantissa_le⟩
  · rintro ⟨hscale, hmantissa⟩
    exact ⟨⟨m, s, hmantissa, hscale⟩, rfl, rfl⟩

/-- Reads plain text, in the least demanding way: whatever has few enough digits is taken. -/
def readPlain (text : String) : Except NumberError Fixed96 :=
  match (Plain.ofChars? text.toList).bind fun p => make? p.mantissa p.fraction.length with
  | some d => .ok d
  | none => .error .invalidNumber

theorem readPlain_eq_ok_iff {p : Plain} (hp : p.WellFormed) {d : Fixed96} :
    readPlain (String.ofList p.toChars) = .ok d ↔ make? p.mantissa p.fraction.length = some d := by
  rw [readPlain, String.toList_ofList, hp.ofChars?_toChars, Option.bind_some]
  cases make? p.mantissa p.fraction.length <;> simp

/-- There are such readers, so theorems about all of them are about something. -/
theorem readsCanonical_readPlain : ReadsCanonical readPlain where
  accepts_iff p hp _ := by
    simp only [readPlain_eq_ok_iff hp, exists_make?_iff, p.natAbs_mantissa]
  gives p hp _ d h := make?_eq_some_iff.1 ((readPlain_eq_ok_iff hp).1 h)

end Fixed96

namespace Decimal

/-! ## 2. Values

An integer over a power of ten is the value on both sides.  That the canonical form has the least
scale is that its fraction does not end in zero; that it has the least mantissa follows, as a larger
scale multiplies it. -/

theorem value_ofInt (n : Int) : (ofInt n).value = n := by
  rw [ofInt, value_ofDigits, toNat_ofNat, pow_zero, div_one]
  rcases lt_or_ge n 0 with h | h
  · rw [decide_eq_true h, sign_true, Nat.cast_natAbs, abs_of_neg h]
    push_cast
    ring
  · rw [decide_eq_false (not_lt.2 h), sign_false, Nat.cast_natAbs, abs_of_nonneg h, one_mul]

/-- **What comes in keeps its value**, and any zeros at the end of the mantissa are dropped with
the scale. -/
theorem value_ofFixed96 (d : Fixed96) : (ofFixed96 d).value = d.value := by
  rw [ofFixed96, value_shift, value_ofInt, zpow_neg, zpow_natCast, ← div_eq_mul_inv, Fixed96.value]

/-- The value of a decimal, as a mantissa over a power of ten. -/
theorem value_eq_mantissa_div (x : Decimal) : x.value = (x.mantissa : Rat) / 10 ^ x.scale := by
  have hmantissa : (x.mantissa : Rat) = sign x.negative * x.digits.toNat := by
    cases h : x.negative <;> simp [mantissa, h]
  rw [value_eq, hmantissa, scale, mul_div_assoc]

variable {x : Decimal}

/-- **The canonical form has the least scale** among all mantissas and scales of its value. -/
theorem scale_le_of_value_eq (hx : x.Canonical) {m : Int} {s : Nat}
    (h : (m : Rat) / 10 ^ s = x.value) : x.scale ≤ s :=
  hx.scale_le_iff.2 ⟨m, by rw [← h, div_mul_cancel₀ _ (by positivity)]⟩

/-- With the least scale goes the least mantissa, so a number that does not fit in this form fits
in none. -/
theorem digits_le_of_value_eq (hx : x.Canonical) {m : Int} {s : Nat}
    (h : (m : Rat) / 10 ^ s = x.value) : x.digits.toNat ≤ m.natAbs := by
  obtain ⟨k, rfl⟩ := Nat.exists_eq_add_of_le (scale_le_of_value_eq hx h)
  have habs : (m.natAbs : Rat) = x.digits.toNat * 10 ^ k := by
    have hvalue := congrArg (|·|) h
    rw [abs_div, abs_of_pos (show (0 : Rat) < 10 ^ (x.scale + k) by positivity), abs_value,
      div_eq_div_iff (by positivity) (by positivity), scale, pow_add] at hvalue
    rw [Nat.cast_natAbs, Int.cast_abs]
    have hpow : (10 : Rat) ^ x.fraction.length ≠ 0 := by positivity
    exact mul_right_cancel₀ hpow (by rw [hvalue]; ring)
  have hnat : m.natAbs = x.digits.toNat * 10 ^ k := by exact_mod_cast habs
  rw [hnat]
  exact Nat.le_mul_of_pos_right _ (by positivity)

theorem toFixed96?_eq_some_iff {d : Fixed96} :
    x.toFixed96? = some d ↔ d.mantissa = x.mantissa ∧ d.scale = x.scale :=
  Fixed96.make?_eq_some_iff

/-- A decimal that goes out in ninety-six bits keeps its value: the digits are the same, and the
scale says how many of them stand behind the point. -/
theorem value_of_toFixed96? {d : Fixed96} (h : x.toFixed96? = some d) : d.value = x.value := by
  obtain ⟨hmantissa, hscale⟩ := toFixed96?_eq_some_iff.1 h
  rw [Fixed96.value, hmantissa, hscale, value_eq_mantissa_div]

/-! ## 3. Reading the canonical text

The canonical text of a decimal is plain text with the digits of the decimal, so the reader's
promise applies to it.  What the reader finds is then what the digits say. -/

theorem map_digitOf_toChars {ds : Digits} (h : ds.Valid) : ds.toChars.map digitOf = ds := by
  rw [Digits.toChars, List.map_map]
  exact (List.map_congr_left fun d hd => digitOf_charOf (h d hd)).trans (List.map_id' ds)

theorem Canonical.mantissa_plain (hx : x.Canonical) : (x.plain 0).mantissa = x.mantissa := by
  have hdigits : (x.plain 0).digits = x.digits := by
    rw [Plain.digits, List.map_append, plain, List.rightpad, Nat.zero_sub, List.replicate_zero,
      List.append_nil, map_digitOf_toChars hx.integer_valid, map_digitOf_toChars hx.fraction_valid, digits]
  rw [Plain.mantissa, hdigits]
  rfl

variable {ε : Type} {read : String → Except ε Fixed96}

/-- **Every reader that can be relied on** finds in the text what is found without one. -/
theorem toFixed96_eq (hread : Fixed96.ReadsCanonical read) (hx : x.Canonical) :
    toFixed96 read x = x.toFixed96?.elim (.error .invalidNumber) .ok := by
  have hp := hx.plain_wellFormed 0
  have hcanonical : IsCanonicalText (x.plain 0).toChars := by
    rw [toChars_plain_zero]
    exact hx.isCanonicalText
  have hscale : (x.plain 0).fraction.length = x.scale := by
    simp [plain, Digits.toChars, scale]
  have htext : x.toString = String.ofList (x.plain 0).toChars := by
    rw [toChars_plain_zero, Decimal.toString]
  have haccepts := hread.accepts_iff _ hp hcanonical
  rw [hscale, ← Plain.natAbs_mantissa, hx.mantissa_plain, ← Fixed96.exists_make?_iff] at haccepts
  rw [toFixed96, htext]
  cases hresult : read (String.ofList (x.plain 0).toChars) with
  | error e =>
    have hnone : x.toFixed96? = none := by
      refine Option.eq_none_iff_forall_ne_some.2 fun d hd => ?_
      obtain ⟨d', hd'⟩ := haccepts.2 ⟨d, hd⟩
      rw [hresult] at hd'
      cases hd'
    rw [hnone]
    rfl
  | ok d =>
    obtain ⟨hmantissa, hscale'⟩ := hread.gives _ hp hcanonical d hresult
    rw [toFixed96?_eq_some_iff.2 ⟨hmantissa.trans hx.mantissa_plain, hscale'.trans hscale⟩]
    rfl

/-! ## 4. Both ways

The two directions are put together.  Coming in and going out again may lower the scale and change
nothing else; going out and coming in again changes nothing at all. -/

/-- What came from ninety-six bits goes back into them, since the canonical form needs no more
digits than what came in had. -/
theorem exists_toFixed96?_ofFixed96 (d : Fixed96) : ∃ e, (ofFixed96 d).toFixed96? = some e := by
  have hcanonical := ofFixed96_canonical d
  have hvalue : (d.mantissa : Rat) / 10 ^ d.scale = (ofFixed96 d).value := (value_ofFixed96 d).symm
  refine Fixed96.exists_make?_iff.2 ⟨?_, ?_⟩
  · exact (scale_le_of_value_eq hcanonical hvalue).trans d.scale_le
  · rw [natAbs_mantissa]
    exact (digits_le_of_value_eq hcanonical hvalue).trans d.mantissa_le

/-- **Nothing is lost on either way.**  Whatever mantissa and scale come in, the decimal has their value, and it
goes back with the same value and the least scale that any mantissa has it with.  A decimal that goes out comes
back as it was, and it cannot go out exactly when more than 28 digits stand behind its point or its digits make
up an integer of more than ninety-six bits. -/
theorem fixed96_round_trips (hread : Fixed96.ReadsCanonical read) :
    (∀ d : Fixed96, (ofFixed96 d).Canonical ∧ (ofFixed96 d).value = d.value ∧
      ∃ e, toFixed96 read (ofFixed96 d) = .ok e ∧ e.value = d.value ∧
        ∀ (m : Int) (s : Nat), (m : Rat) / 10 ^ s = d.value → e.scale ≤ s) ∧
    ∀ x : Decimal, x.Canonical →
      toFixed96 read x = x.toFixed96?.elim (.error .invalidNumber) .ok ∧
      (∀ d, toFixed96 read x = .ok d → ofFixed96 d = x) ∧
      (toFixed96 read x = .error .invalidNumber ↔ 28 < x.scale ∨ 2 ^ 96 - 1 < x.digits.toNat) := by
  constructor
  · intro d
    have hcanonical := ofFixed96_canonical d
    obtain ⟨e, he⟩ := exists_toFixed96?_ofFixed96 d
    refine ⟨hcanonical, value_ofFixed96 d, e, ?_, ?_, fun m s h => ?_⟩
    · rw [toFixed96_eq hread hcanonical, he]
      rfl
    · rw [value_of_toFixed96? he, value_ofFixed96]
    · rw [(toFixed96?_eq_some_iff.1 he).2]
      exact scale_le_of_value_eq hcanonical (h.trans (value_ofFixed96 d).symm)
  · intro x hx
    have heq := toFixed96_eq hread hx
    refine ⟨heq, fun d h => ?_, ?_⟩
    · rw [heq] at h
      cases hfound : x.toFixed96? with
      | none =>
        rw [hfound] at h
        cases h
      | some d' =>
        rw [hfound] at h
        obtain rfl := Except.ok.inj h
        refine (ofFixed96_canonical d').ext_value hx ?_
        rw [value_ofFixed96, value_of_toFixed96? hfound]
    · have hnone := @toFixed96?_eq_none_iff x
      rw [or_comm, show maxMantissa = 2 ^ 96 - 1 from rfl] at hnone
      rw [heq, ← hnone]
      cases x.toFixed96? <;> simp

/-- A mantissa that ends in zero loses a digit of its scale on the way back.  A tenth to the power of 28 goes out
and comes back, the next one does not, and one more than the largest integer of ninety-six bits does not either. -/
theorem fixed96_round_trips_at_bounds :
    Fixed96.ReadsCanonical Fixed96.readPlain ∧
    (∃ e, toFixed96 Fixed96.readPlain (ofFixed96 ⟨-79228162514264337593543950330, 28, by decide, by decide⟩) =
        .ok e ∧ e.value = -7922816251426433759354395033 / 10 ^ 27 ∧ e.scale ≤ 27) ∧
    ofFixed96 ⟨1, 28, by decide, by decide⟩ = one.shift (-28) ∧
    toFixed96 Fixed96.readPlain (one.shift (-29)) = .error .invalidNumber ∧
    toFixed96 Fixed96.readPlain (ofInt (2 ^ 96)) = .error .invalidNumber := by
  obtain ⟨hback, hout⟩ := fixed96_round_trips Fixed96.readsCanonical_readPlain
  refine ⟨Fixed96.readsCanonical_readPlain, ?_, ?_, ?_, ?_⟩
  · have hvalue : Fixed96.value ⟨-79228162514264337593543950330, 28, by decide, by decide⟩ =
        -7922816251426433759354395033 / 10 ^ 27 := by
      norm_num [Fixed96.value]
    obtain ⟨-, -, e, he, hsame, hleast⟩ := hback ⟨-79228162514264337593543950330, 28, by decide, by decide⟩
    refine ⟨e, he, hsame.trans hvalue, hleast (-7922816251426433759354395033) 27 ?_⟩
    rw [hvalue]
    norm_num
  · exact (hout _ (shift_canonical one_canonical _)).2.1 _ (by decide +kernel)
  · exact (hout _ (shift_canonical one_canonical _)).2.2.2 (.inl (by decide +kernel))
  · exact (hout _ (ofInt_canonical _)).2.2.2 (.inr (by decide +kernel))

end Decimal
end DecimalCalc
