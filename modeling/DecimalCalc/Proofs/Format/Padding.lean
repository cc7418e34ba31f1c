/-
# Zeros behind the fraction

Padding works on the text of a number that was rounded before, and it never cuts.  So a padded text
is as wide as it should be only because rounding leaves no digit too many, whether it carried or
came down to zero; and it begins with a minus sign only if the rounded number still has one.

Both are read off the parts of the text.  What a format writes is plain text whose parts are known:
the integer digits of the rounded number, and its fraction filled up.  The width of the fraction is
then a maximum of two numbers of which rounding makes the first the smaller, and the sign is the
sign of the rounded number, which is canonical and has none if it is zero.  That canonicalising
takes the zeros away again is clear from values, since zeros behind the fraction do not change what
a text denotes.

* `WritesDecimals`: a text with exactly so many digits behind its point;
* `Plain.WellFormed.writesDecimals`, `Plain.WellFormed.head?_toChars_eq_minus_iff`: width and sign
  of plain text;
* `NumberFormat.length_fraction_padded`: the width of what a padding format writes;
* `NumberFormat.canonicalize_render`: canonicalising takes the zeros away again;
* `padding_is_exact`: all of it, with rounding to a fixed number of decimals as a case.
-/
import DecimalCalc.Proofs.Format.Rounding

namespace DecimalCalc

/-! ## 1. The width of a text

The width is described on the characters of the text, with no mention of a decimal, so that it says
what a reader sees.  Plain text has the width of its fraction and the sign of its parts. -/

/-- Exactly so many digits stand behind the point of a text; no digits, no point. -/
structure WritesDecimals (decimals : Nat) (cs : List Char) : Prop where
  no_point : decimals = 0 → '.' ∉ cs
  digits : 0 < decimals → ∃ front fraction, cs = front ++ '.' :: fraction ∧ '.' ∉ front ∧
    fraction.length = decimals ∧ ∀ c ∈ fraction, c.isDigit = true

namespace Plain.WellFormed

variable {p : Plain} (h : p.WellFormed)
include h

/-- In front of the point of plain text stand digits and perhaps a minus sign, so the first point
is the point. -/
theorem not_mem_front : '.' ∉ signChars p.negative ++ p.integer := by
  intro hmem
  rcases List.mem_append.1 hmem with hmem | hmem
  · cases hsign : p.negative <;> simp [signChars, hsign] at hmem
  · exact ne_of_isDigit (h.integer_digits _ hmem) rfl rfl

/-- **Plain text writes the digits of its fraction**, and no point without them. -/
theorem writesDecimals : WritesDecimals p.fraction.length p.toChars where
  no_point hzero := by
    rw [toChars_eq, pointChars, List.length_eq_zero_iff.1 hzero, ← List.append_assoc,
      if_pos List.isEmpty_nil, List.append_nil]
    exact h.not_mem_front
  digits hpos := by
    refine ⟨signChars p.negative ++ p.integer, p.fraction, ?_, h.not_mem_front, rfl, h.fraction_digits⟩
    have hne : ¬ p.fraction.isEmpty = true := by
      rw [List.isEmpty_iff]
      exact List.ne_nil_of_length_pos hpos
    rw [toChars_eq, pointChars, if_neg hne, List.append_assoc]

/-- Plain text begins with a minus sign only if that sign is among its parts, since digits come
next. -/
theorem head?_toChars_eq_minus_iff : p.toChars.head? = some '-' ↔ p.negative = true := by
  rw [toChars_eq]
  cases p.negative with
  | true => simp [signChars]
  | false =>
    -- the first character is a digit then
    rw [show signChars false = [] from rfl, List.nil_append,
      List.head?_append_of_ne_nil _ h.integer_ne_nil]
    refine iff_of_false (fun hminus => ?_) Bool.false_ne_true
    exact ne_of_isDigit (h.integer_digits _ (List.mem_of_mem_head? hminus)) rfl rfl

end Plain.WellFormed

/-! ## 2. Formats that pad

A format that pads is compared with the same one that does not.  They round alike and differ in the
zeros at the end; both write plain text. -/

namespace NumberFormat

variable {f : NumberFormat} {x : Decimal} (hx : x.Canonical)
include hx

/-- **The width of what a padding format writes** is the number of decimals: rounding leaves no more of them. -/
theorem length_fraction_padded (hpad : f.pad = true) :
    ((f.rounded x).plain f.width).fraction.length = f.decimals.toNat := by
  have hscale : (f.rounded x).fraction.length ≤ f.decimals.toNat := Decimal.scale_round_le hx
  have hwidth : f.width = f.decimals.toNat := by rw [width, if_pos hpad]
  rw [hwidth]
  exact (List.length_map _).trans (Decimal.length_rightpad_of_le hscale)

theorem writesDecimals_render (hpad : f.pad = true) :
    WritesDecimals f.decimals.toNat (f.render x).toList := by
  rw [render_eq hx, String.toList_ofList, ← length_fraction_padded hx hpad]
  exact ((rounded_canonical hx).plain_wellFormed _).writesDecimals

/-- **Zero has no sign**: a minus sign stands in front of what is below zero after the rounding. -/
theorem head?_render_eq_minus_iff :
    (f.render x).toList.head? = some '-' ↔ (f.rounded x).value < 0 := by
  rw [render_eq hx, String.toList_ofList,
    ((rounded_canonical hx).plain_wellFormed _).head?_toChars_eq_minus_iff]
  exact (rounded_canonical hx).negative_iff

/-- **Canonicalising takes the zeros away again.** -/
theorem canonicalize_render :
    NumberText.canonicalize (f.render x) = .ok (render { f with pad := false } x) :=
  NumberText.canonicalize_eq_ok_iff.2 ⟨f.rounded x, ofString_render hx, rfl⟩

omit hx

/-- Writing with a fixed number of decimals is what a format does that pads and rounds half up. -/
theorem render_eq_toFixed (hpad : f.pad = true) (hmode : f.mode = .halfUp) :
    f.render x = x.toFixed f.decimals.toNat := by
  rw [render, if_pos hpad, hmode, Decimal.toFixed]

end NumberFormat

/-! ## 3. Number texts

The statements about formats hold of number texts once these are read.  Writing with a fixed number
of decimals takes no format, and is shown to be the case of one. -/

/-- **Padding is exact.**  Every number is rounded to a text with exactly as many digits behind its point as the
format has decimals.  Canonicalised, it is the text that is found without padding.  It begins with a minus sign
exactly if the number that the mode promises is below zero, so there is no negative zero.  A decimal that is
written with a fixed number of decimals is written as any text of its value is by a format that pads and rounds
half up. -/
theorem padding_is_exact :
    (∀ (f : NumberFormat) (text : String) (q : Rat), Denotes text.toList q → ∃ padded unpadded r,
      NumberFormat.round { f with pad := true } text = .ok padded ∧
      NumberFormat.round { f with pad := false } text = .ok unpadded ∧
      WritesDecimals f.decimals.toNat padded.toList ∧
      NumberText.canonicalize padded = .ok unpadded ∧
      f.mode.Rounds (decimalMultiples f.decimals.toNat) q r ∧
      (padded.toList.head? = some '-' ↔ r < 0)) ∧
    ∀ (x : Decimal), x.Canonical → ∀ (f : NumberFormat), f.pad = true → f.mode = .halfUp →
      ∀ text : String, Denotes text.toList x.value → f.round text = .ok (x.toFixed f.decimals.toNat) := by
  constructor
  · intro f text q h
    obtain ⟨x, hx, rfl, hread, -⟩ := NumberFormat.round_of_denotes (f := f) h
    have hround (g : NumberFormat) : g.round text = .ok (g.render x) := by
      rw [NumberFormat.round, hread]
      rfl
    refine ⟨_, _, (f.rounded x).value, hround _, hround _, ?_, ?_, Decimal.rounds_round hx, ?_⟩
    · exact NumberFormat.writesDecimals_render (f := { f with pad := true }) hx rfl
    · exact NumberFormat.canonicalize_render (f := { f with pad := true }) hx
    · exact NumberFormat.head?_render_eq_minus_iff (f := { f with pad := true }) hx
  · intro x hx f hpad hmode text h
    obtain ⟨y, hy, hvalue, -, hround⟩ := NumberFormat.round_of_denotes (f := f) h
    rw [hround, hy.ext_value hx hvalue, NumberFormat.render_eq_toFixed hpad hmode]

/-- Almost nothing below zero, rounded to zero and down; and a carry through every digit. -/
theorem padding_is_exact_around_zero :
    (∃ r, RoundingMode.halfUp.Rounds (decimalMultiples 2) (-1 / 250) r ∧ ¬ r < 0 ∧
      NumberFormat.round ⟨2, true, .halfUp, ',', 3⟩ "-4e-3" = .ok "0.00") ∧
    (∃ r, RoundingMode.floor.Rounds (decimalMultiples 2) (-1 / 250) r ∧ r < 0 ∧
      NumberFormat.round ⟨2, true, .floor, ',', 3⟩ "-4e-3" = .ok "-0.01") ∧
    NumberFormat.round ⟨2, true, .halfUp, ',', 3⟩ "-9.995" =
      .ok (Decimal.toFixed 2 ⟨true, [9], [9, 9, 5]⟩) ∧
    Decimal.toFixed 2 ⟨true, [9], [9, 9, 5]⟩ = "-10.00" := by
  obtain ⟨htexts, hfixed⟩ := padding_is_exact
  have hdenotes : Denotes "-4e-3".toList (-1 / 250) := denotes_of_ofString (by decide +kernel)
  refine ⟨?_, ?_, ?_, by decide +kernel⟩
  · obtain ⟨padded, -, r, hround, -, -, -, hrounds, hminus⟩ :=
      htexts ⟨2, true, .halfUp, ',', 3⟩ "-4e-3" _ hdenotes
    obtain rfl : "0.00" = padded := Except.ok.inj (.trans (by decide +kernel) hround)
    exact ⟨r, hrounds, fun hlt => absurd (hminus.2 hlt) (by decide), hround⟩
  · obtain ⟨padded, -, r, hround, -, -, -, hrounds, hminus⟩ :=
      htexts ⟨2, true, .floor, ',', 3⟩ "-4e-3" _ hdenotes
    obtain rfl : "-0.01" = padded := Except.ok.inj (.trans (by decide +kernel) hround)
    exact ⟨r, hrounds, hminus.1 (by decide), hround⟩
  · have hcanonical : Decimal.Canonical ⟨true, [9], [9, 9, 5]⟩ := by constructor <;> decide
    exact hfixed _ hcanonical ⟨2, true, .halfUp, ',', 3⟩ rfl rfl "-9.995"
      (denotes_of_ofString (by decide +kernel))

end DecimalCalc
