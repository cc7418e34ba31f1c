/-
# What a format writes, and what it hides

A number is written as plain text: a sign, digits, and a point with more digits behind it, zeros at
the end included where the format asks for them.  Grouping puts separators among the digits.  A
separator that is no part of a number occurs nowhere else, so erasing it leaves the plain text, and
the plain text denotes the rounded number, padded or not.

Plain text stands between decimals and what people are shown.  On one side it is written for a
decimal, with some zeros at the end, and denotes the value of it.  On the other side it is what
grouping accepts and what is left when separators are taken out.  A format therefore never fails on
a number, since what it renders is always plain, and what it writes can be read back, since clearing
gets to the plain text again.  Both hold with any number of zeros, so padding needs no separate
treatment.

* `Plain.WellFormed.ofChars?_toChars`: plain text is read back part by part;
* `Plain.WellFormed.filter_group`: what is left of a grouped text without the separators;
* `Decimal.Canonical.denotes_plain`: zeros behind the fraction do not change what a text denotes;
* `NumberFormat.render_eq`, `NumberFormat.denotes_render`: every format writes plain text, which
  denotes the rounded value;
* `NumberFormat.format_of_denotes`: formatting a number never fails, and clearing undoes the
  grouping.
-/
import DecimalCalc.Calculator.Config
import DecimalCalc.Proofs.Decimal.Rounding
import DecimalCalc.Proofs.NumberText.Canonicalize

namespace DecimalCalc

open Digits

/-! ## 1. Plain text

Well-formed parts are written one behind the other, and the reader finds each where it was put: the
minus sign at the front, and the point as the first one there is, since digits are no points. -/

namespace Plain

/-- The parts make up plain text: digits only, and at least one in front of the point.  The reader
returns such parts and no others. -/
structure WellFormed (p : Plain) : Prop where
  integer_ne_nil : p.integer ≠ []
  integer_digits : ∀ c ∈ p.integer, c.isDigit = true
  fraction_digits : ∀ c ∈ p.fraction, c.isDigit = true

/-- The text as sign, digits and what follows them, which is how it is taken apart. -/
theorem toChars_eq (p : Plain) :
    p.toChars = signChars p.negative ++ (p.integer ++ pointChars p.fraction) :=
  List.append_assoc _ _ _

/-- A text that begins with no minus sign is all that is left behind one. -/
theorem takeMinus_append (negative : Bool) {cs : List Char} (h : ∀ c ∈ cs.head?, c ≠ '-') :
    takeMinus (signChars negative ++ cs) = (negative, cs) := by
  cases negative with
  | true => rfl
  | false =>
    cases cs with
    | nil => rfl
    | cons c cs =>
      have hc := h c rfl
      simp [signChars, takeMinus, hc]

theorem ne_of_isDigit {c d : Char} (h : c.isDigit = true) (hd : d.isDigit = false) : c ≠ d := by
  rintro rfl
  rw [h] at hd
  cases hd

/-- The fraction behind the point, if there is a point.  No digits behind it and no point are the
same thing. -/
def behindPoint (fraction : List Char) : Option (List Char) :=
  if fraction.isEmpty then none else some fraction

theorem getD_behindPoint (fraction : List Char) : (behindPoint fraction).getD [] = fraction := by
  cases fraction <;> rfl

theorem behindPoint_ne_some_nil (fraction : List Char) : behindPoint fraction ≠ some [] := by
  cases fraction <;> simp [behindPoint]

theorem cutAt_pointChars {before : List Char} (h : ∀ c ∈ before, (c == '.') = false)
    (fraction : List Char) :
    Text.cutAt (· == '.') (before ++ pointChars fraction) = (before, behindPoint fraction) := by
  cases fraction with
  | nil =>
    rw [show pointChars [] = [] from rfl, List.append_nil]
    exact Text.cutAt_of_forall h
  | cons c cs => exact Text.cutAt_append h rfl

theorem filter_of_not_mem {separator : Char} {cs : List Char} (h : separator ∉ cs) :
    cs.filter (· != separator) = cs :=
  List.filter_eq_self.2 fun _ hc => bne_iff_ne.2 fun he => h (he ▸ hc)

/-- A point stays in front of a fraction that is grouped. -/
theorem filter_pointChars_groupChars {separator : Char} {fraction : List Char}
    (h : separator ∉ pointChars fraction) (size : Nat) :
    (pointChars (Text.groupChars separator size false fraction)).filter (· != separator) =
      pointChars fraction := by
  cases fraction with
  | nil => simp [Text.groupChars, pointChars]
  | cons c cs =>
    rw [pointChars, if_neg (by simp), List.mem_cons, not_or] at h
    have hgrouped := Text.filter_groupChars h.2 size false
    have hne : Text.groupChars separator size false (c :: cs) ≠ [] := by
      intro hnil
      rw [hnil] at hgrouped
      cases hgrouped
    have hkept : ('.' != separator) = true := bne_iff_ne.2 (Ne.symm h.1)
    rw [pointChars, if_neg (by simpa using hne), pointChars, if_neg (by simp), List.filter_cons,
      if_pos hkept, hgrouped]

namespace WellFormed

variable {p : Plain} (h : p.WellFormed)
include h

/-- **Plain text is read back part by part**, so the parts of a text are determined by it. -/
theorem ofChars?_toChars : ofChars? p.toChars = some p := by
  have hhead : ∀ c ∈ (p.integer ++ pointChars p.fraction).head?, c ≠ '-' := by
    intro c hc
    rw [List.head?_append_of_ne_nil _ h.integer_ne_nil] at hc
    exact ne_of_isDigit (h.integer_digits c (List.mem_of_mem_head? hc)) rfl
  have hpoint : ∀ c ∈ p.integer, (c == '.') = false := fun c hc =>
    beq_eq_false_iff_ne.2 (ne_of_isDigit (h.integer_digits c hc) rfl)
  have hempty : ¬ (behindPoint p.fraction = some [] ∨ p.integer.isEmpty = true) := by
    simpa [behindPoint_ne_some_nil] using h.integer_ne_nil
  have hdigits : (p.integer.all Char.isDigit && p.fraction.all Char.isDigit) = true :=
    Bool.and_eq_true_iff.2
      ⟨List.all_eq_true.2 h.integer_digits, List.all_eq_true.2 h.fraction_digits⟩
  rw [ofChars?, toChars_eq, takeMinus_append _ hhead]
  simp only [cutAt_pointChars hpoint, getD_behindPoint]
  rw [if_neg hempty, if_pos hdigits]

/-- Digits, the minus sign and the point are all there is. -/
theorem isNumberPart_of_mem {c : Char} (hc : c ∈ p.toChars) : Config.isNumberPart c = true := by
  have hdigit : c.isDigit = true → Config.isNumberPart c = true := by
    intro hc
    rw [Config.isNumberPart, hc, Bool.true_or, Bool.true_or]
  rw [toChars_eq] at hc
  rcases List.mem_append.1 hc with hc | hc
  · cases hsign : p.negative <;> simp [signChars, hsign] at hc
    rw [hc]
    rfl
  rcases List.mem_append.1 hc with hc | hc
  · exact hdigit (h.integer_digits c hc)
  · unfold pointChars at hc
    split at hc
    · cases hc
    · rcases List.mem_cons.1 hc with rfl | hc
      · rfl
      · exact hdigit (h.fraction_digits c hc)

theorem trim_toChars : Text.trim p.toChars = p.toChars := by
  refine Text.trim_of_forall fun c hc => ?_
  have hpart := h.isNumberPart_of_mem hc
  simp only [Config.isNumberPart, Bool.or_eq_true, beq_iff_eq] at hpart
  rcases hpart with (hdigit | rfl) | rfl
  · exact isBlank_of_isDigit hdigit
  · decide
  · decide

/-! ## 2. Clearing a grouped text

Erasing a separator of one character is filtering it out.  In the parts it occurs only where
grouping has put it, and grouping puts nothing else in. -/

/-- **Without the separators, a grouped text is the plain text**, for groups of any size and with
the fraction grouped or not. -/
theorem filter_group {separator : Char} (hseparator : Config.isNumberPart separator = false)
    (size : Nat) (groupFraction : Bool) :
    (p.group separator size groupFraction).toChars.filter (· != separator) = p.toChars := by
  have hmem : separator ∉ p.toChars := by
    intro hmem
    rw [h.isNumberPart_of_mem hmem] at hseparator
    cases hseparator
  rw [toChars_eq, List.mem_append, List.mem_append, not_or, not_or] at hmem
  obtain ⟨hsign, hinteger, hpoint⟩ := hmem
  rw [toChars_eq, toChars_eq, List.filter_append, List.filter_append]
  refine congrArg₂ (· ++ ·) (filter_of_not_mem hsign)
    (congrArg₂ (· ++ ·) (Text.filter_groupChars hinteger size true) ?_)
  cases groupFraction with
  | false => exact filter_of_not_mem hpoint
  | true => exact filter_pointChars_groupChars hpoint size

end WellFormed
end Plain

/-! ## 3. Decimals as plain text

A canonical decimal with zeros behind its fraction is still a spelling of its value.  If there is no
fraction and no zeros are asked for, there is no point either; this is the canonical text itself. -/

namespace Spelling

/-- The spelling with a point and zeros at the end of the fraction. -/
def padded (s : Spelling) (zeros : Nat) : Spelling :=
  { s with
    fraction := some (s.fractionDigits ++ List.replicate zeros 0)
    fraction_valid := by
      have hvalid : Valid s.fractionDigits := by
        cases hfraction : s.fraction with
        | none => simp [fractionDigits, hfraction, Valid]
        | some ds => simpa [fractionDigits, hfraction] using s.fraction_valid ds hfraction
      rintro ds ⟨⟩
      exact hvalid.append (valid_replicate_zero zeros)
    ne_nil := by
      refine s.ne_nil.imp id fun ⟨ds, hds, hne⟩ => ⟨_, rfl, ?_⟩
      rw [fractionDigits, hds]
      exact List.append_ne_nil_of_left_ne_nil hne _ }

/-- Zeros at the end of the fraction count for nothing. -/
theorem value_padded (s : Spelling) (zeros : Nat) : (s.padded zeros).value = s.value := by
  have hdigits : (s.padded zeros).fractionDigits = s.fractionDigits ++ List.replicate zeros 0 := rfl
  have hinteger : (s.padded zeros).integer = s.integer := rfl
  have hsign : (s.padded zeros).sign = s.sign := rfl
  have hexponent : (s.padded zeros).exponentValue = s.exponentValue := rfl
  rw [value, hdigits, hinteger, hsign, hexponent, ← List.append_assoc, toNat_append_zeros,
    List.length_append, List.length_replicate, pow_add, value]
  push_cast
  field_simp

end Spelling

namespace Decimal

/-- The parts of a decimal that is written with `width` fraction digits at least.  With width zero
these are the parts of the canonical text. -/
def plain (width : Nat) (x : Decimal) : Plain where
  negative := x.negative
  integer := x.integer.toChars
  fraction := Digits.toChars (x.fraction.rightpad width 0)

theorem toChars_rightpad (ds : Digits) (width : Nat) :
    Digits.toChars (ds.rightpad width 0) = ds.toChars.rightpad width '0' := by
  simp [Digits.toChars, List.rightpad, charOf]

theorem toChars_plain_zero (x : Decimal) : (x.plain 0).toChars = x.toChars := by
  simp [plain, Plain.toChars, Decimal.toChars, Digits.toChars]

theorem plain_fraction_ne_nil (x : Decimal) {width : Nat} (h : 0 < width) :
    (x.plain width).fraction ≠ [] := by
  intro hnil
  have hlength := congrArg List.length hnil
  simp only [plain, Digits.toChars, List.length_map, List.rightpad, List.length_append,
    List.length_replicate, List.length_nil] at hlength
  omega

namespace Canonical

variable {x : Decimal} (hx : x.Canonical) (width : Nat)
include hx

theorem plain_wellFormed : (x.plain width).WellFormed where
  integer_ne_nil := by simpa [plain, Digits.toChars] using hx.integer_ne_nil
  integer_digits := fun _ hc => isDigit_of_mem_toChars hx.integer_valid hc
  fraction_digits := fun _ hc => isDigit_of_mem_toChars (rightpad_valid hx.fraction_valid width) hc

/-- The point is found again in the canonical text, and zeros are put behind it. -/
theorem toCharsPadded_eq : x.toCharsPadded width = (x.plain width).toChars := by
  rcases Nat.eq_zero_or_pos width with rfl | hwidth
  · exact x.toChars_plain_zero.symm
  have hpoint : ∀ c ∈ signChars x.negative ++ x.integer.toChars, (c == '.') = false := by
    intro c hc
    rw [beq_eq_false_iff_ne]
    rcases List.mem_append.1 hc with hc | hc
    · rintro rfl
      cases hsign : x.negative <;> simp [signChars, hsign] at hc
    · exact Plain.ne_of_isDigit (isDigit_of_mem_toChars hx.integer_valid hc) rfl
  have htext : x.toChars =
      (signChars x.negative ++ x.integer.toChars) ++ pointChars x.fraction.toChars := by
    rw [Decimal.toChars, pointChars, Digits.toChars, Digits.toChars, List.isEmpty_map]
    rfl
  have hne := x.plain_fraction_ne_nil hwidth
  rw [toCharsPadded, if_neg hwidth.ne', htext]
  simp only [Plain.cutAt_pointChars hpoint, Plain.getD_behindPoint]
  rw [Plain.toChars_eq, pointChars, if_neg (by simpa using hne), ← List.append_assoc, plain,
    toChars_rightpad]

/-- The text with zeros is the text of the spelling with zeros, if there are any to be put. -/
theorem toChars_padded_spelling (h : x.fraction.length < width) :
    (hx.spelling.padded (width - x.fraction.length)).toChars = (x.plain width).toChars := by
  have hsign : hx.spelling.sign.toChars = signChars x.negative := by
    cases hnegative : x.negative <;> simp [spelling, SignMark.toChars, signChars, hnegative]
  have hne : (x.plain width).fraction ≠ [] := x.plain_fraction_ne_nil (Nat.zero_lt_of_lt h)
  have hfraction : (hx.spelling.padded (width - x.fraction.length)).fraction =
      some (x.fraction.rightpad width 0) := by
    rw [← hx.fractionDigits_spelling]
    rfl
  rw [Spelling.toChars, Spelling.mantissaChars, hfraction, Plain.toChars_eq, pointChars,
    if_neg (by simpa using hne)]
  exact congrArg₂ (· ++ ·) hsign (List.append_nil _)

/-- **A canonical decimal with zeros behind its fraction** still denotes its value, whatever the
width. -/
theorem denotes_plain : Denotes (x.plain width).toChars x.value := by
  rcases Nat.lt_or_ge x.fraction.length width with h | h
  · refine ⟨hx.spelling.padded (width - x.fraction.length), ?_, ?_⟩
    · rw [(hx.plain_wellFormed width).trim_toChars, hx.toChars_padded_spelling width h]
    · rw [Spelling.value_padded, hx.value_spelling]
  · -- there are digits enough, and the text is the canonical one
    have htext : (x.plain width).toChars = x.toString.toList := by
      rw [Decimal.toString, String.toList_ofList, ← toChars_plain_zero, plain, plain, List.rightpad,
        Nat.sub_eq_zero_of_le h, List.rightpad, Nat.zero_sub]
    rw [htext]
    exact denotes_toString hx

end Canonical
end Decimal

/-! ## 4. Formats

A format rounds the number, writes it as plain text of a certain width, and groups that.  Each of
the three steps is known by now, and none of them can fail. -/

namespace NumberFormat

/-- The fraction digits that a format writes at least. -/
def width (f : NumberFormat) : Nat := if f.pad then f.decimals.toNat else 0

/-- The number that a format writes, apart from how it is written. -/
def rounded (f : NumberFormat) (x : Decimal) : Decimal := x.round f.mode f.decimals.toNat

variable {f : NumberFormat} {x : Decimal} (hx : x.Canonical)
include hx

theorem rounded_canonical : (f.rounded x).Canonical := Decimal.round_canonical hx _ _

/-- The value of it is the value of the number, rounded as the format says. -/
theorem value_rounded : (f.rounded x).value = f.mode.onRationals f.decimals.toNat x.value :=
  Decimal.value_round hx _ _

/-- **Every format writes plain text.** -/
theorem render_eq : f.render x = String.ofList ((f.rounded x).plain f.width).toChars := by
  rw [render, width]
  split
  · exact congrArg String.ofList ((rounded_canonical hx).toCharsPadded_eq _)
  · exact congrArg String.ofList (Decimal.toChars_plain_zero _).symm

/-- **What is written denotes the rounded value.** -/
theorem denotes_render :
    Denotes (f.render x).toList (f.mode.onRationals f.decimals.toNat x.value) := by
  rw [render_eq hx, String.toList_ofList, ← value_rounded hx]
  exact (rounded_canonical hx).denotes_plain _

/-- Plain text is never refused by the grouping, so the text can be given outright. -/
theorem renderGrouped_eq : f.renderGrouped x = .ok (String.ofList
    (((f.rounded x).plain f.width).group f.separator f.groupSize.toNat false).toChars) := by
  rw [renderGrouped, formatBy, render_eq hx, String.toList_ofList,
    ((rounded_canonical hx).plain_wellFormed _).ofChars?_toChars]

/-- **Clearing undoes the grouping.** -/
theorem exists_renderGrouped (hseparator : Config.isNumberPart f.separator = false) :
    ∃ text, f.renderGrouped x = .ok text ∧
      clearSeparators text (String.singleton f.separator) = f.render x := by
  refine ⟨_, renderGrouped_eq hx, ?_⟩
  rw [clearSeparators, String.toList_singleton, String.toList_ofList, Text.erase_singleton,
    ((rounded_canonical hx).plain_wellFormed _).filter_group hseparator, render_eq hx]

omit hx

/-- **Formatting a number never fails**, clearing undoes the grouping, and what is left denotes the rounded
number. -/
theorem format_of_denotes {text : String} {q : Rat} (h : Denotes text.toList q)
    (hseparator : Config.isNumberPart f.separator = false) :
    ∃ formatted plain, f.format text = .ok formatted ∧ f.round text = .ok plain ∧
      clearSeparators formatted (String.singleton f.separator) = plain ∧
      Denotes plain.toList (f.mode.onRationals f.decimals.toNat q) := by
  obtain ⟨x, hread, hx, rfl⟩ := denotes_iff.1 h
  replace hread : Decimal.ofString text = .ok x := hread
  obtain ⟨formatted, hformatted, hcleared⟩ := exists_renderGrouped hx hseparator
  refine ⟨formatted, f.render x, ?_, ?_, hcleared, denotes_render hx⟩
  · rw [format, hread]
    exact hformatted
  · rw [round, hread]
    rfl

end NumberFormat
end DecimalCalc
