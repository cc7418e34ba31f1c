/-
# How numbers may be spelled

A spelling is what a number text says, part by part: a sign, digits around a point, an exponent.
`Spelling.toChars` writes it down and `Spelling.value` is the rational number it stands for, so the
texts of numbers and what they denote are given without reading anything.

The structure carries its own well-formedness: its digits are digits, its exponent is within the
bound, and there is a digit in the mantissa.  So every value of the type is a number text, and
`Denotes` is the grammar of number texts together with its meaning.  The reader is then compared
with it in both directions.  Every spelling is read, since each step of the reader finds the part
that was written; and whatever is read is a spelling, since each step gives back what it took.

Texts that are not read fall in two.  All of them are refused as no number but those whose exponent
is the least word of the machine, where the program stops.  That condition is described by the
characters of the text as well, so that a theorem can exclude these texts or name them.

* `parse_spelling`: every spelling is read, as the canonical decimal of its value;
* `exists_spelling`: whatever is read is a spelling;
* `denotes_iff`: so a text is read exactly when it denotes a number, and as that number;
* `parse_eq_overflow_iff`: where reading stops the program instead;
* `denotes_toString`: what is written denotes the number it was written for.
-/
import DecimalCalc.Decimal.Numeral
import DecimalCalc.Proofs.Decimal.Canonical

namespace DecimalCalc

open Digits

/-! ## 1. Spellings

The parts of a number text, each with the characters it is written with and what it contributes to
the value.  Nothing is optional but what may be left out of the text. -/

/-- A sign that may be left out.  Leaving it out and writing a plus sign mean the same, but are
different texts. -/
inductive SignMark where
  | absent
  | plus
  | minus
deriving DecidableEq, Repr

namespace SignMark

def toChars : SignMark → List Char
  | .absent => []
  | .plus => ['+']
  | .minus => ['-']

/-- Only a minus sign counts. -/
def negative : SignMark → Bool
  | .minus => true
  | _ => false

end SignMark

/-- An exponent: `e` or `E`, a sign and at least one digit.  There may be any number of zeros in
front of the digits that count. -/
structure ExponentPart where
  capital : Bool
  sign : SignMark
  digits : Digits
  valid : digits.Valid
  ne_nil : digits ≠ []
  le_max : digits.toNat ≤ maxExponent

namespace ExponentPart

def toChars (e : ExponentPart) : List Char :=
  (if e.capital then 'E' else 'e') :: (e.sign.toChars ++ e.digits.toChars)

def value (e : ExponentPart) : Int := if e.sign.negative then -e.digits.toNat else e.digits.toNat

end ExponentPart

/-- The parts of a number text.  No fraction means no point; one side of the point may be empty,
and a point with nothing on either side is no number. -/
structure Spelling where
  sign : SignMark
  integer : Digits
  fraction : Option Digits
  exponent : Option ExponentPart
  integer_valid : integer.Valid
  fraction_valid : ∀ ds ∈ fraction, Digits.Valid ds
  ne_nil : integer ≠ [] ∨ ∃ ds ∈ fraction, ds ≠ []

namespace Spelling

/-- The digits behind the point. -/
def fractionDigits (s : Spelling) : Digits := s.fraction.getD []

/-- The digits with the point, if there is one: everything between the sign and the exponent. -/
def mantissaChars (s : Spelling) : List Char :=
  s.integer.toChars ++ (s.fraction.elim [] fun ds => '.' :: ds.toChars)

def toChars (s : Spelling) : List Char :=
  s.sign.toChars ++ (s.mantissaChars ++ s.exponent.elim [] ExponentPart.toChars)

def exponentValue (s : Spelling) : Int := s.exponent.elim 0 ExponentPart.value

/-- The rational number a spelling stands for: its digits as an integer, over a power of ten for
the point, times another for the exponent, with the sign. -/
def value (s : Spelling) : Rat :=
  Decimal.sign s.sign.negative *
    ((toNat (s.integer ++ s.fractionDigits) : Rat) / 10 ^ s.fractionDigits.length) *
      10 ^ s.exponentValue

end Spelling

/-- The text, between blanks, is a spelling of the number.  This is what all theorems about number
texts are stated with. -/
def Denotes (cs : List Char) (q : Rat) : Prop :=
  ∃ s : Spelling, Text.trim cs = s.toChars ∧ s.value = q

/-! ## 2. Every spelling is read

The reader takes the sign, cuts the text at the mark and the mantissa at the point.  In the text of
a spelling each of the three is found where it was put, as no part in front of it holds such a
character. -/

theorem isDigit_of_mem_toChars {ds : Digits} (h : ds.Valid) {c : Char} (hc : c ∈ ds.toChars) :
    c.isDigit = true := by
  obtain ⟨d, hd, rfl⟩ := List.mem_map.1 hc
  exact isDigit_charOf (h d hd)

/-- A text that begins with no sign is all that is left behind one.  The condition is needed, since
a second sign would be taken for the first one if that is left out. -/
theorem takeSign_append (sign : SignMark) {cs : List Char}
    (h : ∀ c ∈ cs.head?, c ≠ '+' ∧ c ≠ '-') :
    Numeral.takeSign (sign.toChars ++ cs) = (sign.negative, cs) := by
  cases sign with
  | plus => rfl
  | minus => rfl
  | absent =>
    cases cs with
    | nil => rfl
    | cons c cs =>
      have hc := h c rfl
      simp [SignMark.toChars, SignMark.negative, Numeral.takeSign, hc.1, hc.2]

/-- Digits and points only, and therefore no sign and no mark. -/
theorem Spelling.mem_mantissaChars {s : Spelling} {c : Char} (hc : c ∈ s.mantissaChars) :
    c.isDigit = true ∨ c = '.' := by
  rcases List.mem_append.1 hc with hc | hc
  · exact .inl (isDigit_of_mem_toChars s.integer_valid hc)
  · cases hfraction : s.fraction with
    | none => simp [hfraction] at hc
    | some ds =>
      rw [hfraction, Option.elim_some] at hc
      rcases List.mem_cons.1 hc with rfl | hc
      · exact .inr rfl
      · exact .inl (isDigit_of_mem_toChars (s.fraction_valid ds hfraction) hc)

theorem Spelling.mantissaChars_ne_nil (s : Spelling) : s.mantissaChars ≠ [] := by
  intro h
  rw [mantissaChars, List.append_eq_nil_iff, Digits.toChars, List.map_eq_nil_iff] at h
  rcases s.ne_nil with hne | ⟨ds, hds, -⟩
  · exact hne h.1
  · rw [hds] at h
    simp at h

/-- The mantissa is read back as it was written, the fraction that is missing being the empty
one. -/
theorem mantissaOfChars?_spelling (s : Spelling) :
    Numeral.mantissaOfChars? s.mantissaChars = some (s.integer, s.fractionDigits) := by
  have hdigits : ∀ c ∈ s.integer.toChars, (c == '.') = false := by
    intro c hc
    have := isDigit_of_mem_toChars s.integer_valid hc
    rw [beq_eq_false_iff_ne]
    rintro rfl
    exact absurd this (by decide)
  have hinteger := ofChars?_toChars s.integer_valid
  have hnil : ofChars? [] = some [] := rfl
  have hne := s.ne_nil
  unfold Numeral.mantissaOfChars? Spelling.mantissaChars Spelling.fractionDigits
  cases hfraction : s.fraction with
  | none =>
    have hnonempty : s.integer.toChars.isEmpty = false := by
      simp only [hfraction, Option.mem_def, reduceCtorEq, false_and, exists_false, or_false] at hne
      simpa [Digits.toChars] using hne
    rw [Option.elim_none, List.append_nil, Text.cutAt_of_forall hdigits]
    simp [hnonempty, hinteger, hnil]
  | some ds =>
    have hds := ofChars?_toChars (s.fraction_valid ds hfraction)
    have hnonempty : (s.integer.toChars.isEmpty && ds.toChars.isEmpty) = false := by
      simp only [hfraction, Option.mem_def, Option.some.injEq, exists_eq_left'] at hne
      rcases hne with hne | hne <;> simp [Digits.toChars, hne]
    rw [Option.elim_some, Text.cutAt_append hdigits rfl]
    simp [hnonempty, hinteger, hds]

/-- A sign and digits behind it are read as the number they say, if a word holds it. -/
theorem wordOfChars?_append (sign : SignMark) {ds : Digits} (hvalid : ds.Valid) (hne : ds ≠ []) :
    Numeral.wordOfChars? (sign.toChars ++ ds.toChars) =
      if Decimal.Fits64 (Numeral.signed sign.negative ds) then some (Numeral.signed sign.negative ds)
      else none := by
  have hsign : ∀ c ∈ ds.toChars.head?, c ≠ '+' ∧ c ≠ '-' := by
    intro c hc
    have := isDigit_of_mem_toChars hvalid (List.mem_of_mem_head? hc)
    constructor <;> rintro rfl <;> exact absurd this (by decide)
  have hnonempty : ds.toChars.isEmpty = false := by simpa [Digits.toChars] using hne
  simp [Numeral.wordOfChars?, takeSign_append _ hsign, hnonempty, ofChars?_toChars hvalid]

/-- An exponent within the bound is far from the ends of a word. -/
theorem ExponentPart.abs_value_le (e : ExponentPart) : -10000 ≤ e.value ∧ e.value ≤ 10000 := by
  have hle : e.digits.toNat ≤ 10000 := e.le_max
  unfold ExponentPart.value
  split <;> omega

/-- An exponent part is read as its value: a word holds it, and it is within the bound. -/
theorem exponentOfChars_part (e : ExponentPart) :
    Numeral.exponentOfChars (e.sign.toChars ++ e.digits.toChars) = .ok e.value := by
  obtain ⟨hlow, hhigh⟩ := e.abs_value_le
  have hfits : Decimal.Fits64 e.value := by
    unfold Decimal.Fits64
    omega
  have hword : Numeral.wordOfChars? (e.sign.toChars ++ e.digits.toChars) = some e.value := by
    rw [wordOfChars?_append _ e.valid e.ne_nil]
    exact if_pos hfits
  have hleast : e.value ≠ Numeral.leastWord := by
    unfold Numeral.leastWord
    omega
  have hbound : ¬ maxExponent < e.value.natAbs := by
    unfold maxExponent
    omega
  simp [Numeral.exponentOfChars, hword, Numeral.magnitude, hleast, hbound, bind, Except.bind]

/-- The parts that are read from a spelling, in which a sign that was left out can no longer be
told from a plus. -/
def Spelling.numeral (s : Spelling) : Numeral :=
  ⟨s.sign.negative, s.integer, s.fractionDigits, s.exponentValue⟩

theorem isMark_of_isDigit {c : Char} (h : c.isDigit = true) : Numeral.isMark c = false := by
  unfold Numeral.isMark
  rw [Bool.or_eq_false_iff, beq_eq_false_iff_ne, beq_eq_false_iff_ne]
  constructor <;> rintro rfl <;> exact absurd h (by decide)

theorem ofChars_spelling {cs : List Char} {s : Spelling} (h : Text.trim cs = s.toChars) :
    Numeral.ofChars cs = .ok s.numeral := by
  have hsign : ∀ c ∈ (s.mantissaChars ++ s.exponent.elim [] ExponentPart.toChars).head?,
      c ≠ '+' ∧ c ≠ '-' := by
    intro c hc
    rw [List.head?_append_of_ne_nil _ s.mantissaChars_ne_nil] at hc
    have hmem := Spelling.mem_mantissaChars (List.mem_of_mem_head? hc)
    constructor <;> rintro rfl <;> exact absurd hmem (by decide)
  have hmark : ∀ c ∈ s.mantissaChars, Numeral.isMark c = false := by
    intro c hc
    rcases Spelling.mem_mantissaChars hc with hdigit | rfl
    · exact isMark_of_isDigit hdigit
    · rfl
  simp only [Numeral.ofChars, h, Spelling.toChars, takeSign_append _ hsign]
  cases hexponent : s.exponent with
  | none =>
    rw [Option.elim_none, List.append_nil, Text.cutAt_of_forall hmark]
    simp [Numeral.exponentBehind, mantissaOfChars?_spelling, Spelling.numeral,
      Spelling.exponentValue, hexponent, bind, Except.bind]
  | some e =>
    have hcapital : Numeral.isMark (if e.capital then 'E' else 'e') = true := by
      cases e.capital <;> decide
    rw [Option.elim_some, ExponentPart.toChars, Text.cutAt_append hmark hcapital]
    simp [Numeral.exponentBehind, exponentOfChars_part, mantissaOfChars?_spelling,
      Spelling.numeral, Spelling.exponentValue, hexponent, bind, Except.bind]

/-- The parts that were read stand for the number that the spelling stands for. -/
theorem value_toDecimal_numeral (s : Spelling) : s.numeral.toDecimal.value = s.value := by
  have hten : (10 : Rat) ≠ 0 := by norm_num
  have hexp : (s.integer.length + s.exponentValue -
      (s.integer ++ s.fractionDigits).length : Int) =
        s.exponentValue - s.fractionDigits.length := by
    rw [List.length_append]
    push_cast
    ring
  simp only [Numeral.toDecimal, Spelling.numeral]
  rw [Decimal.value_placePoint, hexp, zpow_sub₀ hten, zpow_natCast, Spelling.value]
  ring

/-- **Every spelling is read**, as the canonical decimal of its value. -/
theorem parse_spelling {cs : List Char} {s : Spelling} (h : Text.trim cs = s.toChars) :
    ∃ x, Decimal.parse cs = .ok x ∧ x.value = s.value := by
  refine ⟨s.numeral.toDecimal, ?_, value_toDecimal_numeral s⟩
  rw [Decimal.parse, ofChars_spelling h]
  rfl

/-! ## 3. Whatever is read is a spelling

The other direction, part by part.  Each lemma takes a successful step of the reader and exhibits
the part of a spelling that it read; the parts together are the spelling. -/

/-- Whatever a text begins with, it is a sign, possibly none, and the rest. -/
theorem exists_signMark (cs : List Char) : ∃ sign : SignMark,
    cs = sign.toChars ++ (Numeral.takeSign cs).2 ∧ sign.negative = (Numeral.takeSign cs).1 := by
  unfold Numeral.takeSign
  split
  · exact ⟨.minus, rfl, rfl⟩
  · exact ⟨.plus, rfl, rfl⟩
  · exact ⟨.absent, rfl, rfl⟩

/-- What is read as a word is a sign and digits behind it. -/
theorem exists_of_wordOfChars? {cs : List Char} {word : Int} (h : Numeral.wordOfChars? cs = some word) :
    ∃ (sign : SignMark) (ds : Digits), cs = sign.toChars ++ ds.toChars ∧ ds.Valid ∧ ds ≠ [] ∧
      word = Numeral.signed sign.negative ds := by
  obtain ⟨sign, hcs, hnegative⟩ := exists_signMark cs
  simp only [Numeral.wordOfChars?] at h
  split at h
  · cases h
  next hempty =>
  rw [Option.bind_eq_bind, Option.bind_eq_some_iff] at h
  obtain ⟨ds, hds, h⟩ := h
  split at h
  · have htext := toChars_of_ofChars? hds
    refine ⟨sign, ds, ?_, Numeral.valid_of_ofChars? hds, ?_, ?_⟩
    · rw [htext, ← hcs]
    · rintro rfl
      rw [← htext] at hempty
      exact hempty rfl
    · rw [hnegative]
      exact (Option.some.inj h).symm
  · cases h

/-- What is read as an exponent is an exponent part.  The reader's bound on words is met by all
exponents within the bound of exponents, so only the latter shows. -/
theorem exists_exponentPart (capital : Bool) {cs : List Char} {k : Int}
    (h : Numeral.exponentOfChars cs = .ok k) :
    ∃ e : ExponentPart, (if capital then 'E' else 'e') :: cs = e.toChars ∧ e.value = k := by
  unfold Numeral.exponentOfChars at h
  cases hword : Numeral.wordOfChars? cs with
  | none =>
    rw [hword] at h
    cases h
  | some word =>
    obtain ⟨sign, ds, rfl, hvalid, hne, hvalue⟩ := exists_of_wordOfChars? hword
    simp only [hword, Numeral.magnitude] at h
    split at h
    · cases h
    · simp only [bind, Except.bind] at h
      split at h
      · cases h
      next hbound =>
      have hle : ds.toNat ≤ maxExponent := by
        rw [hvalue, Numeral.signed] at hbound
        split at hbound <;> omega
      refine ⟨⟨capital, sign, ds, hvalid, hne, hle⟩, rfl, ?_⟩
      exact hvalue.symm.trans (Except.ok.inj h)

/-- What is read as a mantissa is digits, and perhaps a point with digits behind it, with a digit
on one side at least. -/
theorem exists_mantissa {cs : List Char} {integer fraction : Digits}
    (h : Numeral.mantissaOfChars? cs = some (integer, fraction)) :
    ∃ point : Option Digits, point.getD [] = fraction ∧
      cs = integer.toChars ++ (point.elim [] fun ds => '.' :: ds.toChars) ∧
      (∀ ds ∈ point, Digits.Valid ds) ∧ (integer ≠ [] ∨ ∃ ds ∈ point, ds ≠ []) := by
  have hvalid := Numeral.valid_of_mantissaOfChars? h
  simp only [Numeral.mantissaOfChars?] at h
  split at h
  · cases h
  next hempty =>
  simp only [Option.bind_eq_bind, Option.bind_eq_some_iff, Option.some.injEq,
    Prod.mk.injEq] at h
  obtain ⟨integer, hinteger, fraction, hfraction, rfl, rfl⟩ := h
  have hitext := toChars_of_ofChars? hinteger
  have hftext := toChars_of_ofChars? hfraction
  rcases Text.cutAt_eq (· == '.') cs with ⟨hcut, -⟩ | ⟨before, c, after, rfl, hcut, hc, -⟩
  · rw [hcut] at hitext hftext hempty
    obtain rfl : fraction = [] := by simpa [Digits.toChars] using hftext
    refine ⟨none, rfl, by simp [hitext], by simp, .inl ?_⟩
    rintro rfl
    rw [← hitext] at hempty
    simp [Digits.toChars] at hempty
  · rw [hcut] at hitext hftext hempty
    obtain rfl : c = '.' := by simpa using hc
    refine ⟨some fraction, rfl, ?_, ?_, ?_⟩
    · rw [Option.elim_some, hitext, hftext]
      rfl
    · intro ds hds
      rw [← Option.some.inj hds]
      exact hvalid.2
    · by_contra hnil
      simp only [ne_eq, not_or, not_not, Option.mem_def, Option.some.injEq, exists_eq_left'] at hnil
      rw [← hitext, ← hftext, hnil.1, hnil.2] at hempty
      simp [Digits.toChars] at hempty

/-- **Whatever is read is a spelling**, and the parts that were read are the parts of it. -/
theorem exists_spelling {cs : List Char} {n : Numeral} (h : Numeral.ofChars cs = .ok n) :
    ∃ s : Spelling, Text.trim cs = s.toChars ∧ s.numeral = n := by
  obtain ⟨sign, hcs, hnegative⟩ := exists_signMark (Text.trim cs)
  obtain ⟨mantissa, behind, hcut, hexponent, hmantissa, hsign⟩ := Numeral.exists_of_ofChars h
  obtain ⟨negative, integer, fraction, k⟩ := n
  obtain rfl : sign.negative = negative := hnegative.trans hsign
  obtain ⟨point, rfl, hbody, hvalid, hne⟩ := exists_mantissa hmantissa
  have hinteger : integer.Valid := (Numeral.valid_of_mantissaOfChars? hmantissa).1
  rcases Text.cutAt_eq Numeral.isMark (Numeral.takeSign (Text.trim cs)).2 with
    ⟨hwhole, -⟩ | ⟨before, c, after, heq, hwhole, hc, -⟩
  · obtain ⟨rfl, rfl⟩ := Prod.mk.inj (hcut.symm.trans hwhole)
    obtain rfl : 0 = k := Except.ok.inj hexponent
    refine ⟨⟨sign, integer, point, none, hinteger, hvalid, hne⟩, ?_, ?_⟩
    · rw [hcs, hbody]
      simp [Spelling.toChars, Spelling.mantissaChars]
    · simp [Spelling.numeral, Spelling.fractionDigits, Spelling.exponentValue]
  · obtain ⟨rfl, rfl⟩ := Prod.mk.inj (hcut.symm.trans hwhole)
    have hmark : c = if c == 'E' then 'E' else 'e' := by
      rcases Bool.or_eq_true_iff.1 hc with hc | hc <;> rw [eq_of_beq hc] <;> rfl
    obtain ⟨e, he, rfl⟩ := exists_exponentPart (c == 'E') hexponent
    refine ⟨⟨sign, integer, point, some e, hinteger, hvalid, hne⟩, ?_, ?_⟩
    · rw [hcs, heq, hmark, he, hbody]
      simp [Spelling.toChars, Spelling.mantissaChars]
    · simp [Spelling.numeral, Spelling.fractionDigits, Spelling.exponentValue]

/-- **A text is read exactly when it denotes a number**, and then as the canonical decimal of that
number.  From here on theorems about number texts need not mention the reader. -/
theorem denotes_iff {cs : List Char} {q : Rat} :
    Denotes cs q ↔ ∃ x, Decimal.parse cs = .ok x ∧ x.Canonical ∧ x.value = q := by
  constructor
  · rintro ⟨s, hs, rfl⟩
    obtain ⟨x, hx, hvalue⟩ := parse_spelling hs
    exact ⟨x, hx, Decimal.parse_canonical hx, hvalue⟩
  · rintro ⟨x, hx, -, rfl⟩
    unfold Decimal.parse at hx
    cases hn : Numeral.ofChars cs with
    | error e =>
      rw [hn] at hx
      cases hx
    | ok n =>
      obtain ⟨s, hs, rfl⟩ := exists_spelling hn
      rw [hn] at hx
      obtain rfl := Except.ok.inj hx
      exact ⟨s, hs, (value_toDecimal_numeral s).symm⟩

/-- A text denotes one number at most, whichever of its spellings the number is read off.  That is
what allows speaking of the number of a text. -/
theorem Denotes.unique {cs : List Char} {p q : Rat} (hp : Denotes cs p) (hq : Denotes cs q) :
    p = q := by
  obtain ⟨x, hx, -, rfl⟩ := denotes_iff.1 hp
  obtain ⟨y, hy, -, rfl⟩ := denotes_iff.1 hq
  rw [hx] at hy
  rw [Except.ok.inj hy]

theorem denotes_of_ofString {text : String} {q : Rat}
    (h : (Decimal.ofString text).map Decimal.value = .ok q) : Denotes text.toList q := by
  cases hread : Decimal.ofString text with
  | error e =>
    rw [hread] at h
    cases h
  | ok x =>
    rw [hread] at h
    exact denotes_iff.2 ⟨x, hread, Decimal.parse_canonical hread, Except.ok.inj h⟩

theorem toOption_eq_some_iff {ε α : Type} {x : Except ε α} {a : α} :
    x.toOption = some a ↔ x = .ok a := by
  cases x <;> simp [Except.toOption]

/-- A text that is read denotes something.  The other direction is `denotes_iff`, so being read and
denoting a number are the same. -/
theorem exists_denotes {cs : List Char} (h : (Decimal.parse cs).isOk = true) :
    ∃ q, Denotes cs q := by
  cases hread : Decimal.parse cs with
  | error e =>
    rw [hread] at h
    cases h
  | ok x => exact ⟨x.value, denotes_iff.2 ⟨x, hread, Decimal.parse_canonical hread, rfl⟩⟩

/-- A minus sign in front of an unsigned text denotes the opposite number. -/
theorem Denotes.neg {cs : List Char} {q : Rat} (h : Denotes cs q)
    (hblank : ∀ c ∈ cs, Text.isBlank c = false) (hsign : ∀ c ∈ cs.head?, c ≠ '+' ∧ c ≠ '-') :
    Denotes ('-' :: cs) (-q) := by
  obtain ⟨s, hs, rfl⟩ := h
  rw [Text.trim_of_forall hblank] at hs
  have habsent : s.sign = .absent := by
    cases hmark : s.sign with
    | absent => rfl
    | plus =>
      rw [hs, Spelling.toChars, hmark] at hsign
      exact absurd rfl (hsign '+' rfl).1
    | minus =>
      rw [hs, Spelling.toChars, hmark] at hsign
      exact absurd rfl (hsign '-' rfl).2
  refine ⟨{ s with sign := .minus }, ?_, ?_⟩
  · have hall : ∀ c ∈ '-' :: cs, Text.isBlank c = false :=
      List.forall_mem_cons.2 ⟨by decide, hblank⟩
    rw [Text.trim_of_forall hall, hs, Spelling.toChars, Spelling.toChars, habsent]
    rfl
  · simp [Spelling.value, Spelling.fractionDigits, Spelling.exponentValue, SignMark.negative, habsent]

/-! ## 4. The exponent that stops the program

Every other text is refused as no number, but for one kind: the least signed word of 64 bits is read as an
exponent before anything asks how large it is, and the question is put to its magnitude, which overflows.
Zeros in front of its digits, and whatever stands in front of the mark, make no difference. -/

/-- The text's exponent is the least signed word of 64 bits.  Nothing is asked of what stands in
front of the mark, since the exponent is read first. -/
def HasLeastExponent (cs : List Char) : Prop :=
  ∃ (before : List Char) (mark : Char) (ds : Digits),
    Text.trim cs = before ++ mark :: '-' :: ds.toChars ∧
    (∀ c ∈ before, Numeral.isMark c = false) ∧ Numeral.isMark mark = true ∧
    ds.Valid ∧ ds.toNat = 2 ^ 63

/-- A sign is taken from the front of a text, and never as far as an exponent mark. -/
theorem exists_takeSign (before : List Char) {mark : Char} (hmark : Numeral.isMark mark = true)
    (rest : List Char) :
    ∃ front, (Numeral.takeSign (before ++ mark :: rest)).2 = front ++ mark :: rest ∧
      ∀ c ∈ front, c ∈ before := by
  cases before with
  | nil =>
    refine ⟨[], ?_, by simp⟩
    have hminus : mark ≠ '-' := by
      rintro rfl
      cases hmark
    have hplus : mark ≠ '+' := by
      rintro rfl
      cases hmark
    simp [Numeral.takeSign, hminus, hplus]
  | cons c before =>
    unfold Numeral.takeSign
    split
    · next cs hcs =>
      obtain ⟨-, rfl⟩ := List.cons.inj hcs
      exact ⟨before, rfl, fun d hd => List.mem_cons_of_mem _ hd⟩
    · next cs hcs =>
      obtain ⟨-, rfl⟩ := List.cons.inj hcs
      exact ⟨before, rfl, fun d hd => List.mem_cons_of_mem _ hd⟩
    · exact ⟨c :: before, rfl, fun d hd => hd⟩

/-- The least word is spelled with a minus sign, the digits of `2 ^ 63`, and any zeros between them. -/
theorem wordOfChars?_eq_leastWord_iff {cs : List Char} :
    Numeral.wordOfChars? cs = some Numeral.leastWord ↔
      ∃ ds : Digits, cs = '-' :: ds.toChars ∧ ds.Valid ∧ ds.toNat = 2 ^ 63 := by
  constructor
  · intro h
    obtain ⟨sign, ds, rfl, hvalid, -, hvalue⟩ := exists_of_wordOfChars? h
    rw [Numeral.signed, Numeral.leastWord] at hvalue
    cases sign with
    | minus =>
      rw [SignMark.negative, if_pos rfl] at hvalue
      exact ⟨ds, rfl, hvalid, by omega⟩
    | plus | absent =>
      simp only [SignMark.negative, Bool.false_eq_true, if_false] at hvalue
      omega
  · rintro ⟨ds, rfl, hvalid, hvalue⟩
    have hne : ds ≠ [] := by
      rintro rfl
      cases hvalue
    have hsigned : Numeral.signed true ds = Numeral.leastWord := by
      rw [Numeral.signed, if_pos rfl, hvalue]
      rfl
    have happend := wordOfChars?_append .minus hvalid hne
    rw [SignMark.negative, hsigned, if_pos (by decide)] at happend
    exact happend

/-- Why an exponent is not read: it is no word or too large, or it is the least word of all. -/
theorem error_of_exponentOfChars {cs : List Char} {e : NumberError}
    (h : Numeral.exponentOfChars cs = .error e) :
    e = .invalidNumber ∨ e = .overflow ∧ Numeral.wordOfChars? cs = some Numeral.leastWord := by
  unfold Numeral.exponentOfChars at h
  cases hword : Numeral.wordOfChars? cs with
  | none =>
    rw [hword] at h
    exact .inl (Except.error.inj h).symm
  | some word =>
    simp only [hword, Numeral.magnitude] at h
    split at h
    · next hleast => exact .inr ⟨(Except.error.inj h).symm, by rw [hleast]⟩
    · simp only [bind, Except.bind] at h
      split at h
      · exact .inl (Except.error.inj h).symm
      · cases h

/-- Why a text is not read.  Only the exponent can make it fail in another way than as no number. -/
theorem error_of_ofChars {cs : List Char} {e : NumberError} (h : Numeral.ofChars cs = .error e) :
    e = .invalidNumber ∨ e = .overflow ∧ ∃ mantissa after,
      Text.cutAt Numeral.isMark (Numeral.takeSign (Text.trim cs)).2 = (mantissa, some after) ∧
        Numeral.wordOfChars? after = some Numeral.leastWord := by
  cases hcut : Text.cutAt Numeral.isMark (Numeral.takeSign (Text.trim cs)).2 with
  | _ mantissa behind =>
  simp only [Numeral.ofChars, hcut] at h
  cases hexponent : Numeral.exponentBehind behind with
  | ok k =>
    rw [hexponent] at h
    cases hmantissa : Numeral.mantissaOfChars? mantissa with
    | some halves =>
      rw [hmantissa] at h
      cases h
    | none =>
      rw [hmantissa] at h
      exact .inl (Except.error.inj h).symm
  | error cause =>
    rw [hexponent] at h
    obtain rfl := Except.error.inj h
    cases behind with
    | none => cases hexponent
    | some after =>
      rcases error_of_exponentOfChars hexponent with rfl | ⟨rfl, hword⟩
      · exact .inl rfl
      · exact .inr ⟨rfl, mantissa, after, rfl, hword⟩

/-- The condition on the text, for the reader of its parts.  Both directions follow the text behind
its sign to the mark. -/
theorem ofChars_eq_overflow_iff {cs : List Char} :
    Numeral.ofChars cs = .error .overflow ↔ HasLeastExponent cs := by
  constructor
  · intro h
    obtain ⟨sign, hcs, -⟩ := exists_signMark (Text.trim cs)
    rcases error_of_ofChars h with h | ⟨-, mantissa, after, hcut, hword⟩
    · cases h
    obtain ⟨ds, rfl, hvalid, hvalue⟩ := wordOfChars?_eq_leastWord_iff.1 hword
    rcases Text.cutAt_eq Numeral.isMark (Numeral.takeSign (Text.trim cs)).2 with
      ⟨hwhole, -⟩ | ⟨before, mark, after, heq, hwhole, hmark, hbefore⟩
    · rw [hwhole] at hcut
      cases hcut
    · rw [hwhole] at hcut
      obtain ⟨rfl, hafter⟩ := Prod.mk.inj hcut
      obtain rfl := Option.some.inj hafter
      refine ⟨sign.toChars ++ before, mark, ds, ?_, ?_, hmark, hvalid, hvalue⟩
      · rw [hcs, heq, List.append_assoc]
      · intro c hc
        rcases List.mem_append.1 hc with hc | hc
        · cases sign <;> simp only [SignMark.toChars, List.mem_singleton, List.not_mem_nil] at hc <;>
            rw [hc] <;> rfl
        · exact hbefore c hc
  · rintro ⟨before, mark, ds, htrim, hbefore, hmark, hvalid, hvalue⟩
    obtain ⟨front, hfront, hmem⟩ := exists_takeSign before hmark ('-' :: ds.toChars)
    have hcut : Text.cutAt Numeral.isMark (front ++ mark :: '-' :: ds.toChars) =
        (front, some ('-' :: ds.toChars)) :=
      Text.cutAt_append (fun c hc => hbefore c (hmem c hc)) hmark
    have hword := wordOfChars?_eq_leastWord_iff.2 ⟨ds, rfl, hvalid, hvalue⟩
    simp only [Numeral.ofChars, htrim, hfront, hcut, Numeral.exponentBehind, Numeral.exponentOfChars,
      hword]
    rfl

/-- Reading fails where the reader of the parts fails, and with the same error: whatever parts there
are, they stand for a number. -/
theorem parse_eq_error_iff {cs : List Char} {e : NumberError} :
    Decimal.parse cs = .error e ↔ Numeral.ofChars cs = .error e := by
  rw [Decimal.parse]
  cases Numeral.ofChars cs <;> simp [Except.map]

/-- **Reading stops the program exactly at the least exponent.**  Every other text is read or
refused. -/
theorem parse_eq_overflow_iff {cs : List Char} :
    Decimal.parse cs = .error .overflow ↔ HasLeastExponent cs :=
  parse_eq_error_iff.trans ofChars_eq_overflow_iff

/-- A text of a number does not stop the program. -/
theorem Denotes.not_hasLeastExponent {cs : List Char} {q : Rat} (h : Denotes cs q) :
    ¬ HasLeastExponent cs := by
  intro hleast
  obtain ⟨x, hread, -⟩ := denotes_iff.1 h
  rw [parse_eq_overflow_iff.2 hleast] at hread
  cases hread

/-- A text without an exponent mark does not stop the program. -/
theorem not_hasLeastExponent {cs : List Char} (h : ∀ c ∈ cs, Numeral.isMark c = false) :
    ¬ HasLeastExponent cs := by
  rintro ⟨before, mark, ds, htrim, -, hmark, -⟩
  have hmem : mark ∈ cs := Text.mem_of_mem_trim (htrim ▸ by simp)
  rw [h mark hmem] at hmark
  cases hmark

/-- Reading ends in a canonical decimal, in the one error there is for a text, or not at all. -/
theorem parse_cases (cs : List Char) :
    (∃ x, Decimal.parse cs = .ok x ∧ x.Canonical) ∨ Decimal.parse cs = .error .invalidNumber ∨
      Decimal.parse cs = .error .overflow := by
  cases hread : Decimal.parse cs with
  | ok x => exact .inl ⟨x, rfl, Decimal.parse_canonical hread⟩
  | error e =>
    rcases error_of_ofChars (parse_eq_error_iff.1 hread) with rfl | ⟨rfl, -⟩
    · exact .inr (.inl rfl)
    · exact .inr (.inr rfl)

/-! ## 5. Canonical texts

What is written is one spelling among the many of a number: no plus sign, no exponent, and a point
only with digits behind it.  It is read back as the decimal it was written for. -/

theorem isBlank_of_isDigit {c : Char} (h : c.isDigit = true) : Text.isBlank c = false := by
  simp only [Char.isDigit, Bool.and_eq_true, decide_eq_true_eq] at h
  have hlow : 48 ≤ c.toNat := h.1
  have hhigh : c.toNat ≤ 57 := h.2
  simp only [Text.isBlank, Text.blankRanges, List.any_cons, List.any_nil, Bool.or_false,
    Bool.or_eq_false_iff, Bool.and_eq_false_iff, decide_eq_false_iff_not]
  omega

/-- The parts of a canonical text.  They are those of the decimal, with the sign and the point left
out where there is nothing to write. -/
def Decimal.Canonical.spelling {x : Decimal} (hx : x.Canonical) : Spelling where
  sign := if x.negative then .minus else .absent
  integer := x.integer
  fraction := if x.fraction.isEmpty then none else some x.fraction
  exponent := none
  integer_valid := hx.integer_valid
  fraction_valid := by
    intro ds hds
    split at hds
    · cases hds
    · rw [← Option.some.inj hds]
      exact hx.fraction_valid
  ne_nil := .inl hx.integer_ne_nil

theorem Decimal.Canonical.toChars_spelling {x : Decimal} (hx : x.Canonical) :
    hx.spelling.toChars = x.toChars := by
  cases hsign : x.negative <;> cases hfraction : x.fraction <;>
    simp [spelling, Spelling.toChars, Spelling.mantissaChars, Decimal.toChars, SignMark.toChars,
      hsign, hfraction]

theorem Decimal.Canonical.fractionDigits_spelling {x : Decimal} (hx : x.Canonical) :
    hx.spelling.fractionDigits = x.fraction := by
  cases h : x.fraction <;> simp [spelling, Spelling.fractionDigits, h]

theorem Decimal.Canonical.value_spelling {x : Decimal} (hx : x.Canonical) :
    hx.spelling.value = x.value := by
  have hsign : hx.spelling.sign.negative = x.negative := by
    cases h : x.negative <;> simp [spelling, SignMark.negative, h]
  rw [Spelling.value, hx.fractionDigits_spelling, hsign, Decimal.value_eq, Decimal.digits]
  simp [spelling, Spelling.exponentValue]

theorem Decimal.Canonical.trim_toChars {x : Decimal} (hx : x.Canonical) :
    Text.trim x.toChars = x.toChars := by
  have hblank : ∀ c ∈ x.toChars, Text.isBlank c = false := by
    intro c hc
    rw [← hx.toChars_spelling, Spelling.toChars] at hc
    rcases List.mem_append.1 hc with hc | hc
    · cases hsign : x.negative <;> simp [spelling, SignMark.toChars, hsign] at hc
      rw [hc]
      decide
    · rw [show hx.spelling.exponent = none from rfl, Option.elim_none, List.append_nil] at hc
      rcases Spelling.mem_mantissaChars hc with hc | rfl
      · exact isBlank_of_isDigit hc
      · decide
  exact Text.trim_of_forall hblank

/-- **A canonical decimal is written as a text that denotes its value.** -/
theorem denotes_toString {x : Decimal} (hx : x.Canonical) : Denotes x.toString.toList x.value := by
  refine ⟨hx.spelling, ?_, hx.value_spelling⟩
  rw [Decimal.toString, String.toList_ofList, hx.trim_toChars, hx.toChars_spelling]

/-- A canonical decimal is read back from its text, whatever number it is. -/
theorem ofString_toString {x : Decimal} (hx : x.Canonical) :
    Decimal.ofString x.toString = .ok x := by
  obtain ⟨y, hy, hcanonical, hvalue⟩ := denotes_iff.1 (denotes_toString hx)
  rw [Decimal.ofString, hy, hcanonical.ext_value hx hvalue]

/-- Canonical texts are equal exactly when their numbers are, so texts may be compared as they
stand. -/
theorem toString_eq_iff {x y : Decimal} (hx : x.Canonical) (hy : y.Canonical) :
    x.toString = y.toString ↔ x.value = y.value := by
  constructor
  · intro h
    have hread := ofString_toString hx
    rw [h, ofString_toString hy] at hread
    rw [Except.ok.inj hread]
  · intro h
    rw [hx.ext_value hy h]

end DecimalCalc
