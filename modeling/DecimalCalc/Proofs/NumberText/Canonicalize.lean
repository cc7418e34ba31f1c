/-
# Canonical texts

What a canonical text looks like is said character by character, apart from decimals.  The canonical
texts are exactly those that decimals in canonical form are written as, so each number has one of
them, and canonicalising finds it.

The shape is stated for its own sake: a reader of the results wants to know what may stand in them,
and should not have to know what a decimal is.  Canonicalising is then described for every text
there is, by three conditions of which exactly one holds.  The text denotes a number, and its
canonical text is returned; it denotes none and is refused; or its exponent is the least word, and
the program stops before it can be refused.  The third case is a gap in the check of the exponent.
It is stated as it is, and a text is exhibited that falls into it although its exponent is spelled
with a zero in front.

* `isCanonicalText_iff`: canonical texts are the texts of canonical decimals;
* `canonicalize_of_denotes`, `canonicalize_of_not_denotes`: what becomes of a text;
* `canonicalize_spec`: the two together, with what follows for equal results and for canonical
  texts.
-/
import DecimalCalc.NumberText
import DecimalCalc.Proofs.Decimal.Spelling

namespace DecimalCalc

open Digits

/-! ## 1. The shape of a canonical text

The conditions are those of the canonical form of a decimal, said of characters.  Digits and their
characters correspond one to one, so the two descriptions can be translated into each other. -/

/-- A minus sign or nothing.  A plus sign is never written. -/
def signChars (negative : Bool) : List Char := if negative then ['-'] else []

/-- A point and the digits behind it; no digits, no point. -/
def pointChars (fraction : List Char) : List Char :=
  if fraction.isEmpty then [] else '.' :: fraction

/-- The shape of a canonical text: no zero in front of the integer digits but a lone one, no zero at the
end of the fraction, no point without digits on both sides, and no minus sign on zero. -/
def IsCanonicalText (cs : List Char) : Prop :=
  ∃ (negative : Bool) (integer fraction : List Char),
    cs = signChars negative ++ integer ++ pointChars fraction ∧
    (∀ c ∈ integer ++ fraction, c.isDigit = true) ∧
    integer ≠ [] ∧ (integer.head? = some '0' → integer = ['0']) ∧
    fraction.getLast? ≠ some '0' ∧
    (negative = true → ¬ (integer = ['0'] ∧ fraction = []))

theorem digitOf_eq_zero_iff {c : Char} (h : c.isDigit = true) : digitOf c = 0 ↔ c = '0' := by
  constructor
  · intro hzero
    rw [← charOf_digitOf h, hzero]
    rfl
  · rintro rfl
    rfl

theorem charOf_eq_zero_iff {d : Nat} (h : d < 10) : charOf d = '0' ↔ d = 0 := by
  constructor
  · intro hzero
    rw [← digitOf_charOf h, hzero]
    rfl
  · rintro rfl
    rfl

theorem toChars_map_digitOf {cs : List Char} (h : ∀ c ∈ cs, c.isDigit = true) :
    Digits.toChars (cs.map digitOf) = cs :=
  toChars_of_ofChars? (by rw [ofChars?, if_pos (List.all_eq_true.2 h)])

theorem valid_map_digitOf {cs : List Char} (h : ∀ c ∈ cs, c.isDigit = true) :
    Digits.Valid (cs.map digitOf) :=
  Numeral.valid_of_ofChars? (by rw [ofChars?, if_pos (List.all_eq_true.2 h)])

/-- One direction: what a canonical decimal is written as has the shape. -/
theorem Decimal.Canonical.isCanonicalText {x : Decimal} (hx : x.Canonical) :
    IsCanonicalText x.toChars := by
  refine ⟨x.negative, x.integer.toChars, x.fraction.toChars, ?_, ?_, ?_, ?_, ?_, ?_⟩
  · cases hfraction : x.fraction <;> simp [Decimal.toChars, signChars, pointChars, Digits.toChars,
      hfraction]
  · intro c hc
    rcases List.mem_append.1 hc with hc | hc
    · exact isDigit_of_mem_toChars hx.integer_valid hc
    · exact isDigit_of_mem_toChars hx.fraction_valid hc
  · simpa [Digits.toChars] using hx.integer_ne_nil
  · intro hhead
    obtain ⟨d, ds, hinteger⟩ := List.exists_cons_of_ne_nil hx.integer_ne_nil
    have hd : d < 10 := hx.integer_valid d (by simp [hinteger])
    have hchar : charOf d = '0' := by simpa [Digits.toChars, hinteger] using hhead
    rw [charOf_eq_zero_iff hd] at hchar
    rw [hx.no_leading_zero (by rw [hinteger, hchar]; rfl)]
    rfl
  · intro hlast
    rw [Digits.toChars, List.getLast?_map, Option.map_eq_some_iff] at hlast
    obtain ⟨d, hd, hchar⟩ := hlast
    rw [charOf_eq_zero_iff (hx.fraction_valid d (List.mem_of_mem_getLast? hd))] at hchar
    rw [hchar] at hd
    exact hx.no_trailing_zero hd
  · rintro hnegative ⟨hinteger, hfraction⟩
    have hfraction' : x.fraction = [] := by simpa [Digits.toChars] using hfraction
    have hinteger' : x.integer = [0] := by
      obtain ⟨d, hd, hchar⟩ := List.map_eq_singleton_iff.1 hinteger
      rw [charOf_eq_zero_iff (hx.integer_valid d (by simp [hd]))] at hchar
      rw [hd, hchar]
    have hzero : x.isZero = true := by rw [isZero, hinteger', hfraction']; rfl
    rw [hx.zero_not_negative hzero] at hnegative
    cases hnegative

/-- **The canonical texts are the texts of canonical decimals**, so nothing of that shape is left
over that no number is written as. -/
theorem isCanonicalText_iff {cs : List Char} :
    IsCanonicalText cs ↔ ∃ x : Decimal, x.Canonical ∧ x.toChars = cs := by
  constructor
  · rintro ⟨negative, integer, fraction, rfl, hdigits, hne, hlead, htrail, hzero⟩
    rw [List.forall_mem_append] at hdigits
    obtain ⟨hinteger, hfraction⟩ := hdigits
    have hfirst : (integer.map digitOf).head? = some 0 → integer = ['0'] := by
      intro h
      rw [List.head?_map, Option.map_eq_some_iff] at h
      obtain ⟨c, hc, hdigit⟩ := h
      rw [digitOf_eq_zero_iff (hinteger c (List.mem_of_mem_head? hc))] at hdigit
      exact hlead (hdigit ▸ hc)
    refine ⟨⟨negative, integer.map digitOf, fraction.map digitOf⟩, ⟨?_, ?_, ?_, ?_, ?_, ?_⟩, ?_⟩
    · exact valid_map_digitOf hinteger
    · exact valid_map_digitOf hfraction
    · simpa using hne
    · intro h
      rw [hfirst h]
      rfl
    · intro h
      rw [List.getLast?_map, Option.map_eq_some_iff] at h
      obtain ⟨c, hc, hdigit⟩ := h
      rw [digitOf_eq_zero_iff (hfraction c (List.mem_of_mem_getLast? hc))] at hdigit
      exact htrail (hdigit ▸ hc)
    · -- only digits that are all zero make zero, and they stand alone
      intro h
      simp only [Decimal.isZero, Bool.and_eq_true, Digits.allZero, List.all_eq_true,
        beq_iff_eq] at h
      rw [Bool.eq_false_iff]
      intro hnegative
      refine hzero hnegative ⟨?_, ?_⟩
      · obtain ⟨c, rest, rfl⟩ := List.exists_cons_of_ne_nil hne
        exact hfirst (congrArg some (h.1 _ (by simp)))
      · by_contra hne'
        have hlast := List.getLast?_eq_some_getLast hne'
        have hmem := List.getLast_mem hne'
        have hdigit := h.2 _ (List.mem_map_of_mem hmem)
        rw [digitOf_eq_zero_iff (hfraction _ hmem)] at hdigit
        exact htrail (hdigit ▸ hlast)
    · simp only [Decimal.toChars, signChars, pointChars, toChars_map_digitOf hinteger,
        toChars_map_digitOf hfraction, List.isEmpty_map]
  · rintro ⟨x, hx, rfl⟩
    exact hx.isCanonicalText

/-! ## 2. Canonicalising

Reading and writing are known already, so canonicalising is known for texts that denote a number.
For the others it is what reading says of them. -/

namespace NumberText

/-- A text that denotes a number becomes the text of the canonical decimal of that number. -/
theorem canonicalize_of_denotes {text : String} {q : Rat} (h : Denotes text.toList q) :
    ∃ x : Decimal, x.Canonical ∧ x.value = q ∧ canonicalize text = .ok x.toString := by
  obtain ⟨x, hread, hx, hvalue⟩ := denotes_iff.1 h
  exact ⟨x, hx, hvalue, canonicalize_eq_ok_iff.2 ⟨x, hread, rfl⟩⟩

/-- The results tell numbers apart: equal numbers have equal results, and different ones different
results. -/
theorem canonicalize_eq_iff {a b : String} {p q : Rat} (ha : Denotes a.toList p)
    (hb : Denotes b.toList q) : canonicalize a = canonicalize b ↔ p = q := by
  obtain ⟨x, hx, rfl, hresult⟩ := canonicalize_of_denotes ha
  obtain ⟨y, hy, rfl, hresult'⟩ := canonicalize_of_denotes hb
  rw [hresult, hresult', Except.ok.injEq, toString_eq_iff hx hy]

/-- Where reading ends without a number, canonicalising ends in the same way. -/
theorem canonicalize_of_error {text : String} {e : NumberError}
    (h : Decimal.parse text.toList = .error e) : canonicalize text = .error e := by
  rw [canonicalize, map, Decimal.ofString, h]
  rfl

/-- A text that spells no number is refused, unless its exponent stops the program. -/
theorem canonicalize_of_not_denotes {text : String} (h : ¬ ∃ q, Denotes text.toList q)
    (hleast : ¬ HasLeastExponent text.toList) : canonicalize text = .error .invalidNumber := by
  rcases parse_cases text.toList with ⟨x, hread, -⟩ | hinvalid | hoverflow
  · exact absurd (exists_denotes (by rw [hread]; rfl)) h
  · exact canonicalize_of_error hinvalid
  · exact absurd (parse_eq_overflow_iff.1 hoverflow) hleast

/-- **Canonicalising.**  A text is accepted exactly when it spells a number, and the result is a canonical
text of that number.  Any other text is an invalid number, but for those with the least exponent: there the
program stops and returns nothing.  So the results tell numbers apart, and a canonical text stays as it is. -/
theorem canonicalize_spec (text : String) :
    (∀ q, Denotes text.toList q → ∃ result, canonicalize text = .ok result ∧
      Denotes result.toList q ∧ IsCanonicalText result.toList) ∧
    ((¬ ∃ q, Denotes text.toList q) → ¬ HasLeastExponent text.toList →
      canonicalize text = .error .invalidNumber) ∧
    (HasLeastExponent text.toList → canonicalize text = .error .overflow) ∧
    (∀ (other : String) (p q : Rat), Denotes text.toList p → Denotes other.toList q →
      (canonicalize text = canonicalize other ↔ p = q)) ∧
    (IsCanonicalText text.toList → canonicalize text = .ok text) := by
  refine ⟨?_, canonicalize_of_not_denotes,
    fun h => canonicalize_of_error (parse_eq_overflow_iff.2 h), fun _ _ _ => canonicalize_eq_iff, ?_⟩
  · intro q h
    obtain ⟨x, hx, rfl, hresult⟩ := canonicalize_of_denotes h
    refine ⟨x.toString, hresult, denotes_toString hx, ?_⟩
    rw [Decimal.toString, String.toList_ofList]
    exact hx.isCanonicalText
  · intro h
    obtain ⟨x, hx, htext⟩ := isCanonicalText_iff.1 h
    have heq : text = x.toString := by rw [Decimal.toString, htext, String.ofList_toList]
    rw [heq]
    exact canonicalize_eq_ok_iff.2 ⟨x, ofString_toString hx, rfl⟩

/-- A text that is not read denotes no number, for whichever reason it is not read. -/
theorem not_exists_denotes {cs : List Char} {e : NumberError} (h : Decimal.parse cs = .error e) :
    ¬ ∃ q, Denotes cs q := by
  rintro ⟨q, hq⟩
  obtain ⟨x, hread, -⟩ := denotes_iff.1 hq
  rw [h] at hread
  cases hread

/-- Two spellings of one number, a canonical text, an exponent beyond the bound, and the least one. -/
theorem canonicalize_spec_half :
    (∃ result, canonicalize " +05.0e-1 " = .ok result ∧ Denotes result.toList (1 / 2) ∧
      IsCanonicalText result.toList) ∧
    canonicalize " +05.0e-1 " = canonicalize ".5" ∧ canonicalize "-0.5" = .ok "-0.5" ∧
    canonicalize "1e10001" = .error .invalidNumber ∧
    canonicalize "1e-09223372036854775808" = .error .overflow := by
  have hspelled : Denotes " +05.0e-1 ".toList (1 / 2) := denotes_of_ofString (by decide +kernel)
  have hbare : Denotes ".5".toList (1 / 2) := denotes_of_ofString (by decide +kernel)
  have hbeyond : Decimal.parse "1e10001".toList = .error .invalidNumber := by decide +kernel
  refine ⟨(canonicalize_spec _).1 _ hspelled, ?_, ?_, ?_, ?_⟩
  · exact ((canonicalize_spec _).2.2.2.1 _ _ _ hspelled hbare).2 rfl
  · exact (canonicalize_spec _).2.2.2.2
      ⟨true, ['0'], ['5'], by decide, by simp, by decide, by decide, by decide, by decide⟩
  · refine (canonicalize_spec _).2.1 (not_exists_denotes hbeyond) fun hleast => ?_
    rw [parse_eq_overflow_iff.2 hleast] at hbeyond
    cases hbeyond
  · exact (canonicalize_spec _).2.2.1 (parse_eq_overflow_iff.1 (by decide +kernel))

/-- Not every text that spells no number is refused as one, even where the digits of the least word do not
stand right behind the mark: a zero in front of them makes it no other word. -/
theorem not_forall_canonicalize_refused :
    ¬ ∀ text : String,
      (∀ mark, Numeral.isMark mark = true →
        ¬ (mark :: "-9223372036854775808".toList) <:+ Text.trim text.toList) →
      (¬ ∃ q, Denotes text.toList q) → canonicalize text = .error .invalidNumber := by
  intro h
  have hread : Decimal.parse "1e-09223372036854775808".toList = .error .overflow := by decide +kernel
  have hrefused := h "1e-09223372036854775808" ?_ (not_exists_denotes hread)
  · rw [canonicalize_of_error hread] at hrefused
    cases hrefused
  · intro mark hmark hsuffix
    have htail : mark :: "-9223372036854775808".toList = "-09223372036854775808".toList :=
      List.suffix_iff_eq_drop.1 hsuffix
    rw [(List.cons.inj htail).1] at hmark
    cases hmark

end NumberText
end DecimalCalc
