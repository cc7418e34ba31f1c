/-
# Decimals as text

A number text is a sign, digits around a point and an exponent, with blanks around the whole:

    blanks [+-] digits [. digits] [(e|E) [+-] digits] blanks

Each half of the mantissa may be missing, but not both, and the exponent is at most `maxExponent` in
magnitude.  The bound keeps a short text from asking for a long number.  It is checked on a word of
the machine, and checking it takes the magnitude of that word: of all exponents that a word holds,
one overflows there, and the program stops instead of refusing the text.  Reading therefore has
three outcomes and not two, a number, a refusal, and `NumberError.overflow`.

A decimal is written in its canonical form: a minus sign if it is negative, the integer digits, and
a point with the fraction digits if there are any.  Which texts denote which numbers, and that
writing and reading fit together, is proved where texts are described apart from the reader; here it
is only said what form the result has.

* `Numeral.ofChars` reads the parts, `Numeral.toDecimal` is the number they stand for;
* `Numeral.exists_of_ofChars`: a text that is read falls into the parts that were read from it;
* `parse_canonical`: whatever is read is in canonical form.
-/
import DecimalCalc.Decimal.Basic
import DecimalCalc.Decimal.Error
import DecimalCalc.Text.Blank
import DecimalCalc.Text.Search

namespace DecimalCalc

open Digits

/-! ## 1. The parts of a number text

The text is cut at its first mark and the mantissa at its first point, so a second mark or a second
point ends up among characters that ought to be digits, and the text is refused there.  The exponent
is read first, as a word with a sign, and the mantissa afterwards. -/

/-- The largest magnitude of an exponent.  A text with a larger one is refused, however few digits
its number would have. -/
def maxExponent : Nat := 10000

/-- The parts of a number text, with the digits as they were written.  Zeros at either end are
still there. -/
structure Numeral where
  negative : Bool
  integer : Digits
  fraction : Digits
  exponent : Int
deriving DecidableEq, Repr

namespace Numeral

/-- Takes one sign from the front; a plus sign counts for nothing.  A second sign is left standing
and is no digit. -/
def takeSign : List Char → Bool × List Char
  | '-' :: cs => (true, cs)
  | '+' :: cs => (false, cs)
  | cs => (false, cs)

/-- The integer that a sign and the digits behind it denote.  The digits are not bounded here;
whether a word holds the integer is asked afterwards. -/
def signed (negative : Bool) (ds : Digits) : Int := if negative then -ds.toNat else ds.toNat

/-- Reads a signed word of 64 bits: a sign and at least one digit, with any number of zeros in
front.  A number that the word does not hold is not read, so how long the text is does not matter,
only how large its number is. -/
def wordOfChars? (cs : List Char) : Option Int :=
  let (negative, body) := takeSign cs
  if body.isEmpty then none
  else do
    let ds ← Digits.ofChars? body
    if Decimal.Fits64 (signed negative ds) then some (signed negative ds) else none

/-- The least signed word of 64 bits, `-2 ^ 63`.  It is the only one whose magnitude is no such
word. -/
def leastWord : Int := -9223372036854775808

/-- The magnitude of a word, found by negating it where it is below zero.  For the least word this
is an overflow, and the program stops. -/
def magnitude (word : Int) : Except NumberError Nat :=
  if word = leastWord then .error .overflow else .ok word.natAbs

/-- Reads an exponent: a word whose magnitude is no larger than the bound.  What is no word is
refused before its magnitude is taken. -/
def exponentOfChars (cs : List Char) : Except NumberError Int :=
  match wordOfChars? cs with
  | none => .error .invalidNumber
  | some word => do
    if maxExponent < (← magnitude word) then .error .invalidNumber else .ok word

/-- The letters that an exponent stands behind.  They are the only letters in a number text. -/
def isMark (c : Char) : Bool := c == 'e' || c == 'E'

/-- Reads what follows the mark; a text without it has the exponent zero.  A mark with nothing
behind it is refused. -/
def exponentBehind : Option (List Char) → Except NumberError Int
  | none => .ok 0
  | some cs => exponentOfChars cs

/-- Reads the digits around the point.  One side of it may be empty, and the point itself may be
missing if there are digits. -/
def mantissaOfChars? (cs : List Char) : Option (Digits × Digits) :=
  let (integer, fraction) := Text.cutAt (· == '.') cs
  let fraction := fraction.getD []
  if integer.isEmpty && fraction.isEmpty then none
  else do
    let integer ← Digits.ofChars? integer
    let fraction ← Digits.ofChars? fraction
    some (integer, fraction)

/-- Reads the parts of a number text.  The exponent is read before the mantissa is looked at, so an
exponent that stops the program does so whatever stands in front of it. -/
def ofChars (cs : List Char) : Except NumberError Numeral := do
  let (negative, body) := takeSign (Text.trim cs)
  let (mantissa, behind) := Text.cutAt isMark body
  let exponent ← exponentBehind behind
  match mantissaOfChars? mantissa with
  | none => .error .invalidNumber
  | some (integer, fraction) => .ok ⟨negative, integer, fraction, exponent⟩

/-- The number the parts stand for: the exponent moves the point, and the form becomes canonical. -/
def toDecimal (n : Numeral) : Decimal :=
  .placePoint n.negative (n.integer ++ n.fraction) (n.integer.length + n.exponent)

end Numeral

/-! ## 2. Reading and writing decimals

Callers hold numbers as strings; the definitions work on lists of characters, where texts can be cut
and compared.  The functions on strings add nothing of their own. -/

namespace Decimal

/-- Reads a number text: first its parts, then the number they stand for.  Only the parts can fail
to be read. -/
def parse (cs : List Char) : Except NumberError Decimal := (Numeral.ofChars cs).map Numeral.toDecimal

/-- `parse` on a string. -/
def ofString (text : String) : Except NumberError Decimal := parse text.toList

/-- The canonical text of a decimal in canonical form: no point if there is nothing behind it, and
no sign but a minus sign. -/
def toChars (x : Decimal) : List Char :=
  (if x.negative then ['-'] else []) ++ x.integer.toChars ++
    (if x.fraction.isEmpty then [] else '.' :: x.fraction.toChars)

/-- `toChars` as a string. -/
protected def toString (x : Decimal) : String := String.ofList x.toChars

instance : ToString Decimal := ⟨Decimal.toString⟩

/-- The text that names the type along with the value, for use in diagnostics. -/
def inspect (x : Decimal) : String := "ExactDecimal(" ++ x.toString ++ ")"

end Decimal

/-! ## 3. What is read is canonical

Canonical form asks for digits in both halves, and the reader lets nothing else through.  The lemmas
follow the reader from the inside out, from a run of digits to the whole text. -/

namespace Numeral

theorem valid_of_ofChars? {cs : List Char} {ds : Digits} (h : Digits.ofChars? cs = some ds) :
    ds.Valid := by
  unfold Digits.ofChars? at h
  split at h
  · next hall =>
    obtain rfl := Option.some.inj h
    intro d hd
    obtain ⟨c, hc, rfl⟩ := List.mem_map.1 hd
    have hdigit := List.all_eq_true.1 hall c hc
    simp only [Char.isDigit, Bool.and_eq_true, decide_eq_true_eq] at hdigit
    have hle : c.toNat ≤ 57 := hdigit.2
    unfold digitOf
    omega
  · cases h

theorem valid_of_mantissaOfChars? {cs : List Char} {integer fraction : Digits}
    (h : mantissaOfChars? cs = some (integer, fraction)) : integer.Valid ∧ fraction.Valid := by
  simp only [mantissaOfChars?] at h
  split at h
  · cases h
  · simp only [Option.bind_eq_bind, Option.bind_eq_some_iff, Option.some.injEq,
      Prod.mk.injEq] at h
    obtain ⟨_, hinteger, _, hfraction, rfl, rfl⟩ := h
    exact ⟨valid_of_ofChars? hinteger, valid_of_ofChars? hfraction⟩

/-- What the parts were read from: the text behind the sign, cut at its mark.  Proofs about texts
that are read start here instead of opening the reader. -/
theorem exists_of_ofChars {cs : List Char} {n : Numeral} (h : ofChars cs = .ok n) :
    ∃ mantissa behind, Text.cutAt isMark (takeSign (Text.trim cs)).2 = (mantissa, behind) ∧
      exponentBehind behind = .ok n.exponent ∧
      mantissaOfChars? mantissa = some (n.integer, n.fraction) ∧
      (takeSign (Text.trim cs)).1 = n.negative := by
  cases hcut : Text.cutAt isMark (takeSign (Text.trim cs)).2 with | _ mantissa behind
  refine ⟨mantissa, behind, rfl, ?_⟩
  simp only [ofChars, hcut] at h
  cases hexponent : exponentBehind behind with
  | error e =>
    rw [hexponent] at h
    cases h
  | ok k =>
    rw [hexponent] at h
    cases hmantissa : mantissaOfChars? mantissa with
    | none =>
      rw [hmantissa] at h
      cases h
    | some halves =>
      rw [hmantissa] at h
      obtain rfl := Except.ok.inj h
      exact ⟨rfl, rfl, rfl⟩

theorem valid_of_ofChars {cs : List Char} {n : Numeral} (h : ofChars cs = .ok n) :
    n.integer.Valid ∧ n.fraction.Valid := by
  obtain ⟨_, _, -, -, hmantissa, -⟩ := exists_of_ofChars h
  exact valid_of_mantissaOfChars? hmantissa

end Numeral

namespace Decimal

theorem parse_canonical {cs : List Char} {x : Decimal} (h : parse cs = .ok x) : x.Canonical := by
  unfold parse at h
  cases hread : Numeral.ofChars cs with
  | error e =>
    rw [hread] at h
    cases h
  | ok n =>
    rw [hread] at h
    obtain rfl := Except.ok.inj h
    obtain ⟨hinteger, hfraction⟩ := Numeral.valid_of_ofChars hread
    exact placePoint_canonical
      (fun d hd => (List.mem_append.1 hd).elim (hinteger d) (hfraction d)) _ _

end Decimal
end DecimalCalc
