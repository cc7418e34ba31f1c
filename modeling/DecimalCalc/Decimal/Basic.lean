/-
# Decimals

A decimal is a sign, the digits in front of the point and the digits behind it.  Each value has one
canonical form: no zero in front but a lone one, no zero at the end of the fraction, and no minus
sign on zero.  The canonical form is what makes decimals usable as keys and as texts: two of them
are equal as records exactly when they are the same number, so that no operation ever needs a
comparison of values where an equality of digits will do.

Every operation ends in `placePoint`, which sets the point anywhere in or beside a run of digits and
normalises.  An operation therefore only has to say which run of digits its result has and where the
point falls; that the result is canonical follows from the digits being digits.  The form is a
structure of its own, `Canonical`, with one field for each of its demands, and is proved of each
operation beside its definition.

* `normalize_canonical`, `placePoint_canonical`: what is normalised is canonical;
* `shift_canonical`, `ofDigits_canonical`, `neg_canonical`, `abs_canonical`, `withSign_canonical`:
  the small operations keep the form.
-/
import DecimalCalc.Digits.Basic

namespace DecimalCalc

/-- A number with finitely many digits behind the point.  The record alone does not ask for the
canonical form; every operation that is given canonical numbers returns one. -/
structure Decimal where
  negative : Bool
  integer : Digits
  fraction : Digits
deriving DecidableEq, Hashable, Repr

namespace Decimal

open Digits

/-! ## 1. Meaning and form

A decimal denotes the number that all its digits denote together, divided by ten for each digit
behind the point.  The canonical form picks one of the many records that denote a value; `normalize`
finds it by trimming the two runs at their outer ends and dropping the sign of zero. -/

/-- An integer that a signed word of 64 bits holds: from `-2 ^ 63` up to, but not including, `2 ^
63`.  The two bounds are written out, so that comparing with them is comparing with numerals. -/
def Fits64 (n : Int) : Prop := -9223372036854775808 ≤ n ∧ n < 9223372036854775808

instance (n : Int) : Decidable (Fits64 n) := inferInstanceAs (Decidable (_ ∧ _))

/-- All digits, without the point.  Where the point stood is told by the length of either half. -/
def digits (x : Decimal) : Digits := x.integer ++ x.fraction

/-- The rational number that a decimal denotes.  All theorems about values speak of this number;
the records themselves are only compared and sorted. -/
def value (x : Decimal) : Rat :=
  (if x.negative then -1 else 1) * (x.digits.toNat : Rat) / 10 ^ x.fraction.length

/-- There is no digit but zero.  This is asked of records in any form, so a zero with many digits
or with a sign counts too. -/
def isZero (x : Decimal) : Bool := x.integer.allZero && x.fraction.allZero

/-- There is no digit behind the point.  Of a canonical number it says that the value is whole,
since its fraction does not end in zero. -/
def isInteger (x : Decimal) : Bool := x.fraction.isEmpty

/-- The number of digits behind the point; of a canonical number, the least that its value can be
written with. -/
def scale (x : Decimal) : Nat := x.fraction.length

/-- The canonical form: digits in both halves, at least one of them in front of the point, nothing
superfluous at either end, and no sign on zero. -/
structure Canonical (x : Decimal) : Prop where
  integer_valid : x.integer.Valid
  fraction_valid : x.fraction.Valid
  integer_ne_nil : x.integer ≠ []
  no_leading_zero : x.integer.head? = some 0 → x.integer = [0]
  no_trailing_zero : x.fraction.getLast? ≠ some 0
  zero_not_negative : x.isZero = true → x.negative = false

/-- Brings a sign and two runs of digits into canonical form.  The value stays as it is, and a run
that is canonical already comes out unchanged. -/
def normalize (negative : Bool) (integer fraction : Digits) : Decimal where
  negative := negative && !(integer.allZero && fraction.allZero)
  integer := if integer.trimLeading.isEmpty then [0] else integer.trimLeading
  fraction := fraction.trimTrailing

@[simp] theorem isZero_normalize (negative : Bool) (integer fraction : Digits) :
    (normalize negative integer fraction).isZero = (integer.allZero && fraction.allZero) := by
  have h : Digits.allZero (if integer.trimLeading.isEmpty then [0] else integer.trimLeading) =
      integer.allZero := by
    split
    · next hempty =>
      rw [← allZero_trimLeading integer, List.isEmpty_iff.1 hempty]
      rfl
    · exact allZero_trimLeading integer
  simp only [isZero, normalize, h, allZero_trimTrailing]

/-- Nothing but the two runs being digits is needed: whatever zeros they begin or end with are
taken away, and the sign is looked at last. -/
theorem normalize_canonical {negative : Bool} {integer fraction : Digits}
    (hinteger : integer.Valid) (hfraction : fraction.Valid) :
    (normalize negative integer fraction).Canonical where
  integer_valid := by
    simp only [normalize]
    split
    · decide
    · exact hinteger.trimLeading
  fraction_valid := hfraction.trimTrailing
  integer_ne_nil := by
    simp only [normalize]
    split
    · decide
    · next h => simpa using h
  no_leading_zero := by
    simp only [normalize]
    split
    · simp
    · exact fun h => absurd h (head?_trimLeading integer)
  no_trailing_zero := by
    simpa [normalize, trimTrailing] using head?_trimLeading fraction.reverse
  zero_not_negative := by
    rw [isZero_normalize]
    intro h
    simp [normalize, h]

/-! ## 2. Setting the point

The point may fall inside the run, in front of it or behind it.  In the latter two cases the gap is
filled with zeros, and only then are the two halves cut apart, so one definition serves products,
quotients, shifts and numbers read with an exponent. -/

/-- The digits with the point after the first `point` of them: zeros fill the gap when the point
falls in front of the run or behind it.  At most one of the two fillings is not empty. -/
def placePoint (negative : Bool) (ds : Digits) (point : Int) : Decimal :=
  let padded := List.replicate (-point).toNat 0 ++ ds ++ List.replicate (point - ds.length).toNat 0
  normalize negative (padded.take point.toNat) (padded.drop point.toNat)

/-- Where the point is set does not matter, since filling and cutting leave digits where there were
digits. -/
theorem placePoint_canonical {ds : Digits} (h : ds.Valid) (negative : Bool) (point : Int) :
    (placePoint negative ds point).Canonical := by
  have hpadded : Valid (List.replicate (-point).toNat 0 ++ ds ++
      List.replicate (point - ds.length).toNat 0) := by
    intro d hd
    simp only [List.mem_append, List.mem_replicate] at hd
    rcases hd with (⟨-, rfl⟩ | hd) | ⟨-, rfl⟩
    · decide
    · exact h d hd
    · decide
  exact normalize_canonical (fun d hd => hpadded d (List.mem_of_mem_take hd))
    fun d hd => hpadded d (List.mem_of_mem_drop hd)

/-- A run of digits whose last `fractionLength` ones stand behind the point.  There may be fewer
digits than that. -/
def ofDigits (negative : Bool) (ds : Digits) (fractionLength : Nat) : Decimal :=
  placePoint negative ds (ds.length - fractionLength)

/-- Moves the point to the right, or to the left for a negative number of places.  The value is
multiplied by ten to that power. -/
def shift (x : Decimal) (places : Int) : Decimal :=
  placePoint x.negative x.digits (x.integer.length + places)

theorem ofDigits_canonical {ds : Digits} (h : ds.Valid) (negative : Bool) (fractionLength : Nat) :
    (ofDigits negative ds fractionLength).Canonical :=
  placePoint_canonical h _ _

theorem Canonical.digits_valid {x : Decimal} (h : x.Canonical) : x.digits.Valid := fun d hd =>
  (List.mem_append.1 hd).elim (h.integer_valid d) (h.fraction_valid d)

theorem shift_canonical {x : Decimal} (h : x.Canonical) (places : Int) :
    (x.shift places).Canonical :=
  placePoint_canonical h.digits_valid _ _

/-! ## 3. Constants and integers

Integers come in from the machine and the two constants are written out.  The default decimal is
zero, which is also what an empty sum is. -/

/-- Zero. -/
def zero : Decimal := ⟨false, [0], []⟩

/-- One. -/
def one : Decimal := ⟨false, [1], []⟩

instance : Inhabited Decimal := ⟨zero⟩

/-- The decimal of an integer: the digits of its magnitude with nothing behind the point, and its
sign. -/
def ofInt (n : Int) : Decimal := ofDigits (n < 0) (Digits.ofNat n.natAbs) 0

theorem zero_canonical : zero.Canonical := by
  constructor <;> decide

theorem one_canonical : one.Canonical := by
  constructor <;> decide

theorem ofInt_canonical (n : Int) : (ofInt n).Canonical := ofDigits_canonical (valid_ofNat _) _ _

/-! ## 4. Signs

Operations on signs look at the digits only to see whether they are all zero, since zero takes no
sign.  The digits themselves stay where they are. -/

/-- The same magnitude with the given sign; zero takes none, so the canonical form is kept. -/
def withSign (x : Decimal) (negative : Bool) : Decimal :=
  { x with negative := negative && !x.isZero }

/-- The opposite number, which of zero is zero itself. -/
def neg (x : Decimal) : Decimal := x.withSign (!x.negative)

/-- The magnitude.  Taking a sign away needs no look at the digits. -/
def abs (x : Decimal) : Decimal := { x with negative := false }

instance : Neg Decimal := ⟨neg⟩

theorem withSign_canonical {x : Decimal} (h : x.Canonical) (negative : Bool) :
    (x.withSign negative).Canonical :=
  { h with
    zero_not_negative := fun hzero => by
      have hx : x.isZero = true := hzero
      simp [withSign, hx] }

theorem neg_canonical {x : Decimal} (h : x.Canonical) : (-x).Canonical := withSign_canonical h _

theorem abs_canonical {x : Decimal} (h : x.Canonical) : x.abs.Canonical :=
  { h with zero_not_negative := fun _ => rfl }

/-! ## 5. Powers of ten

Multiplying or dividing by a power of ten only moves the point, so such operands are recognised by
their digits.  In canonical form there are two shapes only: a one with zeros behind it, and a lone
zero in front of the point with a fraction that ends in its only one. -/

/-- The exponent, if the magnitude is a power of ten.  It is negative for a magnitude below one,
and the sign of the number is not looked at. -/
def powerOfTen? (x : Decimal) : Option Int :=
  match x.fraction with
  | [] =>
    match x.integer with
    | 1 :: zeros => if Digits.allZero zeros then some zeros.length else none
    | _ => none
  | fraction =>
    if x.integer = [0] ∧ fraction.getLast? = some 1 ∧ Digits.allZero fraction.dropLast then
      some (-fraction.length)
    else none

end Decimal
end DecimalCalc
