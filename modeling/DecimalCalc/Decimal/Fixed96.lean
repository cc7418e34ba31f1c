/-
# Decimals in ninety-six bits

Systems next door hold decimals as a signed integer of at most ninety-six bits over a power of ten
of at most twenty-eight.  Every such number is a decimal; a decimal is such a number if it has few
enough digits.  They take it as its canonical text, with a reader of their own.

The two directions differ in kind.  What comes from outside always fits, and arrives as an integer
whose point is moved.  What goes outside may have too many digits, in front of the point or behind
it, and is handed over as text; the reader decides, and all its complaints are reported as one.  The
reader is not part of this library, so `toFixed96` takes it as an argument, while `toFixed96?` says
by the digits alone which number it ought to find.

* `ofFixed96_canonical`: what comes from outside is canonical;
* `toFixed96?_eq_none_iff`: exactly the numbers with too many digits stay behind.
-/
import DecimalCalc.Decimal.Numeral

namespace DecimalCalc

/-- The largest integer of ninety-six bits, `2 ^ 96 - 1`.  It has twenty-nine digits. -/
def maxMantissa : Nat := 79228162514264337593543950335

/-- A signed integer of at most ninety-six bits, `scale` of whose digits stand behind the point.
One value has several such forms, with more or fewer zeros at the end. -/
structure Fixed96 where
  mantissa : Int
  scale : Nat
  mantissa_le : mantissa.natAbs ≤ maxMantissa
  scale_le : scale ≤ 28
deriving DecidableEq, Repr

namespace Fixed96

/-- Checks both bounds.  This is the only way in for numbers whose bounds are not known already. -/
def make? (mantissa : Int) (scale : Nat) : Option Fixed96 :=
  if h : mantissa.natAbs ≤ maxMantissa ∧ scale ≤ 28 then some ⟨mantissa, scale, h.1, h.2⟩ else none

/-- The rational number that it stands for. -/
def value (d : Fixed96) : Rat := (d.mantissa : Rat) / 10 ^ d.scale

end Fixed96

namespace Decimal

open Digits

/-- The same number as a decimal.  Zeros at the end of the integer are lost on the way, as the
canonical form has none. -/
def ofFixed96 (d : Fixed96) : Decimal := (ofInt d.mantissa).shift (-d.scale)

/-- All digits of a decimal as one signed integer. -/
def mantissa (x : Decimal) : Int :=
  if x.negative then -(x.digits.toNat : Int) else x.digits.toNat

/-- The same number in ninety-six bits, with the scale of the canonical form, which is the least
one. -/
def toFixed96? (x : Decimal) : Option Fixed96 := Fixed96.make? x.mantissa x.scale

/-- Hands a decimal over as its canonical text; whatever the reader reports, the number does not fit. -/
def toFixed96 {ε : Type} (read : String → Except ε Fixed96) (x : Decimal) : Except NumberError Fixed96 :=
  (read x.toString).mapError fun _ => .invalidNumber

theorem ofFixed96_canonical (d : Fixed96) : (ofFixed96 d).Canonical :=
  shift_canonical (ofInt_canonical _) _

theorem natAbs_mantissa (x : Decimal) : x.mantissa.natAbs = x.digits.toNat := by
  unfold mantissa
  split <;> simp

theorem toFixed96?_eq_none_iff {x : Decimal} :
    x.toFixed96? = none ↔ maxMantissa < x.digits.toNat ∨ 28 < x.scale := by
  simp only [toFixed96?, Fixed96.make?, natAbs_mantissa, dite_eq_right_iff, reduceCtorEq,
    imp_false]
  omega

end Decimal
end DecimalCalc
