/-
# Long division of runs of digits

The dividend's digits are brought down one by one behind the remainder, and the divisor is taken
away as often as it goes; the count is the next digit of the quotient.  After the whole part, the
division goes on through the dividend's fraction and then through zeros, until nothing remains or a
cap on the number of fraction digits is reached.  The cap counts digits of the quotient that stand
behind the point, and it holds for the digits of the dividend's fraction as well as for the zeros.

A step is defined with a bound of ten on the number of subtractions, so that it is a structural
recursion and can be evaluated.  The bound is no part of the algorithm.  The remainder is smaller
than the divisor before a digit is brought down, so that it is smaller than ten times the divisor
afterwards, and the divisor goes into it nine times at most.  That the loop without a bound stops by
itself, and with the same result, is proved apart.

The remainder is kept without zeros in front, so that zero is the empty run and the division can
tell that it is exact by looking whether anything is left.

* `LongDivision.divideFraction_zero`: with a cap of zero the division stops at the point;
* `LongDivision.length_divideWhole`: the whole part of a quotient has as many digits as that of its
  dividend.
-/
import DecimalCalc.Digits.Carry

namespace DecimalCalc
namespace Digits

/-! ## 1. One step

The inner loop counts subtractions.  It compares before it subtracts, so a subtraction always has
enough to take from, and it trims what is left, so that the comparison may go by the number of
digits. -/

/-- Takes the divisor away from the remainder as often as it goes, but at most `bound` times: the
count, and what is left without zeros in front. -/
def takeOut (divisor : Digits) : Nat → Digits → Nat × Digits
  | 0, remainder => (0, remainder)
  | bound + 1, remainder =>
    if Digits.compare remainder divisor = .lt then (0, remainder)
    else
      let rest := takeOut divisor bound (trimLeading (subtract remainder divisor))
      (rest.1 + 1, rest.2)

/-- Brings one digit down behind the remainder and takes the divisor out: the quotient digit and
the next remainder.  The divisor goes at most nine times into a remainder that was smaller than
itself, so a bound of ten never cuts the count short. -/
def divisionStep (divisor remainder : Digits) (d : Nat) : Nat × Digits :=
  takeOut divisor 10 (trimLeading (remainder ++ [d]))

/-! ## 2. A whole division

The state of a division is what remains and the quotient found so far.  The three phases, the whole
part, the fraction and the zeros behind it, all bring down one digit after the other; they differ in
where the digits come from and in when they stop. -/

/-- A long division under way: what remains, without zeros in front, and the quotient digits found
so far, the last one first. -/
structure LongDivision where
  remainder : Digits
  quotient : List Nat
deriving DecidableEq, Repr

namespace LongDivision

/-- Nothing brought down yet, so nothing remains and there is no quotient. -/
def start : LongDivision := ⟨[], []⟩

/-- Brings down one digit, which adds one digit to the quotient, be it zero. -/
def bringDown (divisor : Digits) (s : LongDivision) (d : Nat) : LongDivision :=
  let step := divisionStep divisor s.remainder d
  ⟨step.2, step.1 :: s.quotient⟩

/-- Brings down the digits in front of the point.  This part is not capped: the cap is about
fraction digits. -/
def divideWhole (divisor : Digits) (ds : Digits) : LongDivision := ds.foldl (bringDown divisor) start

/-- Brings down the pending fraction digits and after them zeros: at most `cap` digits, and no more
zeros once nothing remains.  The digits of the dividend's own fraction are brought down even if
nothing remains. -/
def divideFraction (divisor : Digits) : Nat → Digits → LongDivision → LongDivision
  | 0, _, s => s
  | cap + 1, d :: pending, s => divideFraction divisor cap pending (s.bringDown divisor d)
  | cap + 1, [], s =>
    if s.remainder.isEmpty then s else divideFraction divisor cap [] (s.bringDown divisor 0)

@[simp] theorem divideFraction_zero (divisor pending : Digits) (s : LongDivision) :
    divideFraction divisor 0 pending s = s := by
  unfold divideFraction
  rfl

@[simp] theorem length_bringDown (divisor : Digits) (s : LongDivision) (d : Nat) :
    (s.bringDown divisor d).quotient.length = s.quotient.length + 1 := rfl

theorem length_divideWhole (divisor ds : Digits) :
    (divideWhole divisor ds).quotient.length = ds.length := by
  have h : ∀ (ds : List Nat) (s : LongDivision),
      (ds.foldl (bringDown divisor) s).quotient.length = s.quotient.length + ds.length := by
    intro ds
    induction ds with
    | nil => simp
    | cons d ds ih => intro s; rw [List.foldl_cons, ih, length_bringDown, List.length_cons]; omega
  simpa [divideWhole, start] using h ds start

end LongDivision
end Digits
end DecimalCalc
