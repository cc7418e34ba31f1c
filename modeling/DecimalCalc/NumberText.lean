/-
# Arithmetic on number texts

The operations on decimals for callers who hold their numbers as text.  Operands are read first, the
left one before the right one, and results are written in canonical form.  If the left operand is no
number, the right one is not looked at.

Nothing is calculated here.  Each operation reads its operands, applies the operation on decimals
and writes the result, so what is known about decimals carries over as soon as it is known which
texts are read and as what.  The same holds of what goes wrong: an operation on texts fails as
reading one of its operands fails, or as the operation on decimals does.

* `canonicalize_eq_ok_iff`: a text canonicalises exactly when it is a number;
* `divide_eq_quotient`: `divide` gives the quotient of `divideWithRemainder`.
-/
import DecimalCalc.Decimal.Division
import DecimalCalc.Decimal.Numeral

namespace DecimalCalc
namespace NumberText

/-! ## 1. One operand

All operations with one operand have the same shape, and differ in what they do to the number
between reading and writing it. -/

/-- Reads a number, applies `f` and writes the result.  It fails exactly where reading fails, and
in the same way. -/
def map (f : Decimal → Decimal) (text : String) : Except NumberError String := do
  let x ← Decimal.ofString text
  return (f x).toString

/-- The canonical text of a number: the same number, in the one form that equal numbers share. -/
def canonicalize (text : String) : Except NumberError String := map id text

/-- The opposite number. -/
def negate (text : String) : Except NumberError String := map Decimal.neg text

/-- The magnitude. -/
def abs (text : String) : Except NumberError String := map Decimal.abs text

theorem canonicalize_eq_ok_iff {text result : String} :
    canonicalize text = .ok result ↔ ∃ x, Decimal.ofString text = .ok x ∧ result = x.toString := by
  unfold canonicalize map
  cases Decimal.ofString text with
  | error e => simp [bind, Except.bind]
  | ok x => simp [bind, Except.bind, pure, Except.pure, eq_comm]

/-! ## 2. Two operands

Both operands are read before anything is calculated, so an operation on texts that are numbers
fails only if the operation on decimals does.  Of these four, none ever does. -/

/-- Reads two numbers, the left one first.  What the left one fails with is what the whole fails
with. -/
def both (a b : String) : Except NumberError (Decimal × Decimal) := do
  let x ← Decimal.ofString a
  let y ← Decimal.ofString b
  return (x, y)

/-- The order of two numbers, however they are written: the texts themselves are never compared. -/
def compare (a b : String) : Except NumberError Ordering := do
  let (x, y) ← both a b
  return Decimal.compare x y

/-- The sum. -/
def add (a b : String) : Except NumberError String := do
  let (x, y) ← both a b
  return (x + y).toString

/-- The difference. -/
def subtract (a b : String) : Except NumberError String := do
  let (x, y) ← both a b
  return (x - y).toString

/-- The product. -/
def multiply (a b : String) : Except NumberError String := do
  let (x, y) ← both a b
  return (x * y).toString

/-! ## 3. Division

Division is the one operation that can refuse its operands, and the one that may not come out
exactly.  A caller who needs to know asks for the remainder as well, in the same call. -/

/-- The texts of a quotient and of what it leaves of the dividend's magnitude, both canonical. -/
structure Division where
  quotient : String
  remainder : String
deriving DecidableEq, Repr

/-- Nothing was cut off.  The remainder is in canonical form, so it is zero exactly if its text
is. -/
def Division.isExact (d : Division) : Bool := d.remainder == "0"

/-- The canonical texts of a quotient and its remainder. -/
def Division.ofDivided (d : Decimal.Divided) : Division := ⟨d.quotient.toString, d.remainder.toString⟩

/-- The quotient, cut off after `cap` fraction digits of long division. -/
def divide (cap : Nat) (a b : String) : Except NumberError String := do
  let (x, y) ← both a b
  return (← Decimal.divide cap x y).toString

/-- The capped quotient and what it leaves. -/
def divideWithRemainder (cap : Nat) (a b : String) : Except NumberError Division := do
  let (x, y) ← both a b
  return .ofDivided (← Decimal.divideWithRemainder cap x y)

theorem divide_eq_quotient (cap : Nat) (a b : String) :
    divide cap a b = (divideWithRemainder cap a b).map (·.quotient) := by
  unfold divide divideWithRemainder
  cases both a b with
  | error e => rfl
  | ok xy =>
    obtain ⟨x, y⟩ := xy
    simp only [bind, Except.bind, Decimal.divideWithRemainder]
    cases Decimal.divide cap x y <;> rfl

end NumberText
end DecimalCalc
