/-
# Sessions

A session is a sequence of operations on decimals.  Values come in as texts, as integers or as
ninety-six-bit decimals, and every operation works on values that are held already; what it yields
is held from then on.  An operation that has no result leaves the session as it is.

Many operations have short cuts that skip the normalising, so the canonical form is an invariant to
be kept by each of them, and whatever compares or writes values relies on it.  There is no way for a
caller to come by a decimal but through these operations, so a value that a session holds stands for
every value that a program can ever have in hand.  The invariant is proved once for each operation
and then, by induction, for sessions of any length.

* `Operation.yield_canonical`: an operation on canonical values yields canonical values;
* `canonical_step`, `canonical_run`: so a step keeps the invariant, and a whole session does;
* `session_canonical`: hence equality, value and order of held values agree, and texts read back.
-/
import DecimalCalc.Decimal.Fixed96
import DecimalCalc.Decimal.Rounding
import DecimalCalc.Proofs.Decimal.Division
import DecimalCalc.Proofs.Decimal.Order
import DecimalCalc.Proofs.Decimal.Spelling

namespace DecimalCalc
namespace Decimal

/-! ## 1. Sessions

The state of a session is the list of the values it holds, the oldest first.  Operands are named by
their places in that list, and a place that is not there makes the operation yield nothing. -/

/-- An operation of a session.  Operands are named by their places among the values held; caps and
numbers of decimals are given with the operation. -/
inductive Operation where
  /-- Reads a number text. -/
  | read (text : String)
  /-- Takes in an integer, of a machine word or larger. -/
  | integer (n : Int)
  | fixed96 (d : Fixed96)
  | zero
  | one
  | add (i j : Nat)
  | subtract (i j : Nat)
  | multiply (i j : Nat)
  | negate (i : Nat)
  | abs (i : Nat)
  /-- The sum of all values held at the places. -/
  | sum (places : List Nat)
  | divide (cap i j : Nat)
  | divideWithRemainder (cap i j : Nat)
  | round (mode : RoundingMode) (decimals i : Nat)
deriving DecidableEq, Repr

/-- What an operation yields: nothing if an operand is not held, if a text is no number or if a divisor
is zero. -/
def Operation.yield (held : List Decimal) : Operation → Option (List Decimal)
  | .read text => do return [← (ofString text).toOption]
  | .integer n => some [ofInt n]
  | .fixed96 d => some [ofFixed96 d]
  | .zero => some [Decimal.zero]
  | .one => some [Decimal.one]
  | .add i j => do return [(← held[i]?) + (← held[j]?)]
  | .subtract i j => do return [(← held[i]?) - (← held[j]?)]
  | .multiply i j => do return [(← held[i]?) * (← held[j]?)]
  | .negate i => do return [-(← held[i]?)]
  | .abs i => do return [(← held[i]?).abs]
  | .sum places => some [Decimal.sum (places.filterMap fun i => held[i]?)]
  | .divide cap i j => do return [← (Decimal.divide cap (← held[i]?) (← held[j]?)).toOption]
  | .divideWithRemainder cap i j => do
    let d ← (Decimal.divideWithRemainder cap (← held[i]?) (← held[j]?)).toOption
    return [d.quotient, d.remainder]
  | .round mode decimals i => do return [Decimal.round mode decimals (← held[i]?)]

/-- Carries out one operation; what it yields is held behind the other values.  A division with
remainder yields two. -/
def step (held : List Decimal) (operation : Operation) : List Decimal :=
  held ++ (operation.yield held).getD []

/-- The values held after a session, in the order in which they came. -/
def run (operations : List Operation) : List Decimal := operations.foldl step []

/-! ## 2. The canonical form is kept

The invariant is that of each single value, for all values held.  Each operation has a lemma on the
canonical form beside its definition, and the case of the operation is that lemma. -/

/-- All values are in canonical form.  An empty session satisfies this, as every session does at
its start. -/
def AllCanonical (held : List Decimal) : Prop := ∀ x ∈ held, x.Canonical

theorem allCanonical_singleton {x : Decimal} : AllCanonical [x] ↔ x.Canonical := by
  simp [AllCanonical]

/-- Operands are values that are held, so they are canonical. -/
theorem AllCanonical.of_getElem? {held : List Decimal} (h : AllCanonical held) {i : Nat} {x : Decimal}
    (hx : held[i]? = some x) : x.Canonical :=
  h x (List.mem_of_getElem? hx)

/-- **An operation on canonical values yields canonical values.**  One case for each operation;
those that take values in need no assumption on what is held. -/
theorem Operation.yield_canonical {held : List Decimal} (h : AllCanonical held)
    {operation : Operation} {yielded : List Decimal} (hyield : operation.yield held = some yielded) :
    AllCanonical yielded := by
  cases operation <;>
    simp only [yield, Option.bind_eq_bind, Option.bind_eq_some_iff, Option.pure_def,
      Option.some.injEq] at hyield
  case read text =>
    obtain ⟨x, hx, rfl⟩ := hyield
    exact allCanonical_singleton.2 (parse_canonical (toOption_eq_some_iff.1 hx))
  case integer n =>
    subst hyield
    exact allCanonical_singleton.2 (ofInt_canonical n)
  case fixed96 d =>
    subst hyield
    exact allCanonical_singleton.2 (ofFixed96_canonical d)
  case zero =>
    subst hyield
    exact allCanonical_singleton.2 zero_canonical
  case one =>
    subst hyield
    exact allCanonical_singleton.2 one_canonical
  case add i j =>
    obtain ⟨x, hx, y, hy, rfl⟩ := hyield
    exact allCanonical_singleton.2 (add_canonical (h.of_getElem? hx) (h.of_getElem? hy))
  case subtract i j =>
    obtain ⟨x, hx, y, hy, rfl⟩ := hyield
    exact allCanonical_singleton.2 (sub_canonical (h.of_getElem? hx) (h.of_getElem? hy))
  case multiply i j =>
    obtain ⟨x, hx, y, hy, rfl⟩ := hyield
    exact allCanonical_singleton.2 (mul_canonical (h.of_getElem? hx) (h.of_getElem? hy))
  case negate i =>
    obtain ⟨x, hx, rfl⟩ := hyield
    exact allCanonical_singleton.2 (neg_canonical (h.of_getElem? hx))
  case abs i =>
    obtain ⟨x, hx, rfl⟩ := hyield
    exact allCanonical_singleton.2 (abs_canonical (h.of_getElem? hx))
  case sum places =>
    subst hyield
    refine allCanonical_singleton.2 (sum_canonical fun x hx => ?_)
    obtain ⟨i, -, hi⟩ := List.mem_filterMap.1 hx
    exact h.of_getElem? hi
  case divide cap i j =>
    obtain ⟨x, hx, y, hy, q, hq, rfl⟩ := hyield
    exact allCanonical_singleton.2
      (divide_canonical (h.of_getElem? hx) (h.of_getElem? hy) (toOption_eq_some_iff.1 hq))
  case divideWithRemainder cap i j =>
    obtain ⟨x, hx, y, hy, d, hd, rfl⟩ := hyield
    obtain ⟨hquotient, hremainder⟩ := divideWithRemainder_canonical (h.of_getElem? hx)
      (h.of_getElem? hy) (toOption_eq_some_iff.1 hd)
    exact List.forall_mem_cons.2 ⟨hquotient, allCanonical_singleton.2 hremainder⟩
  case round mode decimals i =>
    obtain ⟨x, hx, rfl⟩ := hyield
    exact allCanonical_singleton.2 (round_canonical (h.of_getElem? hx) mode decimals)

theorem canonical_step {held : List Decimal} (h : AllCanonical held) (operation : Operation) :
    AllCanonical (step held operation) := by
  refine List.forall_mem_append.2 ⟨h, ?_⟩
  cases hyield : operation.yield held with
  | none => exact fun _ hx => nomatch hx
  | some yielded => exact Operation.yield_canonical h hyield

/-- **Whatever a session holds is canonical.** -/
theorem canonical_run (operations : List Operation) : AllCanonical (run operations) := by
  have hfold : ∀ (operations : List Operation) {held : List Decimal}, AllCanonical held →
      AllCanonical (operations.foldl step held) := by
    intro operations
    induction operations with
    | nil => exact fun h => h
    | cons operation operations ih => exact fun h => ih (canonical_step h operation)
  exact hfold operations fun _ hx => nomatch hx

/-! ## 3. Equality, value and order

On canonical decimals equality of records, equality of values and the outcome of comparing are one
thing, so a session may use whichever is at hand, for keys, for sorting or for tests. -/

/-- **Sessions hold canonical values.**  So at each point of a session two values are the same decimal
exactly when they are the same number, and exactly when they compare as equal, and a value is read back
from its text. -/
theorem session_canonical (operations : List Operation) :
    (∀ x ∈ run operations, x.Canonical) ∧
    (∀ x ∈ run operations, ∀ y ∈ run operations,
      (x = y ↔ x.value = y.value) ∧ (x = y ↔ Decimal.compare x y = .eq)) ∧
    ∀ x ∈ run operations, ofString x.toString = .ok x := by
  have hcanonical := canonical_run operations
  refine ⟨hcanonical, ?_, fun x hx => ofString_toString (hcanonical x hx)⟩
  intro x hx y hy
  have hvalue : x = y ↔ x.value = y.value :=
    ⟨congrArg value, (hcanonical x hx).ext_value (hcanonical y hy)⟩
  exact ⟨hvalue, hvalue.trans (compare_eq_eq_iff (hcanonical x hx) (hcanonical y hy)).symm⟩

/-- A negative zero is read, a division by zero is refused, and a quotient is rounded. -/
def sampleSession : List Operation :=
  [.read "-0.00", .integer (-7), .read "20e-1", .sum [0, 1, 2], .divide 5 1 0,
   .divideWithRemainder 1 1 2, .round .floor 0 4]

/-- The session above holds seven values in the end, the two of a division with remainder among
them. -/
theorem session_canonical_sample :
    (∀ x ∈ run sampleSession, x.Canonical) ∧ run sampleSession =
      [zero, ⟨true, [7], []⟩, ⟨false, [2], []⟩, ⟨true, [5], []⟩, ⟨true, [3], [5]⟩, zero,
       ⟨true, [4], []⟩] :=
  ⟨(session_canonical sampleSession).1, by decide +kernel⟩

end Decimal
end DecimalCalc
