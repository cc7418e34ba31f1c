/-
# What an expression means

The usual reading of an expression is a term.  A sign belongs to the operand behind it, an additive
operator joins what multiplicative operators have joined before it, and operators of one kind
associate to the left.  A term has an exact rational value, unless it divides by zero or a literal
in it is no number.

This is what evaluation is measured against, and it knows nothing of it.  There are no tokens here,
no lifted runs and no groups that were put around anything; the order of the operations of a run is
the one that everyone learns at school.  A derivation of a text is read as a term by going along its
operands once.  That the program evaluates multiplications before divisions and puts groups around
runs is its own affair, and has to be shown to come to the same value.

* `Level.term`: the usual reading of a level;
* `Term.HasValue.unique`: a term has one value at most;
* `Term.HasValue.not_dividesByZero`: and only if it does not divide by zero.
-/
import DecimalCalc.Proofs.Decimal.Spelling
import DecimalCalc.Proofs.Expression.Grammar

namespace DecimalCalc

/-- The exact value of an operation; what a division by zero gives is of no account, since a term
that divides by zero has no value. -/
def Operator.exact : Operator → Rat → Rat → Rat
  | .add, a, b => a + b
  | .subtract, a, b => a - b
  | .multiply, a, b => a * b
  | .divide, a, b => a / b

namespace Expression

/-! ## 1. Terms

A term has a literal, a sign or an operation at its top, and so has a value or none by one rule
each.  Division by zero is a property of its own, so that having no value for this reason can be
told from having none because of a literal. -/

/-- An expression taken apart.  Parentheses have done their work and are gone. -/
inductive Term where
  | literal (text : List Char)
  | negate (term : Term)
  | binary (op : Operator) (left right : Term)
deriving DecidableEq, Repr

namespace Term

/-- The exact value of a term.  There is none if a divisor is zero, even where the result would not
depend on it. -/
inductive HasValue : Term → Rat → Prop
  | literal {text : List Char} {q : Rat} (h : Denotes text q) : HasValue (.literal text) q
  | negate {term : Term} {q : Rat} (h : HasValue term q) : HasValue (.negate term) (-q)
  | binary {op : Operator} {left right : Term} {a b : Rat} (hleft : HasValue left a)
      (hright : HasValue right b) (hzero : op = .divide → b ≠ 0) :
      HasValue (.binary op left right) (op.exact a b)

/-- Somewhere in the term a divisor is exactly zero, at the top or below. -/
inductive DividesByZero : Term → Prop
  | here {left right : Term} (h : HasValue right 0) : DividesByZero (.binary .divide left right)
  | negate {term : Term} (h : DividesByZero term) : DividesByZero (.negate term)
  | left {op : Operator} {left right : Term} (h : DividesByZero left) :
      DividesByZero (.binary op left right)
  | right {op : Operator} {left right : Term} (h : DividesByZero right) :
      DividesByZero (.binary op left right)

/-- **A term has one value at most.**  The induction is on the first of the two derivations, and
the term tells which rule the second one ends in. -/
theorem HasValue.unique {term : Term} {p q : Rat} (hp : term.HasValue p) (hq : term.HasValue q) :
    p = q := by
  induction hp generalizing q with
  | literal h =>
    cases hq with
    | literal h' => exact h.unique h'
  | negate h ih =>
    cases hq with
    | negate h' => rw [ih h']
  | binary hleft hright hzero ihleft ihright =>
    cases hq with
    | binary hleft' hright' hzero' => rw [ihleft hleft', ihright hright']

/-- A term with a value divides by zero nowhere, since each of its parts has a value. -/
theorem HasValue.not_dividesByZero {term : Term} {q : Rat} (h : term.HasValue q) :
    ¬ term.DividesByZero := by
  induction h with
  | literal h => intro hzero; cases hzero
  | negate h ih =>
    intro hzero
    cases hzero with
    | negate hzero => exact ih hzero
  | binary hleft hright hdivisor ihleft ihright =>
    intro hzero
    cases hzero with
    | here h => exact hdivisor rfl (hright.unique h)
    | left hzero => exact ihleft hzero
    | right hzero => exact ihright hzero

/-- A term behind a sign.  Two minus signs are kept as two, and have no effect on the value. -/
def signed (sign : Sign) (term : Term) : Term :=
  match sign with
  | .absent => term
  | .minus | .minusPlus => .negate term
  | .minusMinus => .negate (.negate term)

theorem HasValue.signed {term : Term} {q : Rat} (h : term.HasValue q) (sign : Sign) :
    (term.signed sign).HasValue (if sign.negative then -q else q) := by
  cases sign with
  | absent => exact h
  | minus => exact h.negate
  | minusPlus => exact h.negate
  | minusMinus =>
    have hnegated := h.negate.negate
    rwa [neg_neg] at hnegated

theorem DividesByZero.signed {term : Term} (h : term.DividesByZero) (sign : Sign) :
    (term.signed sign).DividesByZero := by
  cases sign with
  | absent => exact h
  | minus => exact h.negate
  | minusPlus => exact h.negate
  | minusMinus => exact h.negate.negate

end Term

/-! ## 2. The usual reading

A level is read from left to right with what was joined so far in hand.  A multiplicative operator
joins to the operand before it; an additive one first joins what has come together to what stood
before. -/

/-- Operands with operators between them, the first operand apart, so that there is always one. -/
structure Chain (α : Type) where
  first : α
  rest : List (Operator × α)

/-- Reads a chain from left to right.  `term` is what multiplicative operators have joined so far, and
`before` puts it behind what additive operators have joined before it. -/
def Term.readFrom (before : Term → Term) (term : Term) : List (Operator × Term) → Term
  | [] => before term
  | (op, operand) :: rest =>
    if op.isAdditive then readFrom (.binary op (before term)) operand rest
    else readFrom before (.binary op term operand) rest

/-- The usual reading of a chain: nothing stands in front of the first operand. -/
def Chain.read (chain : Chain Term) : Term := Term.readFrom id chain.first chain.rest

mutual

/-- The term of an operand. -/
def Operand.term : Operand → Term
  | .literal sign text => (Term.literal text.chars).signed sign
  | .group sign level => level.terms.read.signed sign

/-- The terms of the operands of a level, with the operators between them, before they are
joined. -/
def Level.terms : Level → Chain Term
  | .single operand => ⟨operand.term, []⟩
  | .join operand op rest => ⟨operand.term, (op, rest.terms.first) :: rest.terms.rest⟩

end

/-- **The usual reading of a level.**  Groups in it are read first, each as one operand. -/
def Level.term (level : Level) : Term := level.terms.read

mutual

/-- The literals of an operand, from left to right.  A value needs each of them to be a number. -/
def Operand.literals : Operand → List LiteralText
  | .literal _ text => [text]
  | .group _ level => level.literals

/-- The literals of a level, of its groups too. -/
def Level.literals : Level → List LiteralText
  | .single operand => operand.literals
  | .join operand _ rest => operand.literals ++ rest.literals

end

end Expression
end DecimalCalc
