/-
# The four operators

Addition and subtraction are additive, multiplication and division multiplicative.  Inside a run of
equal precedence the multiplications go before the divisions, so that what a division cuts off is
not multiplied up.  Otherwise operators keep the order of the text: additions and subtractions among
each other, and divisions among themselves.

The names are those under which operators appear in events and in serialised form; the symbols are
those of the text.  Both are read back by functions of their own, and that a character is the symbol
of no operator is part of what makes it part of a literal.

* `ofChar?_symbol`: an operator is read back from its symbol;
* `isMultiplicative_eq_not_isAdditive`: each operator is of one of the two kinds.
-/
namespace DecimalCalc

/-- A binary operator.  There are no others; a sign is a minus that was folded into an operand
before operators are looked at. -/
inductive Operator where
  | add
  | subtract
  | multiply
  | divide
deriving DecidableEq, Repr

namespace Operator

/-- The operator with the given symbol.  Each symbol is one character, and no two operators share
one. -/
def ofChar? : Char → Option Operator
  | '+' => some .add
  | '-' => some .subtract
  | '*' => some .multiply
  | '/' => some .divide
  | _ => none

/-- The symbol of an operator. -/
def symbol : Operator → Char
  | .add => '+'
  | .subtract => '-'
  | .multiply => '*'
  | .divide => '/'

/-- The name of an operator, as events show it and as it is serialised. -/
def name : Operator → String
  | .add => "Add"
  | .subtract => "Subtract"
  | .multiply => "Multiply"
  | .divide => "Divide"

instance : ToString Operator := ⟨fun op => String.ofList [op.symbol]⟩

/-- Plus or minus, which bind less tightly than the other two. -/
def isAdditive : Operator → Bool
  | .add | .subtract => true
  | .multiply | .divide => false

/-- Times or divided by.  A level that holds operators of both kinds is split into runs of these. -/
def isMultiplicative : Operator → Bool
  | .add | .subtract => false
  | .multiply | .divide => true

/-- When an operator's turn comes inside a run: operators of one rank keep their order.  Ranks are
compared within one level, and a level of a tree holds operators of one kind only. -/
def rank : Operator → Nat
  | .add | .subtract => 0
  | .multiply => 1
  | .divide => 2

@[simp] theorem ofChar?_symbol (op : Operator) : ofChar? op.symbol = some op := by
  cases op <;> rfl

/-- The other direction: a character that is read as an operator is the symbol of that one. -/
theorem symbol_of_ofChar? {c : Char} {op : Operator} (h : ofChar? c = some op) : op.symbol = c := by
  unfold ofChar? at h
  split at h <;> first | cases h; rfl | cases h

theorem isMultiplicative_eq_not_isAdditive (op : Operator) :
    op.isMultiplicative = !op.isAdditive := by
  cases op <;> rfl

end Operator
end DecimalCalc
