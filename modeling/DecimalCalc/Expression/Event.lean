/-
# What happens while an expression is evaluated

Events tell an observer that an expression was read, which operations were carried out on which
numbers, which divisions were cut off, and what came out.  Numbers are given by their canonical
text, so an event can be checked by anyone who can calculate: the operands and the result are all
there.

The events of one evaluation are a record of what was done, in order.  A division that was cut off
is told first and the operation itself right behind it, so that a reader who meets an inexact result
has been warned already.  An evaluation that fails has told what it did up to there, and the last
event is missing.

An event can also be shown on one line, as logs do.  The fields are listed under their names, and
texts stand in quotation marks.
-/
import DecimalCalc.Expression.Operator

namespace DecimalCalc

/-- Something that happened during an evaluation.  A calculator's divisions have events as well, of
the third kind only. -/
inductive Event where
  /-- The expression was read; `terms` counts the operands of its outermost level. -/
  | expressionParsed (expression : String) (terms : UInt64)
  /-- An operation was carried out. -/
  | operationApplied (operator : Operator) (lhs rhs result : String)
  /-- A division was cut off and left something. -/
  | divisionTruncated (dividend divisor quotient remainder : String)
  /-- The expression has a value. -/
  | expressionEvaluated (expression result : String)
deriving DecidableEq, Repr

namespace Event

/-- The name of the kind of event, in front of its fields when it is shown and in its serialised
form. -/
def name : Event → String
  | .expressionParsed .. => "ExpressionParsed"
  | .operationApplied .. => "OperationApplied"
  | .divisionTruncated .. => "DivisionTruncated"
  | .expressionEvaluated .. => "ExpressionEvaluated"

/-- A text in quotation marks.  The texts of events hold nothing that would need escaping, being
numbers and expressions that passed the gate. -/
def quoted (text : String) : String := "\"" ++ text ++ "\""

/-- The fields of an event as they are shown, each behind its name. -/
def shownFields : Event → List (String × String)
  | .expressionParsed expression terms =>
    [("expression", quoted expression), ("terms", toString terms.toNat)]
  | .operationApplied operator lhs rhs result =>
    [("operator", operator.name), ("lhs", quoted lhs), ("rhs", quoted rhs),
     ("result", quoted result)]
  | .divisionTruncated dividend divisor quotient remainder =>
    [("dividend", quoted dividend), ("divisor", quoted divisor), ("quotient", quoted quotient),
     ("remainder", quoted remainder)]
  | .expressionEvaluated expression result =>
    [("expression", quoted expression), ("result", quoted result)]

/-- The event on one line: its name, and its fields in braces. -/
def inspect (event : Event) : String :=
  event.name ++ " \x7b " ++
    ", ".intercalate (event.shownFields.map fun (name, value) => name ++ ": " ++ value) ++ " \x7d"

end Event
end DecimalCalc
