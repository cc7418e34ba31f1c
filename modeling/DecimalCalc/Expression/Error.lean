/-
# What can be wrong with an expression

A syntax error is about the text alone; a number error comes from a literal or from a division.  The
two are kept apart, since a caller who is told of a syntax error has to change the text, and one who
is told of a number error may have to change the numbers.

A syntax error can come to light at three points: when the characters are looked at before anything
is read, when parentheses are matched, and when operands and operators turn out not to alternate.
The last is found in part while signs are folded and in part when the level is evaluated.  That is
late, and a number error in front of the fault may be reported in its place.  The constructors stand
in the order of these three points.
-/
import DecimalCalc.Decimal.Error

namespace DecimalCalc

/-- Why a text is not an expression.  The first seven are reported by the gate, the next three by
matching parentheses, and the last three by the order of the tokens. -/
inductive SyntaxError where
  /-- A character that no expression holds, or one that cannot stand at that end. -/
  | disallowedCharacter
  /-- A run such as a doubled plus sign. -/
  | duplicateOperator
  /-- An additive operator directly before a multiplicative one. -/
  | illegalOperatorSequence
  /-- A group directly after a group. -/
  | adjacentParentheses
  /-- A group with nothing in it. -/
  | emptyParentheses
  /-- A digit directly after a group. -/
  | digitAfterParenthesis
  /-- A group directly after a digit. -/
  | parenthesisAfterDigit
  /-- A closing parenthesis that closes nothing. -/
  | unmatchedClosingParenthesis
  /-- A group that is not closed. -/
  | unclosedParenthesis
  /-- Too many groups inside one another. -/
  | nestingTooDeep
  /-- An operator with nothing behind it, or a level without operands. -/
  | missingOperand
  /-- Two operands with no operator between them. -/
  | missingOperator
  /-- An operator where an operand should stand. -/
  | unexpectedOperator
deriving DecidableEq, Repr

/-- The wording of a syntax error.  It names what is wrong and not where. -/
def SyntaxError.message : SyntaxError → String
  | .disallowedCharacter => "expression contains disallowed content"
  | .duplicateOperator => "expression contains a duplicated operator"
  | .illegalOperatorSequence => "expression contains an illegal operator sequence"
  | .adjacentParentheses => "adjacent parenthesis groups are not allowed"
  | .emptyParentheses => "empty parentheses are not allowed"
  | .digitAfterParenthesis => "a digit cannot directly follow a closing parenthesis"
  | .parenthesisAfterDigit => "an opening parenthesis cannot directly follow a digit"
  | .unmatchedClosingParenthesis => "closing parenthesis without a matching opening one"
  | .unclosedParenthesis => "parenthesis is not closed"
  | .nestingTooDeep => "parentheses are nested too deeply"
  | .missingOperand => "operator is missing an operand"
  | .missingOperator => "operands must be separated by an operator"
  | .unexpectedOperator => "operator found where an operand was expected"

/-- Why an expression has no value, with the cause as it was found. -/
inductive ExpressionError where
  | malformed (cause : SyntaxError)
  | numeric (cause : NumberError)
deriving DecidableEq, Repr

namespace ExpressionError

/-- The wording of the cause, without saying what kind of error it is. -/
def causeMessage : ExpressionError → String
  | .malformed cause => cause.message
  | .numeric cause => cause.message

/-- The wording of the error, which begins with its kind. -/
def message : ExpressionError → String
  | .malformed cause => "syntax error: " ++ cause.message
  | .numeric cause => "evaluation error: " ++ cause.message

end ExpressionError
end DecimalCalc
