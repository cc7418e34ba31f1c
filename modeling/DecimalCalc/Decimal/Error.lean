/-
# What can be wrong with a number

A text may be no number, and a divisor may be zero; these are the two errors that are handed back,
and a caller can tell them apart and go on.  There is a third way for an operation to end.  Reading
an exponent takes the magnitude of a word, and the least word of all has none that a word can hold:
there the calculation overflows and the program stops, without an answer.  It stands beside the two
errors as an outcome of its own, so that a theorem about what is handed back has to say whether it
covers it.
-/
namespace DecimalCalc

/-- Why an operation on numbers has no result.  Only the first two are errors in the hands of a
caller. -/
inductive NumberError where
  /-- The text is not a number, or the number does not fit the form asked for.  An exponent that is
  too large counts as the former. -/
  | invalidNumber
  /-- The divisor is zero. -/
  | divisionByZero
  /-- The exponent of a number text is the least signed word of 64 bits.  Its magnitude overflows, and
  the program stops there: no error is handed back to the caller. -/
  | overflow
deriving DecidableEq, Repr

/-- The wording of the error, and of the complaint with which the program stops.  Logs and
serialised answers show the error in this wording. -/
def NumberError.message : NumberError → String
  | .invalidNumber => "invalid number: input is not a decimal digit string"
  | .divisionByZero => "division by zero"
  | .overflow => "attempt to negate with overflow"

end DecimalCalc
