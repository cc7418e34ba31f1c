/-
# Log records

A record has a level, a message and named fields; a field holds text or a number.  Records are data
here: an operation returns those that it would write, in the order of writing, and what becomes of
them is left to the caller.  The order of the fields within a record is that of the program.
-/
namespace DecimalCalc

/-- How loud a record is.  Each operation that is performed is traced, calls are reported for
debugging, and only a division that was cut off is a warning. -/
inductive LogLevel where
  | trace
  | debug
  | warn
deriving DecidableEq, Repr

/-- What a field of a record holds.  Numbers are kept apart from text, as a log writes them
differently. -/
inductive LogValue where
  | text (value : String)
  | number (value : Nat)
deriving DecidableEq, Repr

/-- One record of a log. -/
structure LogRecord where
  level : LogLevel
  message : String
  fields : List (String × LogValue)
deriving DecidableEq, Repr

end DecimalCalc
