/-
# Calculators

A calculator evaluates, divides and writes numbers as its configuration says, and hands what happens
to its observer.  The events of a call are handed over in one go at its end, also when it fails: an
evaluation that stops halfway tells what it had done until then.

A calculator calculates nothing itself.  Its evaluation is `Expression.evaluate` under its cap, its
division is the division of number texts, and its formats are those of its configuration; what it
adds are the log and the events.  The order of the records of one call is fixed, first those of the
work, then one that closes the call, then those of the observer.

Configurations are checked when a calculator is created, and nowhere else.  A calculator that was
created has a valid configuration from then on, since none of its operations changes it.

* `evaluate_result`: a calculator finds the value that `Expression.evaluate` finds;
* `divide_result`: its division is the division of number texts;
* `create_eq_ok_iff`: a calculator is created exactly from a valid configuration.
-/
import DecimalCalc.Calculator.Config
import DecimalCalc.Calculator.Observer
import DecimalCalc.Expression.Evaluation
import DecimalCalc.NumberText

namespace DecimalCalc

/-! ## 1. Evaluation under observation

Evaluating under observation is available without a calculator too; a calculator only supplies the
observer and the cap.  The closing record says how the evaluation ended, and with what. -/

namespace Expression

/-- The record written after an evaluation.  It names the expression as it was given, and its value
or the wording of its error. -/
def closingRecord (expression : String) (result : Except ExpressionError String) : LogRecord :=
  match result with
  | .ok value =>
    ⟨.debug, "Expression evaluated", [("expression", .text expression), ("result", .text value)]⟩
  | .error e =>
    ⟨.debug, "Expression rejected", [("expression", .text expression), ("error", .text e.message)]⟩

/-- Evaluates an expression, closes its log, and hands the events to the observer.  The result is
that of evaluating it unobserved. -/
def evaluateFor (observer : Observer) (cap : Nat) (expression : String) :
    Report (Except ExpressionError String) :=
  let traced := run cap expression
  .deliver observer traced.result (traced.log ++ [closingRecord expression traced.result])
    traced.events

@[simp] theorem evaluateFor_result (observer : Observer) (cap : Nat) (expression : String) :
    (evaluateFor observer cap expression).result = evaluate cap expression := rfl

end Expression

/-! ## 2. Calculators

The operations of a calculator on texts.  Those that evaluate and divide are observed and return a
report; those that only write numbers have no events and write no records. -/

/-- A configuration and an observer.  Calculators are made by `create`, so their configurations are
valid ones. -/
structure Calculator where
  config : Config
  observer : Observer
deriving DecidableEq, Repr

namespace Calculator

/-- The cap on divisions. -/
def cap (c : Calculator) : Nat := c.config.maxDecimalLength.toNat

/-- The record of a creation.  It shows the two lengths that the configuration was accepted with. -/
def creationRecord (config : Config) : LogRecord :=
  ⟨.debug, "Calculator created",
    [("max_decimal_length", .number config.maxDecimalLength.toNat),
     ("decimals", .number config.format.decimals.toNat)]⟩

/-- Creates a calculator if its configuration is valid.  No record is written for one that is
refused. -/
def create (config : Config) (observer : Observer) : Except ConfigError (Report Calculator) := do
  config.validate
  return ⟨⟨config, observer⟩, [], [creationRecord config]⟩

/-- Evaluates an expression under the calculator's cap, observed by its observer. -/
def evaluate (c : Calculator) (expression : String) : Report (Except ExpressionError String) :=
  Expression.evaluateFor c.observer c.cap expression

/-- Evaluates an expression and writes its value in the configured format.  The events are those of
the evaluation, whether or not its value can be written. -/
def evaluateFormatted (c : Calculator) (expression : String) :
    Report (Except ExpressionError String) :=
  (c.evaluate expression).map fun result => do
    let value ← result
    (c.config.format.format value).mapError .numeric

/-- The event of a division that left something.  It tells operands and results by their canonical
texts. -/
def truncation (x y : Decimal) (d : NumberText.Division) : List Event :=
  if d.isExact then []
  else [.divisionTruncated x.toString y.toString d.quotient d.remainder]

/-- Divides; the observer is told if something was cut off.  A division that is refused has no
event. -/
def divideWithRemainder (c : Calculator) (a b : String) :
    Report (Except NumberError NumberText.Division) :=
  let division := do
    let (x, y) ← NumberText.both a b
    let d := NumberText.Division.ofDivided (← Decimal.divideWithRemainder c.cap x y)
    return (d, truncation x y d)
  match division with
  | .ok (d, events) => .deliver c.observer (.ok d) [] events
  | .error e => .quiet (.error e)

/-- Divides, for the quotient alone. -/
def divide (c : Calculator) (a b : String) : Report (Except NumberError String) :=
  (c.divideWithRemainder a b).map fun result => result.map (·.quotient)

/-- Rounds as configured, without grouping. -/
def round (c : Calculator) (text : String) : Except NumberError String := c.config.format.round text

/-- Rounds and groups as configured. -/
def format (c : Calculator) (text : String) : Except NumberError String :=
  c.config.format.format text

/-- Writes an amount in millions if it is that large. -/
def formatMillion (c : Calculator) (text : String) : Except NumberError String :=
  c.config.format.formatMillion text

/-- Writes an amount in billions if it is that large. -/
def formatBillion (c : Calculator) (text : String) : Except NumberError String :=
  c.config.format.formatBillion text

/-- Writes an amount in the largest unit that it exceeds. -/
def formatMoney (c : Calculator) (text : String) : Except NumberError String :=
  c.config.format.formatMoney text

theorem evaluate_result (c : Calculator) (expression : String) :
    (c.evaluate expression).result = Expression.evaluate c.cap expression := rfl

theorem divideWithRemainder_result (c : Calculator) (a b : String) :
    (c.divideWithRemainder a b).result = NumberText.divideWithRemainder c.cap a b := by
  unfold divideWithRemainder NumberText.divideWithRemainder
  cases NumberText.both a b with
  | error e => rfl
  | ok xy =>
    obtain ⟨x, y⟩ := xy
    simp only [bind, Except.bind]
    cases Decimal.divideWithRemainder c.cap x y <;> rfl

theorem divide_result (c : Calculator) (a b : String) :
    (c.divide a b).result = NumberText.divide c.cap a b := by
  rw [NumberText.divide_eq_quotient, ← divideWithRemainder_result]
  rfl

/-- A creation succeeds exactly if the configuration is valid, and then there is only one thing it
can return. -/
theorem create_eq_ok_iff {config : Config} {observer : Observer} {r : Report Calculator} :
    create config observer = .ok r ↔
      config.validate = .ok () ∧ r = ⟨⟨config, observer⟩, [], [creationRecord config]⟩ := by
  unfold create
  cases config.validate with
  | error e => simp [bind, Except.bind]
  | ok u => simp [bind, Except.bind, pure, Except.pure, eq_comm]

end Calculator
end DecimalCalc
