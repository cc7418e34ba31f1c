/-
# Evaluating expressions

The operands of a level are evaluated from left to right, groups included; then its operations are
carried out, multiplications before divisions in a multiplicative level.  Operands and operators
have to alternate.  Each operation is told to the trace and written to the log.

That operations wait for all operands of their level decides in which order things happen.  The
events of a group come before any event of the level it stands in, and a fault of a later operand is
met before an operation between earlier ones.  A level that is malformed is found out on the way:
what had been evaluated before the misplaced node has happened already, and is in the trace.

Reordering the operations of a level is harmless to additive ones, which keep their order, and is
what makes a product in front of a division exact.  The order is that of the ranks, and of the text
within one rank.

* `evalLevel_nil`, `evalLevel_cons`: a level is its first operand and the steps behind it;
* `evalSteps_operand`: an operand is no step;
* `runSteps_nil`, `runSteps_cons`: steps are carried out one after the other;
* `run_of_ofTrimmed`: what is left to do once an expression was read;
* `executionOrder_perm`: reordering the steps loses none and invents none.
-/
import DecimalCalc.Decimal.Division
import DecimalCalc.Decimal.Numeral
import DecimalCalc.Expression.Traced
import DecimalCalc.Expression.Tree

namespace DecimalCalc
namespace Expression

/-! ## 1. One operation

An operation takes two numbers that are known already.  Three of the four operators always have an
exact result; a division may be refused, or be cut off and say so. -/

/-- The value of an operation; only a division can fail or be cut off, and then `truncated` is the
event that tells so.  This is the calculation alone, without telling it. -/
def operate (cap : Nat) (op : Operator) (x y : Decimal) :
    Except NumberError (Decimal × Option Event) :=
  match op with
  | .add => .ok (x + y, none)
  | .subtract => .ok (x - y, none)
  | .multiply => .ok (x * y, none)
  | .divide => do
    let d ← Decimal.divideWithRemainder cap x y
    let truncated :=
      if d.remainder.isZero then none
      else some (.divisionTruncated x.toString y.toString d.quotient.toString d.remainder.toString)
    return (d.quotient, truncated)

/-- The log record of an operation.  It is written for each operation that has a result, and for no
other. -/
def operationRecord (op : Operator) (x y result : Decimal) : LogRecord :=
  ⟨.trace, "Operation applied",
    [("lhs", .text x.toString), ("operator", .text (toString op)), ("rhs", .text y.toString),
     ("result", .text result.toString)]⟩

/-- Carries out an operation: a division that was cut off is told first, then the operation.  One
that is refused tells nothing. -/
def apply (cap : Nat) (op : Operator) (x y : Decimal) : Traced Decimal := do
  let (result, truncated) ← Traced.ofNumber (operate cap op x y)
  truncated.forM Traced.tell
  Traced.write (operationRecord op x y result)
  Traced.tell (.operationApplied op x.toString y.toString result.toString)
  return result

/-! ## 2. The steps of a level

Once the operands of a level have values, what is left of the level is its first value and a list of
steps.  The steps are sorted by rank and then carried out from left to right, each on the value so
far. -/

/-- An operator with the value of the operand behind it.  The operator stays with that operand when
steps are reordered. -/
structure Step where
  op : Operator
  operand : Decimal
deriving DecidableEq, Repr

/-- The steps in the order in which they are carried out: by rank, and in text order within one.
On steps of additive operators it is the order of the text. -/
def executionOrder (steps : List Step) : List Step :=
  [0, 1, 2].flatMap fun rank => steps.filter (·.op.rank == rank)

/-- Carries out steps one after the other.  The first step that fails ends it, and those before it
have been told. -/
def runSteps (cap : Nat) (first : Decimal) : List Step → Traced Decimal
  | [] => pure first
  | step :: steps => do
    let x ← apply cap step.op first step.operand
    runSteps cap x steps

/-! ## 3. Levels

The three functions follow the shape of a level: a node, a level, and what stands in a level behind
its first operand.  They recur on the tree, so a proof about them has one case for each of their
equations. -/

mutual

/-- Evaluates an operand.  A literal is read as a number here, for the first time, and an operator
is an operand nowhere. -/
def evalNode (cap : Nat) : Node → Traced Decimal
  | .literal text => Traced.ofNumber (Decimal.parse text)
  | .operator _ => Traced.malformed .unexpectedOperator
  | .group level => evalLevel cap level

/-- Evaluates a level: all its operands, then all its operations.  An empty level has no first
operand and therefore no value. -/
def evalLevel (cap : Nat) : List Node → Traced Decimal
  | [] => Traced.malformed .missingOperand
  | node :: level => do
    let first ← evalNode cap node
    let steps ← evalSteps cap level
    runSteps cap first (executionOrder steps)

/-- Evaluates the operands behind the first one, each with the operator in front of it.  Nothing is
calculated with them here. -/
def evalSteps (cap : Nat) : List Node → Traced (List Step)
  | [] => pure []
  | .operator _ :: [] => Traced.malformed .missingOperand
  | .operator op :: node :: level => do
    let operand ← evalNode cap node
    let steps ← evalSteps cap level
    return ⟨op, operand⟩ :: steps
  | _ :: _ => Traced.malformed .missingOperator

end

/-! ## 4. Expressions

An expression is read, announced, evaluated and reported.  The announcement comes once the text has
been read in full, so an expression that is refused before leaves no trace at all. -/

/-- Evaluates an expression to its canonical text, with everything that happens on the way.  The
texts of the events are without the blanks around the expression. -/
def run (cap : Nat) (expression : String) : Traced String := do
  let trimmed := Text.trim expression.toList
  let tree ← Traced.ofResult ((Tree.ofTrimmed trimmed).mapError .malformed)
  Traced.tell (.expressionParsed (String.ofList trimmed) (.ofNat tree.termCount))
  let value ← evalLevel cap tree.level
  Traced.tell (.expressionEvaluated (String.ofList trimmed) value.toString)
  return value.toString

/-- The value of an expression, divisions being cut off after `cap` fraction digits.  It is what
`run` ends in, without the trace. -/
def evaluate (cap : Nat) (expression : String) : Except ExpressionError String :=
  (run cap expression).result

/-! ## 5. Equations

The definitions above as equations that proofs rewrite with, so that nothing further on needs to
unfold them. -/

@[simp] theorem runSteps_nil (cap : Nat) (first : Decimal) : runSteps cap first [] = pure first :=
  rfl

@[simp] theorem runSteps_cons (cap : Nat) (first : Decimal) (step : Step) (steps : List Step) :
    runSteps cap first (step :: steps) =
      apply cap step.op first step.operand >>= fun x => runSteps cap x steps := rfl

theorem runSteps_append (cap : Nat) (first : Decimal) (steps more : List Step) :
    runSteps cap first (steps ++ more) =
      runSteps cap first steps >>= fun x => runSteps cap x more := by
  induction steps generalizing first with
  | nil => rw [List.nil_append, runSteps_nil, pure_bind]
  | cons step steps ih =>
    rw [List.cons_append, runSteps_cons, runSteps_cons, bind_assoc]
    simp only [ih]

theorem evalLevel_nil (cap : Nat) : evalLevel cap [] = Traced.malformed .missingOperand := by
  simp [evalLevel]

theorem evalLevel_cons (cap : Nat) (node : Node) (level : List Node) :
    evalLevel cap (node :: level) = (do
      let first ← evalNode cap node
      let steps ← evalSteps cap level
      runSteps cap first (executionOrder steps)) := by
  simp [evalLevel]

/-- Steps begin with an operator; an operand in that place means that two operands have none
between them. -/
theorem evalSteps_operand {node : Node} (h : node.isOperand = true) (cap : Nat) (level : List Node) :
    evalSteps cap (node :: level) = Traced.malformed .missingOperator := by
  cases node with
  | operator op => cases h
  | literal text => rw [evalSteps] <;> simp
  | group inside => rw [evalSteps] <;> simp

theorem run_of_ofTrimmed {cap : Nat} {expression : String} {tree : Tree}
    (h : Tree.ofTrimmed (Text.trim expression.toList) = .ok tree) :
    run cap expression = (do
      let trimmed := String.ofList (Text.trim expression.toList)
      Traced.tell (.expressionParsed trimmed (.ofNat tree.termCount))
      let value ← evalLevel cap tree.level
      Traced.tell (.expressionEvaluated trimmed value.toString)
      return value.toString) := by
  rw [run, h]
  exact pure_bind tree _

theorem executionOrder_perm (steps : List Step) : (executionOrder steps).Perm steps := by
  induction steps with
  | nil => exact .refl _
  | cons step steps ih =>
    simp only [executionOrder, List.flatMap_cons, List.flatMap_nil, List.append_nil,
      List.filter_cons] at ih ⊢
    cases step.op <;> simp only [Operator.rank, beq_self_eq_true, if_true, Nat.reduceBEq,
      Bool.false_eq_true, if_false]
    · exact .cons _ ih
    · exact .cons _ ih
    · exact List.perm_middle.trans (.cons _ ih)
    · rw [← List.append_assoc]
      exact List.perm_middle.trans (.cons _ (by rwa [List.append_assoc]))

end Expression
end DecimalCalc
