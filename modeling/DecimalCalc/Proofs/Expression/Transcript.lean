/-
# The log of an evaluation

What an evaluation tells leaves on two ways.  Each operation is written to the log when it is
carried out, deep inside a level or not; the events are kept until the end and are written then,
behind the record that closes the evaluation.  The two ways stay in step, wherever an evaluation
breaks off.

Being in step is an equation between the two parts of a trace: the log is what the events would have
been written as at once.  It holds of a single tell or write only in company, since an operation
writes a record and tells an event one behind the other.  From one operation on it is kept by
sequences, because a sequence joins both parts in the same way or leaves both as they are, and so it
holds of steps, of levels by induction on the tree, and of a whole evaluation, whatever becomes of
it.

* `Traced.InStep`: what was written so far is what the events tell of operations;
* `inStep_apply`, `inStep_evalLevel`: one operation, and a level, whatever becomes of it;
* `inStep_run`: so does a whole evaluation;
* `log_mirrors_events`: the log, record by record.
-/
import DecimalCalc.Calculator.Basic
import DecimalCalc.Proofs.Expression.Performed

namespace DecimalCalc

namespace Event

/-- What is written at once when an operation is carried out; nothing else is written at once.  The
record can be made from the event, as both hold the same texts. -/
def writtenAtOnce? : Event → Option LogRecord
  | .operationApplied operator lhs rhs result =>
    some ⟨.trace, "Operation applied",
      [("lhs", .text lhs), ("operator", .text (toString operator)), ("rhs", .text rhs),
       ("result", .text result)]⟩
  | _ => none

/-- **A warning is a division that was cut off**; everything else is for debugging. -/
theorem level_record (event : Event) :
    event.record.level = if event.isTruncation then .warn else .debug := by
  cases event <;> rfl

end Event

namespace Expression

variable {cap : Nat}

/-! ## 1. Computations that stay in step

The property of a computation that this module is about, and the ways in which computations are put
together.  None of them asks what a computation calculates. -/

namespace Traced

variable {α β : Type}

/-- What the computation wrote is what its events tell of operations, in the same order. -/
def InStep (x : Traced α) : Prop := x.log = x.events.filterMap Event.writtenAtOnce?

namespace InStep

theorem ofResult (result : Except ExpressionError α) : (Traced.ofResult result).InStep := rfl

theorem pure (a : α) : (Pure.pure a : Traced α).InStep := rfl

/-- An event that is no operation may be told alone. -/
theorem tell {event : Event} (h : event.writtenAtOnce? = none) : (Traced.tell event).InStep := by
  rw [InStep, Traced.tell, List.filterMap_cons_none h, List.filterMap_nil]

/-- The second part is in step behind the first one, or it never ran. -/
theorem bind {x : Traced α} {f : α → Traced β} (hx : x.InStep) (hf : ∀ a, (f a).InStep) :
    (x >>= f).InStep := by
  unfold InStep at hx ⊢
  cases hresult : x.result with
  | error e =>
    rw [bind_of_error hresult]
    exact hx
  | ok a =>
    rw [bind_of_ok hresult]
    show x.log ++ (f a).log = (x.events ++ (f a).events).filterMap Event.writtenAtOnce?
    rw [List.filterMap_append, ← hx, ← hf a]

end InStep
end Traced

/-! ## 2. Operations and levels

An operation that fails tells nothing and writes nothing; one that was cut off tells so first,
which writes nothing.  From there the proof goes along the evaluation, one case for each of its
equations. -/

/-- What tells that a division was cut off does not count as an operation. -/
theorem writtenAtOnce?_truncated {op : Operator} {x y z : Decimal} {truncated : Option Event}
    (h : operate cap op x y = .ok (z, truncated)) :
    truncated.toList.filterMap Event.writtenAtOnce? = [] := by
  rw [← truncation_of_operate h [] 0, Performed.truncation]
  split <;> rfl

/-- **One operation stays in step**: it is written and told once, and neither if it fails. -/
theorem inStep_apply (op : Operator) (x y : Decimal) : (apply cap op x y).InStep := by
  cases h : operate cap op x y with
  | error e =>
    rw [apply_of_error h]
    rfl
  | ok found =>
    obtain ⟨z, truncated⟩ := found
    rw [apply_of_ok h, Traced.InStep, List.filterMap_append, writtenAtOnce?_truncated h]
    rfl

/-- Steps stay in step, one after the other, up to the one that fails. -/
theorem inStep_runSteps (first : Decimal) (steps : List Step) : (runSteps cap first steps).InStep := by
  induction steps generalizing first with
  | nil => exact .pure first
  | cons step steps ih => exact .bind (inStep_apply step.op first step.operand) ih

mutual

/-- An operand: a literal leaves nothing behind, and a group is a level. -/
theorem inStep_evalNode : ∀ node : Node, (evalNode cap node).InStep
  | .literal text => by
    rw [evalNode]
    exact .ofResult _
  | .operator op => by
    rw [evalNode]
    exact .ofResult _
  | .group level => by
    rw [evalNode]
    exact inStep_evalLevel level

/-- **A level stays in step**, also when it breaks off inside a group or between its steps. -/
theorem inStep_evalLevel : ∀ level : List Node, (evalLevel cap level).InStep
  | [] => by
    rw [evalLevel_nil]
    exact .ofResult _
  | node :: level => by
    rw [evalLevel_cons]
    exact .bind (inStep_evalNode node) fun first =>
      .bind (inStep_evalSteps level) fun steps => inStep_runSteps first (executionOrder steps)

/-- The operands behind the first one, each in its turn. -/
theorem inStep_evalSteps : ∀ level : List Node, (evalSteps cap level).InStep
  | [] => by
    rw [evalSteps]
    exact .pure []
  | [.operator op] => by
    rw [evalSteps]
    exact .ofResult _
  | .operator op :: node :: level => by
    rw [evalSteps]
    exact .bind (inStep_evalNode node) fun operand =>
      .bind (inStep_evalSteps level) fun steps => .pure (⟨op, operand⟩ :: steps)
  | .literal _ :: level | .group _ :: level => by
    rw [evalSteps_operand rfl]
    exact .ofResult _

end

/-! ## 3. Evaluations

Around the level stand two events that are not written at once, so the evaluation stays in step as a
whole.  The observers of the theorem are the one that keeps events and the one that logs them. -/

/-- **An evaluation stays in step**: reading the expression and finding its value are told and not written. -/
theorem inStep_run (expression : String) : (run cap expression).InStep :=
  .bind (.ofResult _) fun tree => .bind (.tell rfl) fun _ =>
    .bind (inStep_evalLevel tree.level) fun _ => .bind (.tell rfl) fun _ => .pure _

/-- **The log of an evaluation mirrors its events.**  First stands what was written of each operation, then
one record that closes the evaluation, then one record for each event. -/
theorem log_mirrors_events (cap : Nat) (expression : String) :
    let report := evaluateFor .logging cap expression
    let events := (evaluateFor .recording cap expression).events
    ∃ closing,
      report.log = events.filterMap Event.writtenAtOnce? ++ closing :: events.map Event.record ∧
      (∀ value, report.result = .ok value →
        closing = ⟨.debug, "Expression evaluated",
          [("expression", .text expression), ("result", .text value)]⟩) ∧
      (∀ e, report.result = .error e →
        closing = ⟨.debug, "Expression rejected",
          [("expression", .text expression), ("error", .text e.message)]⟩) ∧
      ∀ event : Event, event.record.level = if event.isTruncation then .warn else .debug := by
  intro report events
  refine ⟨closingRecord expression report.result, ?_, fun value h => ?_, fun e h => ?_,
    Event.level_record⟩
  · have hwritten : (run cap expression).log = events.filterMap Event.writtenAtOnce? := inStep_run expression
    rw [← hwritten]
    exact List.append_assoc ..
  · rw [h]
    rfl
  · rw [h]
    rfl

/-- The second division fails: the first one was written and told before, and it was cut off. -/
example : (evaluateFor .logging 1 " 2/3+1/0").log.map (fun record => (record.level, record.message)) =
    [(.trace, "Operation applied"),
     (.debug, "Expression rejected"),
     (.debug, "Evaluation event: ExpressionParsed \x7b expression: \"2/3+1/0\", terms: 2 \x7d"),
     (.warn, "Division truncated: DivisionTruncated \x7b dividend: \"2\", divisor: \"3\", " ++
       "quotient: \"0.6\", remainder: \"0.2\" \x7d"),
     (.debug, "Evaluation event: OperationApplied \x7b operator: Divide, lhs: \"2\", rhs: \"3\", " ++
       "result: \"0.6\" \x7d")] := by
  decide +kernel

end Expression
end DecimalCalc
