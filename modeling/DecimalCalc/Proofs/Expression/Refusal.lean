/-
# How malformed expressions are refused

No text outside the language is given a value, but what is reported about it may be a number error,
and operations may have been carried out before that.  Both depend on the operands that are complete
in front of the first fault, and on nothing else: they are evaluated before the fault is found.

One would like a malformed text to be refused before anything is done with it.  The module says
exactly when this is so.  The operands in front of the fault are evaluated in any case; if one of
them fails, its error is what is reported, and if one of them is more than a bare number, arithmetic
is done and told.  A bare number is a literal, possibly in parentheses, and evaluating anything else
tells of an operation or fails.  So both questions are answered by looking at these operands, which
are found without evaluating anything.

* `quiet_evalNode_iff`: an operand is evaluated without arithmetic exactly when it is a bare number;
* `run_of_not_inLanguage`: what the evaluation of a malformed text does;
* `refusal_spec`: a malformed text is refused as malformed, and before any arithmetic, exactly when
  the operands in front of its first fault are bare numbers.
-/
import DecimalCalc.Proofs.Expression.Exactness
import DecimalCalc.Proofs.Expression.Faults

namespace DecimalCalc

/-- An operation that was carried out, or a division that was cut off.  Announcing that an
expression was read is none. -/
def Event.isArithmetic : Event → Bool
  | .operationApplied .. | .divisionTruncated .. => true
  | _ => false

namespace Expression

variable {cap : Nat}

/-! ## 1. Computations without arithmetic

A computation that ends in a value without arithmetic is called quiet.  Failing is not quiet either,
so being quiet is all that is asked of an operand in front of a fault. -/

/-- The computation ends in a value, and no arithmetic is done on the way. -/
structure Traced.Quiet {α : Type} (x : Traced α) : Prop where
  value : ∃ a, x.result = .ok a
  silent : ∀ event ∈ x.events, event.isArithmetic = false

theorem Traced.not_quiet_of_error {α : Type} {x : Traced α} {e : ExpressionError}
    (h : x.result = .error e) : ¬ x.Quiet := by
  intro hquiet
  obtain ⟨a, ha⟩ := hquiet.value
  rw [h] at ha
  cases ha

theorem Traced.quiet_pure {α : Type} (a : α) : (pure a : Traced α).Quiet :=
  ⟨⟨a, rfl⟩, List.forall_mem_nil _⟩

theorem Traced.quiet_bind_iff {α β : Type} {x : Traced α} {f : α → Traced β} :
    (x >>= f).Quiet ↔ x.Quiet ∧ ∃ a, x.result = .ok a ∧ (f a).Quiet := by
  constructor
  · intro h
    obtain ⟨b, hb⟩ := h.value
    obtain ⟨a, ha, hfa⟩ := ok_of_bind hb
    have hsilent := h.silent
    rw [bind_of_ok ha] at hsilent
    obtain ⟨hx, hf⟩ := List.forall_mem_append.1 hsilent
    exact ⟨⟨⟨a, ha⟩, hx⟩, a, ha, ⟨b, hfa⟩, hf⟩
  · rintro ⟨hx, a, ha, hf⟩
    rw [bind_of_ok ha]
    exact ⟨hf.value, List.forall_mem_append.2 ⟨hx.silent, hf.silent⟩⟩

/-! ## 2. Bare numbers

Any operation is told when it is carried out, and a level of more than one operand carries out an
operation or fails.  What is left is a level of one operand, which is that operand. -/

/-- A literal that is read as a number, in any number of parentheses.  This is decided by reading,
without evaluating. -/
def Node.isNumber : Node → Bool
  | .literal text => (Decimal.parse text).isOk
  | .group [node] => node.isNumber
  | _ => false

theorem not_quiet_apply (op : Operator) (x y : Decimal) : ¬ (apply cap op x y).Quiet := by
  intro h
  cases hoperate : operate cap op x y with
  | error e =>
    rw [apply_of_error hoperate] at h
    exact Traced.not_quiet_of_error rfl h
  | ok result =>
    have hsilent := h.silent
    rw [apply_of_ok hoperate] at hsilent
    have htold := hsilent _ (List.mem_append_right _ List.mem_cons_self)
    cases htold

/-- Steps are never quiet, unless there are none: the first one is told, or it fails. -/
theorem not_quiet_runSteps {steps : List Step} (hne : steps ≠ []) (x : Decimal) :
    ¬ (runSteps cap x steps).Quiet := by
  obtain ⟨step, rest, rfl⟩ := List.exists_cons_of_ne_nil hne
  intro h
  rw [runSteps_cons] at h
  exact not_quiet_apply _ _ _ (Traced.quiet_bind_iff.1 h).1

theorem ne_nil_of_evalSteps {node : Node} {level : List Node} {steps : List Step}
    (h : (evalSteps cap (node :: level)).result = .ok steps) : steps ≠ [] := by
  have hformed := stepsFormed_of_ok _ h
  cases node with
  | literal text => exact absurd hformed (not_stepsFormed rfl)
  | group inside => exact absurd hformed (not_stepsFormed rfl)
  | operator op =>
    cases level with
    | nil =>
      rw [stepsFormed_operator, LevelFormed] at hformed
      exact hformed.elim
    | cons operand level =>
      rw [evalSteps] at h
      obtain ⟨x, -, h⟩ := Traced.ok_of_bind h
      obtain ⟨rest, -, h⟩ := Traced.ok_of_bind h
      rw [← Except.ok.inj h]
      exact List.cons_ne_nil _ _

/-- A level of more than an operand is not evaluated without arithmetic. -/
theorem not_quiet_evalLevel (first next : Node) (level : List Node) :
    ¬ (evalLevel cap (first :: next :: level)).Quiet := by
  intro h
  rw [evalLevel_cons] at h
  obtain ⟨-, x, -, h⟩ := Traced.quiet_bind_iff.1 h
  obtain ⟨-, steps, hsteps, h⟩ := Traced.quiet_bind_iff.1 h
  refine not_quiet_runSteps (fun hnil => ne_nil_of_evalSteps hsteps ?_) x h
  exact ((executionOrder_perm steps).symm.trans (.of_eq hnil)).eq_nil

theorem evalLevel_singleton (node : Node) : evalLevel cap [node] = evalNode cap node := by
  rw [evalLevel_cons, evalSteps]
  simp only [pure_bind, executionOrder, List.filter_nil, List.flatMap_cons, List.flatMap_nil,
    List.append_nil, runSteps_nil, bind_pure]

/-- **An operand is evaluated without arithmetic exactly when it is a bare number.** -/
theorem quiet_evalNode_iff : ∀ node : Node, (evalNode cap node).Quiet ↔ node.isNumber = true
  | .literal text => by
    rw [evalNode, Node.isNumber, Traced.ofNumber]
    cases Decimal.parse text with
    | error e => exact iff_of_false (Traced.not_quiet_of_error rfl) Bool.false_ne_true
    | ok x => exact iff_of_true (Traced.quiet_pure x) rfl
  | .operator op => by
    rw [evalNode, Node.isNumber]
    · exact iff_of_false (Traced.not_quiet_of_error rfl) Bool.false_ne_true
    all_goals simp
  | .group [] => by
    rw [evalNode, evalLevel_nil, Node.isNumber]
    · exact iff_of_false (Traced.not_quiet_of_error rfl) Bool.false_ne_true
    all_goals simp
  | .group [node] => by
    rw [evalNode, evalLevel_singleton, Node.isNumber]
    exact quiet_evalNode_iff node
  | .group (first :: next :: level) => by
    rw [evalNode, Node.isNumber]
    · exact iff_of_false (not_quiet_evalLevel first next level) Bool.false_ne_true
    all_goals simp

/-! ## 3. The operands in front of a fault

The operands in front of the fault are evaluated one after the other, and this is a computation of
its own.  It is quiet if each of them is, and what it fails with is an error of numbers. -/

theorem quiet_evalAll_iff {nodes : List Node} : (evalAll cap nodes).Quiet ↔
    ∀ node ∈ nodes, node.isNumber = true := by
  induction nodes with
  | nil => exact iff_of_true (Traced.quiet_pure ()) (List.forall_mem_nil _)
  | cons node nodes ih =>
    rw [evalAll_cons, List.forall_mem_cons, ← ih, ← @quiet_evalNode_iff cap node,
      Traced.quiet_bind_iff]
    constructor
    · rintro ⟨hnode, -, -, hnodes⟩
      exact ⟨hnode, hnodes⟩
    · rintro ⟨hnode, hnodes⟩
      obtain ⟨x, hx⟩ := hnode.value
      exact ⟨hnode, x, hx, hnodes⟩

/-- Where well-formed operands fail, they fail with an error of numbers. -/
theorem numeric_evalAll {nodes : List Node} (h : ∀ node ∈ nodes, node.Formed) :
    (evalAll cap nodes).FailsOnly ExpressionError.IsNumeric := by
  induction nodes with
  | nil => exact .of_ok rfl
  | cons node nodes ih =>
    obtain ⟨hnode, hnodes⟩ := List.forall_mem_cons.1 h
    exact .bind (numeric_evalNode cap hnode) fun _ => ih hnodes

/-- The operands of a text that are complete in front of its first fault.  There are none if the text
is refused while it is read. -/
def operandsBeforeFault (cs : List Char) : List Node :=
  match Tree.ofTrimmed cs with
  | .ok tree => levelCompleted tree.level
  | .error _ => []

/-- These operands have no fault of their own, since the first fault stands behind them. -/
theorem formed_of_mem_operandsBeforeFault {cs : List Char} :
    ∀ node ∈ operandsBeforeFault cs, node.Formed := by
  unfold operandsBeforeFault
  split
  · intro node hnode
    exact (@of_mem_levelCompleted (fun _ => True) (fun _ _ _ _ => trivial) _
      (fun _ _ => trivial) node hnode).2
  · exact List.forall_mem_nil _

/-! ## 4. Refusals

A malformed text is refused by the gate, while it is taken apart, or by the evaluation at the first
fault of its tree.  In the first two cases there are no operands in front of the fault, so one
statement covers all three. -/

/-- The texts of the language are those that are read as a tree without a fault.  The tree is found
by reading, so membership can be decided. -/
theorem inLanguage_iff {cs : List Char} :
    InLanguage cs ↔ ∃ tree, Tree.ofTrimmed cs = .ok tree ∧ levelFault tree.level = none := by
  simp only [levelFault_eq_none_iff]
  constructor
  · rintro ⟨level, hlevel⟩
    exact ⟨_, hlevel.ofTrimmed, (levelFormed_liftRuns _).2 level.levelFormed_nodes⟩
  · rintro ⟨tree, htree, hformed⟩
    exact inLanguage_of_ofTrimmed htree hformed

/-- Whether a text belongs to the language. -/
def isExpression (cs : List Char) : Bool :=
  match Tree.ofTrimmed cs with
  | .ok tree => (levelFault tree.level).isNone
  | .error _ => false

theorem isExpression_iff {cs : List Char} : isExpression cs = true ↔ InLanguage cs := by
  rw [inLanguage_iff, isExpression]
  cases Tree.ofTrimmed cs with
  | error e => simp
  | ok tree => simp

instance : DecidablePred InLanguage := fun _ => decidable_of_iff _ isExpression_iff

/-- Events told one after the other, for the announcement that may come before. -/
def Traced.tellAll (events : List Event) : Traced Unit := ⟨events, [], .ok ()⟩

/-- **What the evaluation of a malformed text does.**  It may tell that the text was read; then it
evaluates the operands in front of the first fault, and then it reports the fault. -/
theorem run_of_not_inLanguage {expression : String}
    (h : ¬ InLanguage (Text.trim expression.toList)) :
    ∃ (told : List Event) (cause : SyntaxError), (∀ event ∈ told, event.isArithmetic = false) ∧
      run cap expression = (do
        Traced.tellAll told
        evalAll cap (operandsBeforeFault (Text.trim expression.toList))
        Traced.malformed cause) := by
  rw [inLanguage_iff] at h
  unfold operandsBeforeFault
  cases htree : Tree.ofTrimmed (Text.trim expression.toList) with
  | error cause =>
    refine ⟨[], cause, List.forall_mem_nil _, ?_⟩
    rw [run, htree]
    exact malformed_bind cause _
  | ok tree =>
    obtain ⟨cause, hfault⟩ := Option.ne_none_iff_exists'.1 fun hnone => h ⟨tree, htree, hnone⟩
    refine ⟨[.expressionParsed (String.ofList (Text.trim expression.toList))
      (.ofNat tree.termCount)], cause, List.forall_mem_singleton.2 rfl, ?_⟩
    rw [run_of_ofTrimmed htree, evalLevel_of_fault _ hfault]
    simp only [bind_assoc, malformed_bind]
    rfl

/-- **How malformed texts are refused.**  No text outside the language has a value.  It is reported as
malformed exactly when the operands in front of its first fault have values, and before any arithmetic
exactly when they are bare numbers. -/
theorem refusal_spec {expression : String} (h : ¬ InLanguage (Text.trim expression.toList)) :
    ((∃ cause, evaluate cap expression = .error (.malformed cause)) ∨
      ∃ cause, evaluate cap expression = .error (.numeric cause)) ∧
    ((∃ cause, evaluate cap expression = .error (.malformed cause)) ↔
      ∀ node ∈ operandsBeforeFault (Text.trim expression.toList),
        ∃ x, (evalNode cap node).result = .ok x) ∧
    (((∃ cause, evaluate cap expression = .error (.malformed cause)) ∧
        ∀ event ∈ (run cap expression).events, event.isArithmetic = false) ↔
      ∀ node ∈ operandsBeforeFault (Text.trim expression.toList), node.isNumber = true) := by
  obtain ⟨told, cause, htold, hrun⟩ := @run_of_not_inLanguage cap _ h
  have hformed := @numeric_evalAll cap _
    (@formed_of_mem_operandsBeforeFault (Text.trim expression.toList))
  rw [← evalAll_eq_ok_iff, ← @quiet_evalAll_iff cap, evaluate, hrun]
  generalize evalAll cap (operandsBeforeFault (Text.trim expression.toList)) = operands at hformed
  rw [Traced.bind_of_ok (x := Traced.tellAll told) rfl]
  cases hresult : operands.result with
  | error e =>
    -- an operand in front of the fault has no value, and as it is formed, its error is a number error
    rw [Traced.bind_of_error hresult]
    have hnumeric : ∃ reason, e = .numeric reason := hformed e hresult
    obtain ⟨reason, rfl⟩ := hnumeric
    have hreported : ¬ ∃ cause, Except.error (α := String) (ExpressionError.numeric reason) =
        .error (.malformed cause) := by
      rintro ⟨cause, hcause⟩
      cases hcause
    exact ⟨.inr ⟨reason, rfl⟩, iff_of_false hreported (fun hok => by cases hok),
      iff_of_false (fun hboth => hreported hboth.1) (Traced.not_quiet_of_error hresult)⟩
  | ok done =>
    rw [Traced.bind_of_ok hresult]
    refine ⟨.inl ⟨cause, rfl⟩, iff_of_true ⟨cause, rfl⟩ rfl, ?_, ?_⟩
    · rintro ⟨-, hsilent⟩
      obtain ⟨-, hsilent⟩ := List.forall_mem_append.1 hsilent
      exact ⟨⟨done, hresult⟩, (List.forall_mem_append.1 hsilent).1⟩
    · intro hquiet
      refine ⟨⟨cause, rfl⟩, List.forall_mem_append.2 ⟨htold, ?_⟩⟩
      exact List.forall_mem_append.2 ⟨hquiet.silent, List.forall_mem_nil _⟩

theorem refusal_spec_misplaced_plus : ¬ InLanguage "2-+1".toList ∧
    (∃ cause, evaluate 15 "2-+1" = .error (.malformed cause)) ∧
      ∀ event ∈ (run 15 "2-+1").events, event.isArithmetic = false := by
  have houtside : ¬ InLanguage (Text.trim "2-+1".toList) := by decide +kernel
  have hnumbers : ∀ node ∈ operandsBeforeFault (Text.trim "2-+1".toList), node.isNumber = true := by
    decide +kernel
  exact ⟨by decide +kernel, (refusal_spec houtside).2.2.2 hnumbers⟩

/-- Not every malformed text is refused as malformed before any arithmetic: here a division by zero
stands in front of the fault. -/
theorem not_forall_refused_before_arithmetic : ¬ ∀ (cap : Nat) (expression : String),
    ¬ InLanguage (Text.trim expression.toList) →
      (∃ cause, evaluate cap expression = .error (.malformed cause)) ∧
        ∀ event ∈ (run cap expression).events, event.isArithmetic = false := by
  intro h
  have houtside : ¬ InLanguage (Text.trim "(1/0)-+1".toList) := by decide +kernel
  have hresult : evaluate 15 "(1/0)-+1" = .error (.numeric .divisionByZero) := by decide +kernel
  obtain ⟨⟨cause, hcause⟩, -⟩ := h 15 "(1/0)-+1" houtside
  rw [hresult] at hcause
  cases hcause

end Expression
end DecimalCalc
