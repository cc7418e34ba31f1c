/-
# Formed levels

In a formed level operands and operators alternate, beginning and ending with an operand, and so do
they inside every group.  The evaluation is what finds a level that is not formed; lifting the runs
makes no difference to that.

Being formed is a property of the tree, given by recursion on it, and is related to what evaluating
can come to in two ways.  A level that has a value is formed: the evaluation goes through every
node, and at a node in the wrong place it fails.  And a level that is formed fails only with errors
that come from numbers.  Which errors these are depends on the literals, so the second statement
carries a condition on each literal of the level, however deep, and is general in what is asked of
the errors.  One use asks that they are errors of numbers at all, another that they are errors that
are handed back.

The lifting rearranges nodes into groups.  It is written as joining runs by additive operators, and
a property that each run keeps is kept by the level.

* `levelFormed_liftRuns`: a level is formed exactly when it is formed after the lifting;
* `levelFormed_of_ok`: only a formed level has a value;
* `eachLiteral_liftRuns`: the lifting keeps every literal;
* `failsOnly_evalLevel`: a formed level fails only where a literal does, or where a divisor is zero;
* `numeric_evalLevel`: so it is not reported as a syntax error.
-/
import DecimalCalc.Expression.Evaluation

namespace DecimalCalc
namespace Expression

/-! ## 1. Formed nodes

The three definitions have the shape of the three functions that evaluate.  Behind the first operand
a level goes on in pairs of an operator and an operand, or it is not formed. -/

mutual

/-- An operand, with a formed level in it if it is a group. -/
def Node.Formed : Node → Prop
  | .literal _ => True
  | .operator _ => False
  | .group level => LevelFormed level

/-- Operands with operators between them. -/
def LevelFormed : List Node → Prop
  | [] => False
  | node :: level => node.Formed ∧ StepsFormed level

/-- Operands, each behind an operator. -/
def StepsFormed : List Node → Prop
  | [] => True
  | .operator _ :: node :: level => node.Formed ∧ StepsFormed level
  | _ => False

end

theorem stepsFormed_operator {op : Operator} {level : List Node} :
    StepsFormed (.operator op :: level) ↔ LevelFormed level := by
  cases level <;> simp [StepsFormed, LevelFormed]

theorem not_stepsFormed {node : Node} {level : List Node} (h : node.isOperand = true) :
    ¬ StepsFormed (node :: level) := by
  cases node with
  | operator op => cases h
  | literal text => simp [StepsFormed]
  | group inside => simp [StepsFormed]

theorem formed_groupNode {negated : Bool} {level : List Node} :
    (groupNode negated level).Formed ↔ LevelFormed level := by
  cases negated <;> simp [groupNode, Node.Formed, LevelFormed, StepsFormed]

/-! ## 2. Formed runs

Formedness is cut at operators: what stands in front of one and what stands behind are formed each
for itself.  A run may be replaced by a group of it, as the group is formed if the run is. -/

/-- Either the level ends here or an operator comes next. -/
def AtOperator (level : List Node) : Prop := ∀ node ∈ level.head?, node.isOperand = false

theorem stepsFormed_append : ∀ (level : List Node) {more : List Node}, AtOperator more →
    (StepsFormed (level ++ more) ↔ StepsFormed level ∧ StepsFormed more)
  | [], more, _ => by simp [StepsFormed]
  | [.operator op], more, hmore => by
    have hfirst : ¬ LevelFormed more := by
      cases more with
      | nil => simp [LevelFormed]
      | cons node more =>
        have hnode := hmore node rfl
        cases node <;> simp_all [LevelFormed, Node.Formed, Node.isOperand]
    rw [List.singleton_append, stepsFormed_operator]
    simp [StepsFormed, hfirst]
  | .operator op :: node :: level, more, hmore => by
    rw [List.cons_append, List.cons_append, StepsFormed, StepsFormed, and_assoc,
      stepsFormed_append level hmore]
  | .literal text :: level, more, _ => by simp [StepsFormed]
  | .group inside :: level, more, _ => by simp [StepsFormed]

/-- A level that is cut in front of an operator is formed if both parts are. -/
theorem levelFormed_append {run more : List Node} (h : AtOperator more) :
    LevelFormed (run ++ more) ↔ LevelFormed run ∧ StepsFormed more := by
  cases run with
  | nil =>
    cases more with
    | nil => simp [LevelFormed]
    | cons node more =>
      have hnode := h node rfl
      cases node <;> simp_all [LevelFormed, Node.Formed, Node.isOperand]
  | cons node run => simp only [List.cons_append, LevelFormed, stepsFormed_append run h, and_assoc]

theorem levelFormed_liftRun {run more : List Node} (h : AtOperator more) :
    LevelFormed (liftRun run ++ more) ↔ LevelFormed run ∧ StepsFormed more := by
  unfold liftRun
  split
  · rw [List.singleton_append, LevelFormed, Node.Formed]
  · exact levelFormed_append h

/-- The levels that are joined from runs by additive operators. -/
def joinRuns (first : List Node) (more : List (Operator × List Node)) : List Node :=
  first ++ more.flatMap fun p => .operator p.1 :: p.2

/-- The first run is put in front of the others, with the operator between them. -/
theorem joinRuns_cons (first : List Node) (p : Operator × List Node)
    (more : List (Operator × List Node)) :
    joinRuns first (p :: more) = first ++ .operator p.1 :: joinRuns p.2 more := by
  simp [joinRuns]

/-- Splitting a level into runs and joining these again gives the level, so what is proved of runs
and the operators between them is proved of levels. -/
theorem joinRuns_splitRuns (level : List Node) :
    joinRuns (splitRuns level).1 (splitRuns level).2 = level := by
  fun_induction splitRuns level with
  | case1 => rfl
  | case2 op level run more hsplit hop ih =>
    rw [hsplit] at ih
    rw [joinRuns_cons, ih]
    rfl
  | case3 op level run more hsplit hop ih =>
    rw [hsplit] at ih
    rw [← ih]
    rfl
  | case4 operand level hoperand run more hsplit ih =>
    rw [hsplit] at ih
    rw [← ih]
    rfl

/-- A joined level is formed when its runs are, and they may be replaced on the way. -/
theorem levelFormed_joinRuns {f : List Node → List Node}
    (hf : ∀ {run more : List Node}, AtOperator more →
      (LevelFormed (f run ++ more) ↔ LevelFormed run ∧ StepsFormed more))
    (first : List Node) (more : List (Operator × List Node)) :
    LevelFormed (joinRuns (f first) (more.map fun p => (p.1, f p.2))) ↔
      LevelFormed first ∧ ∀ p ∈ more, LevelFormed p.2 := by
  induction more generalizing first with
  | nil =>
    have hnil : AtOperator [] := by intro node hnode; cases hnode
    rw [List.map_nil, joinRuns, List.flatMap_nil, hf hnil]
    simp [StepsFormed]
  | cons p more ih =>
    have hoperator : AtOperator (.operator p.1 :: joinRuns (f p.2) (more.map fun p => (p.1, f p.2))) := by
      intro node hnode
      rw [← Option.some.inj hnode]
      rfl
    rw [List.map_cons, joinRuns_cons, hf hoperator, stepsFormed_operator, ih, List.forall_mem_cons]

/-- **Lifting the runs makes no level formed, nor breaks it.** -/
theorem levelFormed_liftRuns (level : List Node) :
    LevelFormed (liftRuns level) ↔ LevelFormed level := by
  unfold liftRuns
  split
  · have hlifted := levelFormed_joinRuns levelFormed_liftRun (splitRuns level).1 (splitRuns level).2
    have hplain := levelFormed_joinRuns levelFormed_append (splitRuns level).1 (splitRuns level).2
    rw [List.map_id'', joinRuns_splitRuns] at hplain
    · rw [hplain, ← hlifted, joinRuns, List.flatMap_map]
    · exact fun _ => rfl
  · exact Iff.rfl

/-! ## 3. Only a formed level has a value

A sequence that ends in a value has a first part that does, so the value of a level is traced back
to its operands.  Where an operator or an operand is missing, the evaluation fails, and there is no
value to trace. -/

/-- A sequence ends in a value only if both parts do. -/
theorem ok_of_bind {ε α β : Type} {x : Except ε α} {f : α → Except ε β} {b : β}
    (h : x >>= f = .ok b) : ∃ a, x = .ok a ∧ f a = .ok b := by
  cases x with
  | error e => cases h
  | ok a => exact ⟨a, rfl, h⟩

/-- The same for computations that leave a trace, as to their results. -/
theorem Traced.ok_of_bind {α β : Type} {x : Traced α} {f : α → Traced β} {b : β}
    (h : (x >>= f).result = .ok b) : ∃ a, x.result = .ok a ∧ (f a).result = .ok b := by
  rw [Traced.result_bind] at h
  exact Expression.ok_of_bind h

mutual

/-- A node with a value is an operand, and formed. -/
theorem formed_of_ok {cap : Nat} : ∀ (node : Node) {x : Decimal},
    (evalNode cap node).result = .ok x → node.Formed
  | .literal _, _, _ => by
    rw [Node.Formed]
    trivial
  | .operator _, _, h => by
    rw [evalNode] at h
    cases h
  | .group level, _, h => by
    rw [evalNode] at h
    rw [Node.Formed]
    exact levelFormed_of_ok level h

/-- **Only a formed level has a value.** -/
theorem levelFormed_of_ok {cap : Nat} : ∀ (level : List Node) {x : Decimal},
    (evalLevel cap level).result = .ok x → LevelFormed level
  | [], _, h => by
    rw [evalLevel_nil] at h
    cases h
  | node :: level, _, h => by
    rw [evalLevel_cons] at h
    obtain ⟨first, hfirst, h⟩ := Traced.ok_of_bind h
    obtain ⟨steps, hsteps, -⟩ := Traced.ok_of_bind h
    rw [LevelFormed]
    exact ⟨formed_of_ok node hfirst, stepsFormed_of_ok level hsteps⟩

theorem stepsFormed_of_ok {cap : Nat} : ∀ (level : List Node) {steps : List Step},
    (evalSteps cap level).result = .ok steps → StepsFormed level
  | [], _, _ => by
    rw [StepsFormed]
    trivial
  | [.operator _], _, h => by
    rw [evalSteps] at h
    cases h
  | .operator _ :: node :: level, _, h => by
    rw [evalSteps] at h
    obtain ⟨operand, hoperand, h⟩ := Traced.ok_of_bind h
    obtain ⟨steps, hsteps, -⟩ := Traced.ok_of_bind h
    rw [StepsFormed]
    exact ⟨formed_of_ok node hoperand, stepsFormed_of_ok level hsteps⟩
  | .literal _ :: _, _, h | .group _ :: _, _, h => by
    rw [evalSteps_operand rfl] at h
    cases h

end

/-! ## 4. Every literal of a level

What an evaluation comes to depends on what its literals are read as, and these stand at any depth.
A property of texts is therefore asked of every literal of a level, groups included.  Lifting moves
literals into groups, and keeps all of them; a negated group brings one literal along, the factor of
minus one. -/

mutual

/-- Every literal of the node, however deep, has the property. -/
def Node.EachLiteral (Q : List Char → Prop) : Node → Prop
  | .literal text => Q text
  | .operator _ => True
  | .group level => EachLiteral Q level

/-- Every literal of the level, however deep, has the property. -/
def EachLiteral (Q : List Char → Prop) : List Node → Prop
  | [] => True
  | node :: level => node.EachLiteral Q ∧ EachLiteral Q level

end

section Literals

variable {Q : List Char → Prop}

mutual

theorem Node.eachLiteral_of_forall (h : ∀ text, Q text) : ∀ node : Node, node.EachLiteral Q
  | .literal text => by
    rw [Node.EachLiteral]
    exact h text
  | .operator op => by
    rw [Node.EachLiteral]
    trivial
  | .group level => by
    rw [Node.EachLiteral]
    exact eachLiteral_of_forall h level

theorem eachLiteral_of_forall (h : ∀ text, Q text) : ∀ level : List Node, EachLiteral Q level
  | [] => by
    rw [EachLiteral]
    trivial
  | node :: level => by
    rw [EachLiteral]
    exact ⟨node.eachLiteral_of_forall h, eachLiteral_of_forall h level⟩

end

theorem eachLiteral_append (level more : List Node) :
    EachLiteral Q (level ++ more) ↔ EachLiteral Q level ∧ EachLiteral Q more := by
  induction level with
  | nil => simp [EachLiteral]
  | cons node level ih => simp only [List.cons_append, EachLiteral, ih, and_assoc]

theorem eachLiteral_liftRun (run : List Node) : EachLiteral Q (liftRun run) ↔ EachLiteral Q run := by
  unfold liftRun
  split
  · simp [EachLiteral, Node.EachLiteral]
  · exact Iff.rfl

/-- The runs of a joined level may be replaced by others with the same literals. -/
theorem eachLiteral_joinRuns {f : List Node → List Node}
    (hf : ∀ run, EachLiteral Q (f run) ↔ EachLiteral Q run) (first : List Node)
    (more : List (Operator × List Node)) :
    EachLiteral Q (joinRuns (f first) (more.map fun p => (p.1, f p.2))) ↔
      EachLiteral Q (joinRuns first more) := by
  induction more generalizing first with
  | nil => simp only [joinRuns, List.map_nil, List.flatMap_nil, List.append_nil, hf]
  | cons p more ih =>
    rw [List.map_cons, joinRuns_cons, joinRuns_cons, eachLiteral_append, eachLiteral_append, hf,
      EachLiteral, EachLiteral, ih]

/-- **Lifting the runs keeps the literals.** -/
theorem eachLiteral_liftRuns (level : List Node) :
    EachLiteral Q (liftRuns level) ↔ EachLiteral Q level := by
  unfold liftRuns
  split
  · have hjoined := eachLiteral_joinRuns (Q := Q) eachLiteral_liftRun (splitRuns level).1
      (splitRuns level).2
    rw [joinRuns_splitRuns, joinRuns, List.flatMap_map] at hjoined
    exact hjoined
  · exact Iff.rfl

/-- The factor of minus one is a literal too, and has to have the property. -/
theorem eachLiteral_groupNode {negated : Bool} {level : List Node} (hone : Q ['-', '1'])
    (h : EachLiteral Q level) : (groupNode negated level).EachLiteral Q := by
  cases negated <;> simp [groupNode, Node.EachLiteral, EachLiteral, hone, h]

end Literals

/-! ## 5. The errors of a formed level

A formed level is not at fault itself.  Its evaluation can only fail where a literal is not read or
a divisor is zero, so an error it ends in is the error of a literal or a division by zero.  The
statement is closed under sequences, which makes its proof follow the evaluation. -/

/-- Whatever error the computation ends in has the property.  A computation that ends in a value
fails with nothing. -/
def Traced.FailsOnly {α : Type} (P : ExpressionError → Prop) (x : Traced α) : Prop :=
  ∀ e, x.result = .error e → P e

namespace Traced.FailsOnly

variable {α β : Type} {P : ExpressionError → Prop}

theorem bind {x : Traced α} {f : α → Traced β} (hx : x.FailsOnly P)
    (hf : ∀ a, (f a).FailsOnly P) : (x >>= f).FailsOnly P := by
  intro e h
  cases hresult : x.result with
  | error cause =>
    rw [Traced.bind_of_error hresult] at h
    rw [Except.error.inj h] at hresult
    exact hx e hresult
  | ok a =>
    rw [Traced.bind_of_ok hresult] at h
    exact hf a e h

theorem of_ok {x : Traced α} {a : α} (h : x.result = .ok a) : x.FailsOnly P := by
  intro e herror
  rw [h] at herror
  cases herror

theorem ofNumber {result : Except NumberError α} (h : ∀ e, result = .error e → P (.numeric e)) :
    (Traced.ofNumber result).FailsOnly P := by
  intro e herror
  cases result with
  | ok a => cases herror
  | error cause => exact Except.error.inj herror ▸ h cause rfl

end Traced.FailsOnly

theorem error_of_operate {cap : Nat} {op : Operator} {x y : Decimal} {e : NumberError}
    (h : operate cap op x y = .error e) : e = .divisionByZero := by
  cases op with
  | add | subtract | multiply => cases h
  | divide =>
    simp only [operate, Decimal.divideWithRemainder] at h
    cases hdivide : Decimal.divide cap x y with
    | ok q =>
      rw [hdivide] at h
      cases h
    | error cause =>
      rw [hdivide] at h
      rw [← Except.error.inj h]
      exact (Decimal.divide_eq_error_iff.1 hdivide).2

/-- The text is read, or the error has the property.  This is the condition on literals. -/
def ReadsOr (P : ExpressionError → Prop) (text : List Char) : Prop :=
  ∀ e, Decimal.parse text = .error e → P (.numeric e)

section Errors

variable {P : ExpressionError → Prop} (cap : Nat)

/-- An operation fails with a division by zero, or not at all. -/
theorem failsOnly_apply (hzero : P (.numeric .divisionByZero)) (op : Operator) (x y : Decimal) :
    (apply cap op x y).FailsOnly P := by
  refine .bind (.ofNumber fun e h => error_of_operate h ▸ hzero) fun p => .bind ?_ fun _ =>
    .bind (.of_ok rfl) fun _ => .bind (.of_ok rfl) fun _ => .of_ok rfl
  cases p.2 with
  | none => exact .of_ok rfl
  | some event => exact .of_ok rfl

theorem failsOnly_runSteps (hzero : P (.numeric .divisionByZero)) (first : Decimal)
    (steps : List Step) : (runSteps cap first steps).FailsOnly P := by
  induction steps generalizing first with
  | nil => exact .of_ok rfl
  | cons step steps ih => exact .bind (failsOnly_apply cap hzero _ _ _) ih

mutual

/-- An operand: the literal's own error, or one of the level inside. -/
theorem failsOnly_evalNode (hzero : P (.numeric .divisionByZero)) : ∀ node : Node,
    node.Formed → node.EachLiteral (ReadsOr P) → (evalNode cap node).FailsOnly P
  | .literal text, _, h => by
    rw [Node.EachLiteral] at h
    rw [evalNode]
    exact .ofNumber h
  | .operator op, hformed, _ => by
    rw [Node.Formed] at hformed
    exact hformed.elim
  | .group level, hformed, h => by
    rw [Node.Formed] at hformed
    rw [Node.EachLiteral] at h
    rw [evalNode]
    exact failsOnly_evalLevel hzero level hformed h

/-- **The errors of a formed level** are those of its literals, and the division by zero. -/
theorem failsOnly_evalLevel (hzero : P (.numeric .divisionByZero)) : ∀ level : List Node,
    LevelFormed level → EachLiteral (ReadsOr P) level → (evalLevel cap level).FailsOnly P
  | [], hformed, _ => by
    rw [LevelFormed] at hformed
    exact hformed.elim
  | node :: level, hformed, h => by
    rw [LevelFormed] at hformed
    rw [EachLiteral] at h
    rw [evalLevel_cons]
    exact .bind (failsOnly_evalNode hzero node hformed.1 h.1) fun first =>
      .bind (failsOnly_evalSteps hzero level hformed.2 h.2) fun steps => failsOnly_runSteps cap hzero _ _

theorem failsOnly_evalSteps (hzero : P (.numeric .divisionByZero)) : ∀ level : List Node,
    StepsFormed level → EachLiteral (ReadsOr P) level → (evalSteps cap level).FailsOnly P
  | [], _, _ => by
    rw [evalSteps]
    exact .of_ok rfl
  | [.operator _], hformed, _ => by
    rw [StepsFormed] at hformed
    · exact hformed.elim
    all_goals simp
  | .operator _ :: node :: level, hformed, h => by
    rw [StepsFormed] at hformed
    rw [EachLiteral, EachLiteral] at h
    rw [evalSteps]
    exact .bind (failsOnly_evalNode hzero node hformed.1 h.2.1) fun operand =>
      .bind (failsOnly_evalSteps hzero level hformed.2 h.2.2) fun steps => .of_ok rfl
  | .literal _ :: _, hformed, _ => absurd hformed (not_stepsFormed rfl)
  | .group _ :: _, hformed, _ => absurd hformed (not_stepsFormed rfl)

end

end Errors

/-- The error is about a number, not about the expression's text. -/
def ExpressionError.IsNumeric (e : ExpressionError) : Prop := ∃ cause, e = .numeric cause

/-- The case where all that matters is that the error is not about the expression's text. -/
theorem numeric_evalNode (cap : Nat) {node : Node} (h : node.Formed) :
    (evalNode cap node).FailsOnly ExpressionError.IsNumeric :=
  failsOnly_evalNode cap ⟨_, rfl⟩ node h (node.eachLiteral_of_forall fun _ e _ => ⟨e, rfl⟩)

/-- **A formed level is not reported as a syntax error.** -/
theorem numeric_evalLevel (cap : Nat) {level : List Node} (h : LevelFormed level) :
    (evalLevel cap level).FailsOnly ExpressionError.IsNumeric :=
  failsOnly_evalLevel cap ⟨_, rfl⟩ level h (eachLiteral_of_forall (fun _ e _ => ⟨e, rfl⟩) level)

end Expression
end DecimalCalc
