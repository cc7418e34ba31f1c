/-
# Expressions without divisions

Where nothing is divided and every literal is a number, no number error can come up.  Then a formed
level has a value, and a level with a fault is reported for it, whatever stands in front of the
fault.

An evaluation can stop for two kinds of reasons, and which of them is met first depends on the order
of operands and operations.  If one kind is excluded, there is nothing left to depend on.  This
module excludes errors of numbers: it describes the nodes that can cause none, shows that lifting
and folding make no others out of them, and evaluates.  The first fault of the tree is then what is
reported, and if there is none, there is a value.

* `safe_liftRuns`: lifting the runs brings no division in;
* `exists_evalLevel`: a formed level without divisions has a value;
* `evaluate_of_levelFault`: the fault of an expression without divisions is what is reported.
-/
import DecimalCalc.Proofs.Expression.Exactness
import DecimalCalc.Proofs.Expression.Faults

namespace DecimalCalc
namespace Expression

variable {cap : Nat}

/-! ## 1. Safe nodes

A node is safe if nothing in it can fail as a number: its literals are numbers, and no operator in
it is a division.  The property is one of nodes and not of levels, so it goes along when nodes are
put into groups. -/

mutual

/-- Every literal in the node is a number, and nothing in it is divided, at any depth. -/
def Node.Safe : Node → Prop
  | .literal text => ∃ q, Denotes text q
  | .operator op => op ≠ .divide
  | .group level => LevelSafe level

/-- Every node of the level is safe. -/
def LevelSafe : List Node → Prop
  | [] => True
  | node :: level => node.Safe ∧ LevelSafe level

end

/-- A level is safe if its nodes are, in whatever order they stand. -/
theorem levelSafe_iff {level : List Node} : LevelSafe level ↔ ∀ node ∈ level, node.Safe := by
  induction level with
  | nil => simp [LevelSafe]
  | cons node level ih => rw [LevelSafe, List.forall_mem_cons, ih]

theorem handedDown_safe : HandedDown Node.Safe := by
  intro level hlevel
  rw [Node.Safe] at hlevel
  exact levelSafe_iff.1 hlevel

/-- A group behind a factor of minus one is safe if the group is, as minus one is a number and
multiplying is not dividing. -/
theorem safe_groupNode {negated : Bool} {level : List Node} (h : ∀ node ∈ level, node.Safe) :
    (groupNode negated level).Safe := by
  have hgroup : (Node.group level).Safe := by
    rw [Node.Safe]
    exact levelSafe_iff.2 h
  cases negated with
  | false => exact hgroup
  | true =>
    have hone : (Node.literal ['-', '1']).Safe := by
      rw [Node.Safe]
      exact ⟨-1, denotes_minus_one⟩
    have htimes : (Node.operator .multiply).Safe := by
      rw [Node.Safe]
      exact nofun
    rw [groupNode, if_pos rfl, Node.Safe, levelSafe_iff]
    simp [hone, htimes, hgroup]

theorem safe_liftRun {run : List Node} (h : ∀ node ∈ run, node.Safe) :
    ∀ node ∈ liftRun run, node.Safe := by
  unfold liftRun
  split
  · rw [List.forall_mem_singleton, Node.Safe]
    exact levelSafe_iff.2 h
  · exact h

/-- Lifting puts nodes into groups and makes none, so it brings no division in. -/
theorem safe_liftRuns {level : List Node} (h : ∀ node ∈ level, node.Safe) :
    ∀ node ∈ liftRuns level, node.Safe := by
  have hjoined := h
  rw [← joinRuns_splitRuns level, joinRuns, List.forall_mem_append] at hjoined
  obtain ⟨hfirst, hmore⟩ := hjoined
  unfold liftRuns
  split
  · refine List.forall_mem_append.2 ⟨safe_liftRun hfirst, fun node hnode => ?_⟩
    obtain ⟨p, hp, hnode⟩ := List.mem_flatMap.1 hnode
    obtain ⟨hop, hrun⟩ := List.forall_mem_cons.1 fun n hn => hmore n (List.mem_flatMap.2 ⟨p, hp, hn⟩)
    exact List.forall_mem_cons.2 ⟨hop, safe_liftRun hrun⟩ node hnode
  · exact h

/-! ## 2. Values

In a level that is formed and safe each operand has a value, and each step has one, so nothing can
stop the evaluation.  The three statements follow the three functions that evaluate. -/

/-- An operation other than division has a value, for any two numbers. -/
theorem exists_apply {op : Operator} (hop : op ≠ .divide) (x y : Decimal) :
    ∃ z, (apply cap op x y).result = .ok z := by
  have hoperate : ∃ z, operate cap op x y = .ok (z, none) := by
    cases op with
    | add => exact ⟨_, rfl⟩
    | subtract => exact ⟨_, rfl⟩
    | multiply => exact ⟨_, rfl⟩
    | divide => exact absurd rfl hop
  obtain ⟨z, hz⟩ := hoperate
  rw [apply_of_ok hz]
  exact ⟨z, rfl⟩

/-- Steps without divisions have a value, whatever the numbers are. -/
theorem exists_runSteps {steps : List Step} (h : ∀ step ∈ steps, step.op ≠ .divide) (x : Decimal) :
    ∃ z, (runSteps cap x steps).result = .ok z := by
  induction steps generalizing x with
  | nil => exact ⟨x, rfl⟩
  | cons step steps ih =>
    obtain ⟨hstep, hsteps⟩ := List.forall_mem_cons.1 h
    obtain ⟨y, hy⟩ := @exists_apply cap _ hstep x step.operand
    rw [runSteps_cons, Traced.bind_of_ok hy]
    exact ih hsteps y

mutual

/-- An operand that is safe and formed has a value. -/
theorem exists_evalNode : ∀ node : Node, node.Safe → node.Formed →
    ∃ x, (evalNode cap node).result = .ok x
  | .literal text, hsafe, _ => by
    rw [Node.Safe] at hsafe
    obtain ⟨q, hq⟩ := hsafe
    obtain ⟨x, hx, -⟩ := denotes_iff.1 hq
    rw [evalNode, hx]
    exact ⟨x, rfl⟩
  | .operator op, _, hformed => by
    rw [Node.Formed] at hformed
    exact hformed.elim
  | .group level, hsafe, hformed => by
    rw [Node.Formed] at hformed
    rw [evalNode]
    exact exists_evalLevel level (handedDown_safe level hsafe) hformed

/-- **A formed level without divisions has a value.** -/
theorem exists_evalLevel : ∀ level : List Node, (∀ node ∈ level, node.Safe) → LevelFormed level →
    ∃ x, (evalLevel cap level).result = .ok x
  | [], _, hformed => by
    rw [LevelFormed] at hformed
    exact hformed.elim
  | node :: level, hsafe, hformed => by
    obtain ⟨hnode, hlevel⟩ := List.forall_mem_cons.1 hsafe
    rw [LevelFormed] at hformed
    obtain ⟨x, hx⟩ := exists_evalNode node hnode hformed.1
    obtain ⟨steps, hsteps, hops⟩ := exists_evalSteps level hlevel hformed.2
    rw [evalLevel_cons, Traced.bind_of_ok hx, Traced.bind_of_ok hsteps]
    exact exists_runSteps
      (fun step hstep => hops step ((executionOrder_perm steps).mem_iff.1 hstep)) x

/-- The operands behind the first one have values, and the steps made of them hold no division, so
they can be carried out in any order. -/
theorem exists_evalSteps : ∀ level : List Node, (∀ node ∈ level, node.Safe) → StepsFormed level →
    ∃ steps, (evalSteps cap level).result = .ok steps ∧ ∀ step ∈ steps, step.op ≠ .divide
  | [], _, _ => by
    rw [evalSteps]
    exact ⟨[], rfl, List.forall_mem_nil _⟩
  | [.operator _], _, hformed => by
    rw [StepsFormed] at hformed
    · exact hformed.elim
    all_goals simp
  | .operator op :: node :: level, hsafe, hformed => by
    obtain ⟨hop, hsafe⟩ := List.forall_mem_cons.1 hsafe
    obtain ⟨hnode, hlevel⟩ := List.forall_mem_cons.1 hsafe
    rw [Node.Safe] at hop
    rw [StepsFormed] at hformed
    obtain ⟨x, hx⟩ := exists_evalNode node hnode hformed.1
    obtain ⟨steps, hsteps, hops⟩ := exists_evalSteps level hlevel hformed.2
    rw [evalSteps, Traced.bind_of_ok hx, Traced.bind_of_ok hsteps]
    exact ⟨_, rfl, List.forall_mem_cons.2 ⟨hop, hops⟩⟩
  | .literal _ :: _, _, hformed => absurd hformed (not_stepsFormed rfl)
  | .group _ :: _, _, hformed => absurd hformed (not_stepsFormed rfl)

end

/-- **The fault is what the evaluation ends in**, if nothing is divided; without one there is a value. -/
theorem evaluate_of_levelFault {expression : String} {tree : Tree}
    (htree : Tree.ofTrimmed (Text.trim expression.toList) = .ok tree)
    (hsafe : ∀ node ∈ tree.level, node.Safe) :
    (levelFault tree.level = none → ∃ value, evaluate cap expression = .ok value) ∧
      ∀ cause, levelFault tree.level = some cause →
        evaluate cap expression = .error (.malformed cause) := by
  rw [evaluate, run_of_ofTrimmed htree]
  constructor
  · intro hnone
    obtain ⟨x, hx⟩ := @exists_evalLevel cap tree.level hsafe (levelFault_eq_none_iff _ |>.1 hnone)
    refine ⟨x.toString, ?_⟩
    simp only [Traced.result_bind, hx]
    rfl
  · intro cause hcause
    have hcompleted : (evalAll cap (levelCompleted tree.level)).result = .ok () := by
      refine evalAll_eq_ok_iff.2 fun node hnode => ?_
      obtain ⟨hnode, hformed⟩ := of_mem_levelCompleted handedDown_safe tree.level hsafe node hnode
      exact exists_evalNode node hnode hformed
    rw [evalLevel_of_fault _ hcause]
    simp only [Traced.result_bind, hcompleted]
    rfl

end Expression
end DecimalCalc
