/-
# The first fault of a level

A level that is not formed has a first fault, in the order in which its operands are evaluated.
What the evaluation does to such a level is said by an equation: it evaluates the operands that are
complete in front of the fault, one after the other, and then reports the fault.  No operation of a
level that the fault stands in is carried out.

Lifting the runs of a level does not move its first fault, but it can change which fault that is: a
run that ends in a multiplicative operator with an additive one behind it becomes a group whose last
operand is missing.

Faults are found by looking at the tree, with the same recursion as the evaluation but without doing
anything.  The operands in front of the fault are found in the same way, and are whole operands of
the level the fault stands in and of the levels around it.  The equation holds for traces, not only
for results, so it says which operations are carried out and told before the fault comes to light.
What is evaluated may itself fail, and then the fault is not reported; the equation covers that
case, as the sequence stops there.

* `levelFault_eq_none_iff`: the levels without a fault are the formed ones;
* `of_mem_levelCompleted`: the operands in front of a fault are formed;
* `evalLevel_of_fault`: what the evaluation of a level with a fault does;
* `levelFault_liftRuns`: the first fault of a level whose runs were lifted.
-/
import DecimalCalc.Proofs.Expression.Formation

namespace DecimalCalc
namespace Expression

/-! ## 1. Faults

Which fault a node or a level has is a function of it, with nothing for those that are formed.  In a
group the fault is that of its level. -/

mutual

/-- The first fault of a node that stands where an operand should.  A literal has none, even one
that is no number. -/
def Node.fault : Node → Option SyntaxError
  | .literal _ => none
  | .operator _ => some .unexpectedOperator
  | .group level => levelFault level

/-- The first fault of a level. -/
def levelFault : List Node → Option SyntaxError
  | [] => some .missingOperand
  | node :: level => node.fault.or (stepsFault level)

/-- The first fault behind an operand. -/
def stepsFault : List Node → Option SyntaxError
  | [] => none
  | [.operator _] => some .missingOperand
  | .operator _ :: node :: level => node.fault.or (stepsFault level)
  | _ => some .missingOperator

end

/-- Behind an operator a level begins again, and has the fault of one. -/
theorem stepsFault_operator (op : Operator) (level : List Node) :
    stepsFault (.operator op :: level) = levelFault level := by
  cases level with
  | nil => rw [stepsFault, levelFault]
  | cons node level => rw [stepsFault, levelFault]

/-- An operand behind an operand is a fault, whatever comes next. -/
theorem stepsFault_operand {node : Node} (h : node.isOperand = true) (level : List Node) :
    stepsFault (node :: level) = some .missingOperator := by
  cases node with
  | operator op => cases h
  | literal text => rw [stepsFault] <;> simp
  | group inside => rw [stepsFault] <;> simp

theorem levelFault_singleton (node : Node) : levelFault [node] = node.fault := by
  rw [levelFault, stepsFault, Option.or_none]

theorem fault_groupNode (negated : Bool) (level : List Node) :
    (groupNode negated level).fault = levelFault level := by
  cases negated with
  | false => rw [groupNode, if_neg Bool.false_ne_true, Node.fault]
  | true =>
    rw [groupNode, if_pos rfl, Node.fault, levelFault, Node.fault, Option.none_or,
      stepsFault_operator, levelFault_singleton, Node.fault]

mutual

theorem fault_eq_none_iff : ∀ node : Node, node.fault = none ↔ node.Formed
  | .literal _ => by simp [Node.fault, Node.Formed]
  | .operator _ => by simp [Node.fault, Node.Formed]
  | .group level => by rw [Node.fault, Node.Formed, levelFault_eq_none_iff level]

/-- **The levels without a fault are the formed ones.** -/
theorem levelFault_eq_none_iff : ∀ level : List Node, levelFault level = none ↔ LevelFormed level
  | [] => by simp [levelFault, LevelFormed]
  | node :: level => by
    rw [levelFault, LevelFormed, Option.or_eq_none_iff, fault_eq_none_iff node,
      stepsFault_eq_none_iff level]

theorem stepsFault_eq_none_iff : ∀ level : List Node, stepsFault level = none ↔ StepsFormed level
  | [] => by simp [stepsFault, StepsFormed]
  | [.operator _] => by simp [stepsFault, StepsFormed]
  | .operator _ :: node :: level => by
    rw [stepsFault, StepsFormed, Option.or_eq_none_iff, fault_eq_none_iff node,
      stepsFault_eq_none_iff level]
  | .literal _ :: _ => by simp [stepsFault, StepsFormed]
  | .group _ :: _ => by simp [stepsFault, StepsFormed]

end

/-! ## 2. The operands in front of a fault

Up to the fault, operands are evaluated as wholes; the operand that the fault stands in is entered,
and the same holds inside.  So the operands that are complete are collected level by level. -/

mutual

/-- The operands inside a node that are complete in front of its first fault. -/
def Node.completed : Node → List Node
  | .group level => levelCompleted level
  | _ => []

/-- The operands of a level that are complete in front of its first fault.  If there is none, these
are all its operands. -/
def levelCompleted : List Node → List Node
  | [] => []
  | node :: level =>
    if node.fault = none then node :: stepsCompleted level else node.completed

/-- The operands behind the first one that are complete in front of the first fault. -/
def stepsCompleted : List Node → List Node
  | .operator _ :: node :: level =>
    if node.fault = none then node :: stepsCompleted level else node.completed
  | _ => []

end

/-- The property of a group is handed down to the nodes inside it, and so reaches the operands in
front of a fault, wherever it is. -/
def HandedDown (P : Node → Prop) : Prop := ∀ level, P (.group level) → ∀ node ∈ level, P node

mutual

/-- The operands that are completed inside of a node in front of its first fault are formed, and
what is handed down reaches them.  The node may be a group with the fault in it. -/
theorem Node.of_mem_completed {P : Node → Prop} (hP : HandedDown P) : ∀ node : Node, P node →
    ∀ n ∈ node.completed, P n ∧ n.Formed
  | .literal _, _, _, h => by simp [Node.completed] at h
  | .operator _, _, _, h => by simp [Node.completed] at h
  | .group level, hnode, n, h => by
    rw [Node.completed] at h
    exact of_mem_levelCompleted hP level (hP level hnode) n h

/-- The operands in front of a fault are formed, and what is handed down reaches them. -/
theorem of_mem_levelCompleted {P : Node → Prop} (hP : HandedDown P) : ∀ level : List Node,
    (∀ node ∈ level, P node) → ∀ n ∈ levelCompleted level, P n ∧ n.Formed
  | [], _, _, h => by simp [levelCompleted] at h
  | node :: level, hlevel, n, h => by
    obtain ⟨hnode, hlevel⟩ := List.forall_mem_cons.1 hlevel
    rw [levelCompleted] at h
    split at h
    next hfault =>
      rcases List.mem_cons.1 h with rfl | h
      · exact ⟨hnode, (fault_eq_none_iff n).1 hfault⟩
      · exact of_mem_stepsCompleted hP level hlevel n h
    next => exact node.of_mem_completed hP hnode n h

theorem of_mem_stepsCompleted {P : Node → Prop} (hP : HandedDown P) : ∀ level : List Node,
    (∀ node ∈ level, P node) → ∀ n ∈ stepsCompleted level, P n ∧ n.Formed
  | [], _, _, h => by simp [stepsCompleted] at h
  | [.operator _], _, _, h => by simp [stepsCompleted] at h
  | .operator _ :: node :: level, hlevel, n, h => by
    obtain ⟨hnode, hlevel⟩ := List.forall_mem_cons.1 (List.forall_mem_cons.1 hlevel).2
    rw [stepsCompleted] at h
    split at h
    next hfault =>
      rcases List.mem_cons.1 h with rfl | h
      · exact ⟨hnode, (fault_eq_none_iff n).1 hfault⟩
      · exact of_mem_stepsCompleted hP level hlevel n h
    next => exact node.of_mem_completed hP hnode n h
  | .literal _ :: _, _, _, h => by simp [stepsCompleted] at h
  | .group _ :: _, _, _, h => by simp [stepsCompleted] at h

end

/-! ## 3. What is evaluated in front of a fault

The operands in front of the fault are evaluated for their traces; their values are never used.
Behind a fault nothing happens, so the rest of the level does not count, and neither do the levels
around it. -/

/-- Evaluates operands one after the other, for their traces only.  The first one that fails ends
it. -/
def evalAll (cap : Nat) : List Node → Traced Unit
  | [] => pure ()
  | node :: nodes => evalNode cap node >>= fun _ => evalAll cap nodes

theorem evalAll_nil (cap : Nat) : evalAll cap [] = pure () := rfl

theorem evalAll_cons (cap : Nat) (node : Node) (nodes : List Node) :
    evalAll cap (node :: nodes) = evalNode cap node >>= fun _ => evalAll cap nodes := rfl

theorem malformed_bind {α β : Type} (cause : SyntaxError) (f : α → Traced β) :
    Traced.malformed cause >>= f = Traced.malformed cause :=
  Traced.bind_of_error rfl f

/-- Evaluating some operands one after the other comes to its end if every one of them has a value.
The values themselves are forgotten. -/
theorem evalAll_eq_ok_iff {cap : Nat} {nodes : List Node} : (evalAll cap nodes).result = .ok () ↔
    ∀ node ∈ nodes, ∃ x, (evalNode cap node).result = .ok x := by
  induction nodes with
  | nil => exact iff_of_true rfl (List.forall_mem_nil _)
  | cons node nodes ih =>
    rw [evalAll_cons, List.forall_mem_cons, ← ih]
    constructor
    · intro h
      obtain ⟨x, hx, hnodes⟩ := Traced.ok_of_bind h
      exact ⟨⟨x, hx⟩, hnodes⟩
    · rintro ⟨⟨x, hx⟩, hnodes⟩
      rw [Traced.bind_of_ok hx]
      exact hnodes

mutual

/-- A node with a fault: a group with one inside, or an operator. -/
theorem evalNode_of_fault {cap : Nat} : ∀ (node : Node) {cause : SyntaxError},
    node.fault = some cause →
      evalNode cap node = evalAll cap node.completed >>= fun _ => Traced.malformed cause
  | .literal _, _, h => by
    rw [Node.fault] at h
    cases h
  | .operator _, _, h => by
    rw [Node.fault] at h
    obtain rfl := Option.some.inj h
    rw [evalNode, Node.completed, evalAll_nil, pure_bind]
    simp
  | .group level, _, h => by
    rw [Node.fault] at h
    rw [evalNode, Node.completed, evalLevel_of_fault level h]

/-- **The evaluation of a level with a fault.**  The operands that are complete in front of the fault
are evaluated, and then the fault is reported. -/
theorem evalLevel_of_fault {cap : Nat} : ∀ (level : List Node) {cause : SyntaxError},
    levelFault level = some cause →
      evalLevel cap level = evalAll cap (levelCompleted level) >>= fun _ => Traced.malformed cause
  | [], _, h => by
    rw [levelFault] at h
    obtain rfl := Option.some.inj h
    rw [evalLevel_nil, levelCompleted, evalAll_nil, pure_bind]
  | node :: level, cause, h => by
    rw [levelFault] at h
    rw [evalLevel_cons, levelCompleted]
    cases hnode : node.fault with
    | some cause' =>
      rw [hnode, Option.some_or] at h
      obtain rfl := Option.some.inj h
      rw [evalNode_of_fault node hnode, if_neg (by simp), bind_assoc]
      simp only [malformed_bind]
    | none =>
      rw [hnode, Option.none_or] at h
      rw [evalSteps_of_fault level h, if_pos rfl, evalAll_cons, bind_assoc]
      simp only [bind_assoc, malformed_bind]

/-- The nodes behind the first operand.  The operand in front of the fault, if it is complete, is
evaluated first. -/
theorem evalSteps_of_fault {cap : Nat} : ∀ (level : List Node) {cause : SyntaxError},
    stepsFault level = some cause →
      evalSteps cap level = evalAll cap (stepsCompleted level) >>= fun _ => Traced.malformed cause
  | [], _, h => by
    rw [stepsFault] at h
    cases h
  | [.operator _], _, h => by
    rw [stepsFault] at h
    obtain rfl := Option.some.inj h
    rw [evalSteps, stepsCompleted, evalAll_nil, pure_bind]
    simp
  | .operator _ :: node :: level, cause, h => by
    rw [stepsFault] at h
    rw [evalSteps, stepsCompleted]
    cases hnode : node.fault with
    | some cause' =>
      rw [hnode, Option.some_or] at h
      obtain rfl := Option.some.inj h
      rw [evalNode_of_fault node hnode, if_neg (by simp), bind_assoc]
      simp only [malformed_bind]
    | none =>
      rw [hnode, Option.none_or] at h
      rw [evalSteps_of_fault level h, if_pos rfl, evalAll_cons, bind_assoc]
      simp only [bind_assoc, malformed_bind]
  | .literal _ :: _, _, h | .group _ :: _, _, h => by
    rw [stepsFault_operand rfl] at h
    obtain rfl := Option.some.inj h
    rw [evalSteps_operand rfl, stepsCompleted, evalAll_nil, pure_bind]
    simp

end

/-! ## 4. The fault that lifting reports

The fault is described for the level as it was before the lifting, where it can be seen in the text.
Only a multiplicative operator with an additive one behind it is reported otherwise than it looks,
since lifting separates the two. -/

/-- The fault of an operator right behind another one, in a level whose runs are to be lifted: behind a
multiplicative operator, an additive one ends the run and leaves it without its last operand. -/
def strandedFault (op next : Operator) : SyntaxError :=
  if op.isMultiplicative && next.isAdditive then .missingOperand else .unexpectedOperator

/-- The first fault behind an operand, told before the runs are lifted. -/
def unliftedStepsFault : List Node → Option SyntaxError
  | [] => none
  | [.operator _] => some .missingOperand
  | .operator op :: .operator next :: _ => some (strandedFault op next)
  | .operator _ :: node :: level => node.fault.or (unliftedStepsFault level)
  | _ => some .missingOperator

/-- The first fault of a level, told before the runs are lifted. -/
def unliftedFault : List Node → Option SyntaxError
  | [] => some .missingOperand
  | node :: level => node.fault.or (unliftedStepsFault level)

/-- An operand behind an operand is the same fault before the lifting. -/
theorem unliftedStepsFault_operand {node : Node} (h : node.isOperand = true) (level : List Node) :
    unliftedStepsFault (node :: level) = some .missingOperator := by
  cases node with
  | operator op => cases h
  | literal text => rw [unliftedStepsFault] <;> simp
  | group inside => rw [unliftedStepsFault] <;> simp

theorem unliftedStepsFault_additive {op : Operator} (h : op.isAdditive = true) (level : List Node) :
    unliftedStepsFault (.operator op :: level) = unliftedFault level := by
  match level with
  | [] => rfl
  | .operator next :: level =>
    rw [unliftedStepsFault, unliftedFault, Node.fault, Option.some_or, strandedFault,
      Operator.isMultiplicative_eq_not_isAdditive, h]
    rfl
  | .literal text :: level => rw [unliftedStepsFault, unliftedFault]; simp
  | .group inside :: level => rw [unliftedStepsFault, unliftedFault]; simp

/-- No node of the run is an additive operator. -/
def IsRun (run : List Node) : Prop := ∀ node ∈ run, node.isOperator Operator.isAdditive = false

theorem isRun_cons {node : Node} {run : List Node} :
    IsRun (node :: run) ↔ node.isOperator Operator.isAdditive = false ∧ IsRun run :=
  List.forall_mem_cons

theorem isRun_splitRuns (level : List Node) : IsRun (splitRuns level).1 ∧
    ∀ p ∈ (splitRuns level).2, p.1.isAdditive = true ∧ IsRun p.2 := by
  have hnil : IsRun [] := fun _ hnode => nomatch hnode
  fun_induction splitRuns level with
  | case1 => exact ⟨hnil, List.forall_mem_nil _⟩
  | case2 op level run more hsplit hop ih =>
    rw [hsplit] at ih
    exact ⟨hnil, List.forall_mem_cons.2 ⟨⟨hop, ih.1⟩, ih.2⟩⟩
  | case3 op level run more hsplit hop ih =>
    rw [hsplit] at ih
    exact ⟨isRun_cons.2 ⟨by simpa [Node.isOperator] using hop, ih.1⟩, ih.2⟩
  | case4 operand level hoperand run more hsplit ih =>
    rw [hsplit] at ih
    refine ⟨isRun_cons.2 ⟨?_, ih.1⟩, ih.2⟩
    cases operand with
    | operator op => exact absurd rfl (hoperand op)
    | literal text => rfl
    | group inside => rfl

/-- In front of an additive operator, the steps of a run have the same first fault as alone. -/
theorem unliftedStepsFault_append {op : Operator} (hop : op.isAdditive = true) (more : List Node) :
    ∀ run : List Node, IsRun run → unliftedStepsFault (run ++ .operator op :: more) =
      (stepsFault run).or (unliftedFault more)
  | [], _ => by
    rw [List.nil_append, unliftedStepsFault_additive hop, stepsFault, Option.none_or]
  | [.operator o], h => by
    have ho : o.isAdditive = false := (isRun_cons.1 h).1
    rw [List.singleton_append, unliftedStepsFault, stepsFault, strandedFault, hop,
      Operator.isMultiplicative_eq_not_isAdditive, ho]
    rfl
  | .operator o :: .operator next :: run, h => by
    have hnext : next.isAdditive = false := (isRun_cons.1 (isRun_cons.1 h).2).1
    rw [List.cons_append, List.cons_append, unliftedStepsFault, stepsFault, strandedFault, hnext,
      Node.fault, Bool.and_false, if_neg Bool.false_ne_true]
    rfl
  | .operator o :: .literal text :: run, h => by
    have hrun := (isRun_cons.1 (isRun_cons.1 h).2).2
    rw [List.cons_append, List.cons_append, unliftedStepsFault, stepsFault,
      unliftedStepsFault_append hop more run hrun, Option.or_assoc]
    simp
  | .operator o :: .group inside :: run, h => by
    have hrun := (isRun_cons.1 (isRun_cons.1 h).2).2
    rw [List.cons_append, List.cons_append, unliftedStepsFault, stepsFault,
      unliftedStepsFault_append hop more run hrun, Option.or_assoc]
    simp
  | .literal text :: run, _ => by
    rw [List.cons_append, unliftedStepsFault_operand rfl, stepsFault_operand rfl, Option.some_or]
  | .group inside :: run, _ => by
    rw [List.cons_append, unliftedStepsFault_operand rfl, stepsFault_operand rfl, Option.some_or]

/-- A run is lifted to a group, or it holds operands only. -/
theorem liftRun_cases {run : List Node} (h : IsRun run) :
    liftRun run = [.group run] ∨ liftRun run = run ∧ ∀ node ∈ run, node.isOperand = true := by
  unfold liftRun
  split
  · exact .inl rfl
  next hany =>
    refine .inr ⟨rfl, fun node hnode => ?_⟩
    cases node with
    | literal text => rfl
    | group inside => rfl
    | operator op =>
      refine absurd (List.any_eq_true.2 ⟨_, hnode, ?_⟩) hany
      have hop : op.isAdditive = false := h _ hnode
      simp [Node.isOperator, Operator.isMultiplicative_eq_not_isAdditive, hop]

theorem liftRun_nil : liftRun [] = [] := rfl

/-- The first fault of a lifted run and of what follows it. -/
theorem levelFault_liftRun {run : List Node} (hrun : IsRun run) (hne : run ≠ []) (op : Operator)
    (more : List Node) : levelFault (liftRun run ++ .operator op :: more) =
      (levelFault run).or (levelFault more) := by
  rcases liftRun_cases hrun with hlift | ⟨hlift, hoperands⟩
  · rw [hlift, List.singleton_append, levelFault, Node.fault, stepsFault_operator]
  · rw [hlift]
    match run, hne with
    | [node], _ =>
      rw [List.singleton_append, levelFault, stepsFault_operator, levelFault_singleton]
    | node :: next :: run, _ =>
      have hnext := hoperands next (by simp)
      rw [List.cons_append, levelFault, List.cons_append, stepsFault_operand hnext, levelFault,
        stepsFault_operand hnext, Option.or_assoc, Option.some_or]

/-- A run has the same first fault whether it is lifted or not. -/
theorem levelFault_liftRun_eq {run : List Node} (h : IsRun run) :
    levelFault (liftRun run) = levelFault run := by
  rcases liftRun_cases h with hlift | ⟨hlift, -⟩
  · rw [hlift, levelFault_singleton, Node.fault]
  · rw [hlift]

/-- Where no operator is stranded, the two readings of a fault agree. -/
theorem unliftedStepsFault_eq {kind : Bool} : ∀ level : List Node,
    (∀ op, .operator op ∈ level → op.isAdditive = kind) → unliftedStepsFault level = stepsFault level
  | [], _ => by rw [unliftedStepsFault, stepsFault]
  | [.operator op], _ => by rw [unliftedStepsFault, stepsFault]
  | .operator op :: .operator next :: level, h => by
    have hop := h op (by simp)
    have hnext := h next (by simp)
    rw [unliftedStepsFault, stepsFault, strandedFault, Operator.isMultiplicative_eq_not_isAdditive,
      hop, hnext, Bool.not_and_self, if_neg Bool.false_ne_true, Node.fault, Option.some_or]
  | .operator op :: .literal text :: level, h => by
    rw [unliftedStepsFault, stepsFault,
      unliftedStepsFault_eq level fun op hop => h op (by simp [hop])]
    simp
  | .operator op :: .group inside :: level, h => by
    rw [unliftedStepsFault, stepsFault,
      unliftedStepsFault_eq level fun op hop => h op (by simp [hop])]
    simp
  | .literal text :: level, _ => by
    rw [unliftedStepsFault_operand rfl, stepsFault_operand rfl]
  | .group inside :: level, _ => by
    rw [unliftedStepsFault_operand rfl, stepsFault_operand rfl]

/-- A level with operators of one kind has no stranded ones. -/
theorem unliftedFault_eq {kind : Bool} {level : List Node}
    (h : ∀ op, .operator op ∈ level → op.isAdditive = kind) :
    unliftedFault level = levelFault level := by
  cases level with
  | nil => rw [unliftedFault, levelFault]
  | cons node level =>
    rw [unliftedFault, levelFault,
      unliftedStepsFault_eq level fun op hop => h op (List.mem_cons_of_mem _ hop)]

theorem unliftedFault_of_not_mixed {level : List Node} (h : isMixed level = false) :
    unliftedFault level = levelFault level := by
  rw [isMixed, Bool.and_eq_false_iff, List.any_eq_false, List.any_eq_false] at h
  rcases h with h | h
  · exact unliftedFault_eq fun op hop => by simpa [Node.isOperator] using h _ hop
  · exact unliftedFault_eq fun op hop => by
      simpa [Node.isOperator, Operator.isMultiplicative_eq_not_isAdditive] using h _ hop

/-- The runs of a level are lifted one by one, and the faults of the runs stay where they are. -/
theorem levelFault_joinRuns {first : List Node} {more : List (Operator × List Node)}
    (hfirst : IsRun first) (hmore : ∀ p ∈ more, p.1.isAdditive = true ∧ IsRun p.2) :
    levelFault (joinRuns (liftRun first) (more.map fun p => (p.1, liftRun p.2))) =
      unliftedFault (joinRuns first more) := by
  induction more generalizing first with
  | nil =>
    have hkind : ∀ op, .operator op ∈ first → op.isAdditive = false := fun op hop => hfirst _ hop
    simp only [List.map_nil, joinRuns, List.flatMap_nil, List.append_nil]
    rw [levelFault_liftRun_eq hfirst, unliftedFault_eq hkind]
  | cons p more ih =>
    obtain ⟨⟨hop, hrun⟩, hmore⟩ := List.forall_mem_cons.1 hmore
    have hrest := ih hrun hmore
    rw [List.map_cons, joinRuns_cons, joinRuns_cons]
    cases first with
    | nil =>
      rw [liftRun_nil, List.nil_append, List.nil_append, levelFault, unliftedFault, Node.fault,
        Option.some_or, Option.some_or]
    | cons node run =>
      rw [levelFault_liftRun hfirst (List.cons_ne_nil _ _), hrest, List.cons_append, unliftedFault,
        unliftedStepsFault_append hop _ run (isRun_cons.1 hfirst).2, levelFault, Option.or_assoc]

/-- **The first fault of a level whose runs were lifted.** -/
theorem levelFault_liftRuns (level : List Node) :
    levelFault (liftRuns level) = unliftedFault level := by
  by_cases hmixed : isMixed level = true
  · obtain ⟨hfirst, hmore⟩ := isRun_splitRuns level
    have hjoin := levelFault_joinRuns hfirst hmore
    rw [joinRuns_splitRuns, joinRuns, List.flatMap_map] at hjoin
    rw [liftRuns, if_pos hmixed]
    exact hjoin
  · rw [Bool.not_eq_true] at hmixed
    rw [liftRuns_of_not_mixed hmixed, unliftedFault_of_not_mixed hmixed]

end Expression
end DecimalCalc
