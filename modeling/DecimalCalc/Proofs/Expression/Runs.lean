/-
# Runs of a chain

A chain falls into runs of multiplicative operators with additive operators between them.  The usual
reading joins each run first and then the runs; the lifting makes the same runs into groups.  Both
are said for operands of any type, which stand for a node and for a term.

Splitting is the one recursion that reading and lifting share.  It is written once, on the operators
of a chain, and both sides are shown to go along with it: the usual reading of a chain is that of
its runs, and the nodes of a chain are lifted to the nodes of its runs.  What is proved about a
lifted level can then be held against the reading run by run, with no need to look at either
recursion again.  The count of the runs comes for free, since every additive operator begins one.

* `Chain.read_map`: the usual reading joins the joined runs;
* `liftRuns_nodes`: the lifting makes a chain of the lifted runs.
-/
import DecimalCalc.Expression.Tree
import DecimalCalc.Proofs.Expression.Meaning

namespace DecimalCalc
namespace Expression

variable {α : Type}

/-! ## 1. Splitting into runs

The recursion goes along the operators behind the first operand.  It returns what still belongs to
the run that is open, and the finished runs behind it, each with the operator in front. -/

/-- Splits the operands behind the first one at the additive operators: what still belongs to the first
run, and the other runs. -/
def splitRest : List (Operator × α) → List (Operator × α) × List (Operator × Chain α)
  | [] => ([], [])
  | (op, operand) :: rest =>
    if op.isAdditive then ([], (op, ⟨operand, (splitRest rest).1⟩) :: (splitRest rest).2)
    else ((op, operand) :: (splitRest rest).1, (splitRest rest).2)

namespace Chain

/-- The runs of a chain, joined by the additive operators.  Each run is a chain again, of
multiplicative operators only. -/
def runs (chain : Chain α) : Chain (Chain α) :=
  ⟨⟨chain.first, (splitRest chain.rest).1⟩, (splitRest chain.rest).2⟩

/-- The chain with its operands replaced; the operators stay where they are. -/
def map {β : Type} (f : α → β) (chain : Chain α) : Chain β :=
  ⟨f chain.first, chain.rest.map fun p => (p.1, f p.2)⟩

end Chain

/-- What holds along a chain holds along its runs and between them. -/
theorem forall_splitRest {P : Operator × α → Prop} : ∀ {rest : List (Operator × α)},
    (∀ p ∈ rest, P p) → (∀ p ∈ (splitRest rest).1, P p) ∧
      ∀ p ∈ (splitRest rest).2, P (p.1, p.2.first) ∧ ∀ q ∈ p.2.rest, P q
  | [], _ => ⟨fun _ hp => (nomatch hp), fun _ hp => nomatch hp⟩
  | (op, operand) :: rest, h => by
    obtain ⟨hfirst, hrest⟩ := List.forall_mem_cons.1 h
    obtain ⟨htail, hmore⟩ := forall_splitRest hrest
    unfold splitRest
    split
    · exact ⟨fun _ hp => (nomatch hp), List.forall_mem_cons.2 ⟨⟨hfirst, htail⟩, hmore⟩⟩
    · exact ⟨List.forall_mem_cons.2 ⟨hfirst, htail⟩, hmore⟩

/-- No operator in a run is additive, every one between runs is.  Both are decided by the same
test, one operator at a time. -/
theorem isAdditive_splitRest : ∀ rest : List (Operator × α),
    (∀ p ∈ (splitRest rest).1, p.1.isAdditive = false) ∧
      ∀ p ∈ (splitRest rest).2, p.1.isAdditive = true ∧ ∀ q ∈ p.2.rest, q.1.isAdditive = false
  | [] => ⟨fun _ hp => (nomatch hp), fun _ hp => nomatch hp⟩
  | (op, operand) :: rest => by
    obtain ⟨htail, hmore⟩ := isAdditive_splitRest rest
    unfold splitRest
    split
    · next hop => exact ⟨fun _ hp => (nomatch hp), List.forall_mem_cons.2 ⟨⟨hop, htail⟩, hmore⟩⟩
    · next hop =>
      rw [Bool.not_eq_true] at hop
      exact ⟨List.forall_mem_cons.2 ⟨hop, htail⟩, hmore⟩

theorem length_splitRest (rest : List (Operator × α)) :
    (splitRest rest).2.length = rest.countP fun p => p.1.isAdditive := by
  induction rest with
  | nil => rfl
  | cons p rest ih =>
    rw [splitRest]
    split
    next hop => rw [List.length_cons, ih, List.countP_cons, if_pos hop]
    next hop => rw [ih, List.countP_cons, if_neg hop, Nat.add_zero]

/-! ## 2. The reading of runs

Joining goes from left to right, whatever the operators are, so it is the usual reading of a chain
of one precedence.  For a chain of both it is the reading of each run, and then of the runs. -/

/-- Joins further operands from left to right.  The term of an operand is given by a function, so
the operands may be of any type. -/
def Term.join (term : α → Term) (first : Term) (rest : List (Operator × α)) : Term :=
  rest.foldl (fun joined p => .binary p.1 joined (term p.2)) first

/-- Joins a chain from left to right, whatever its operators are. -/
def Chain.joined (term : α → Term) (chain : Chain α) : Term :=
  Term.join term (term chain.first) chain.rest

theorem Term.join_cons (term : α → Term) (first : Term) (p : Operator × α)
    (rest : List (Operator × α)) :
    Term.join term first (p :: rest) = Term.join term (.binary p.1 first (term p.2)) rest := rfl

/-- The reading with something in hand: the rest of the open run is joined to it, and then the
other runs are. -/
theorem Term.readFrom_map (term : α → Term) (before : Term → Term) (first : Term) :
    ∀ rest : List (Operator × α), Term.readFrom before first (rest.map fun p => (p.1, term p.2)) =
      Term.join (Chain.joined term) (before (Term.join term first (splitRest rest).1))
        (splitRest rest).2
  | [] => rfl
  | (op, operand) :: rest => by
    rw [List.map_cons, Term.readFrom, splitRest]
    split
    · rw [Term.readFrom_map]
      rfl
    · rw [Term.readFrom_map]
      rfl

/-- **The usual reading joins the joined runs.**  What stands in front of a run is joined when the
run is complete. -/
theorem Chain.read_map (term : α → Term) (chain : Chain α) :
    (chain.map term).read = chain.runs.joined (Chain.joined term) :=
  Term.readFrom_map term id (term chain.first) chain.rest

/-- A chain of multiplicative operators is read by joining it. -/
theorem Chain.read_of_multiplicative {term : α → Term} {chain : Chain α}
    (h : ∀ p ∈ chain.rest, p.1.isAdditive = false) : (chain.map term).read = chain.joined term := by
  have hsplit : ∀ {rest : List (Operator × α)}, (∀ p ∈ rest, p.1.isAdditive = false) →
      splitRest rest = (rest, []) := by
    intro rest h
    induction rest with
    | nil => rfl
    | cons p rest ih =>
      obtain ⟨hop, hrest⟩ := List.forall_mem_cons.1 h
      simp [splitRest, hop, ih hrest]
  rw [Chain.read_map, Chain.runs, hsplit h]
  rfl

theorem Chain.read_of_additive {term : α → Term} {chain : Chain α}
    (h : ∀ p ∈ chain.rest, p.1.isAdditive = true) : (chain.map term).read = chain.joined term := by
  have hread : ∀ {rest : List (Operator × α)} (before : Term → Term) (first : Term),
      (∀ p ∈ rest, p.1.isAdditive = true) →
        Term.readFrom before first (rest.map fun p => (p.1, term p.2)) =
          Term.join term (before first) rest := by
    intro rest
    induction rest with
    | nil => exact fun _ _ _ => rfl
    | cons p rest ih =>
      intro before first h
      obtain ⟨hop, hrest⟩ := List.forall_mem_cons.1 h
      rw [List.map_cons, Term.readFrom, if_pos hop, ih _ _ hrest, Term.join_cons]
  exact hread id (term chain.first) h

/-! ## 3. The nodes of runs

Nodes of operands alternate with operators, so counting and asking for operators of a kind comes
down to the operators of the chain.  The lifting is followed on these nodes along the same recursion
as the reading. -/

/-- The nodes behind the first one. -/
def stepNodes (node : α → Node) (rest : List (Operator × α)) : List Node :=
  rest.flatMap fun p => [.operator p.1, node p.2]

/-- The nodes of a chain: one for the first operand, and two for each further one. -/
def Chain.nodes (node : α → Node) (chain : Chain α) : List Node :=
  node chain.first :: stepNodes node chain.rest

/-- The node that a run is lifted to: its only operand, or a group. -/
def Chain.lifted (node : α → Node) (run : Chain α) : Node :=
  if run.rest.isEmpty then node run.first else .group (run.nodes node)

theorem stepNodes_cons (node : α → Node) (p : Operator × α) (rest : List (Operator × α)) :
    stepNodes node (p :: rest) = .operator p.1 :: node p.2 :: stepNodes node rest := rfl

theorem Chain.length_nodes (node : α → Node) (chain : Chain α) :
    (chain.nodes node).length = 2 * chain.rest.length + 1 := by
  simp [Chain.nodes, stepNodes, List.length_flatMap, mul_comm]

section

variable {node : α → Node} (hnode : ∀ a, (node a).isOperand = true)
include hnode

theorem isOperator_eq_false (kind : Operator → Bool) (a : α) :
    (node a).isOperator kind = false := by
  have h := hnode a
  cases hcase : node a with
  | literal text => rfl
  | operator op =>
    rw [hcase] at h
    cases h
  | group level => rfl

theorem countP_isOperand_nodes (chain : Chain α) :
    (chain.nodes node).countP Node.isOperand = chain.rest.length + 1 := by
  have hsteps : ∀ rest : List (Operator × α), (stepNodes node rest).countP Node.isOperand = rest.length := by
    intro rest
    induction rest with
    | nil => rfl
    | cons p rest ih =>
      rw [stepNodes_cons, List.countP_cons_of_neg Bool.false_ne_true, List.countP_cons_of_pos (hnode p.2), ih,
        List.length_cons]
  rw [Chain.nodes, List.countP_cons_of_pos (hnode chain.first), hsteps]

theorem countP_isOperator_nodes (kind : Operator → Bool) (chain : Chain α) :
    (chain.nodes node).countP (Node.isOperator kind) = chain.rest.countP fun p => kind p.1 := by
  have hoperand (a : α) : ¬ (node a).isOperator kind = true := by
    rw [isOperator_eq_false hnode]
    exact Bool.false_ne_true
  have hsteps : ∀ rest : List (Operator × α),
      (stepNodes node rest).countP (Node.isOperator kind) = rest.countP fun p => kind p.1 := by
    intro rest
    induction rest with
    | nil => rfl
    | cons p rest ih =>
      rw [stepNodes_cons, List.countP_cons, List.countP_cons_of_neg (hoperand p.2), ih, List.countP_cons]
      rfl
  rw [Chain.nodes, List.countP_cons_of_neg (hoperand chain.first), hsteps]

theorem any_nodes (kind : Operator → Bool) (chain : Chain α) :
    (chain.nodes node).any (Node.isOperator kind) = chain.rest.any fun p => kind p.1 := by
  rw [Bool.eq_iff_iff, List.any_eq_true, List.any_eq_true, ← List.countP_pos_iff,
    countP_isOperator_nodes hnode, List.countP_pos_iff]

theorem isOperand_lifted (run : Chain α) : (run.lifted node).isOperand = true := by
  unfold Chain.lifted
  split
  · exact hnode run.first
  · rfl

theorem splitRuns_operand (a : α) (level : List Node) :
    splitRuns (node a :: level) = (node a :: (splitRuns level).1, (splitRuns level).2) := by
  have h := hnode a
  cases hcase : node a with
  | literal text => rw [splitRuns]; simp
  | operator op =>
    rw [hcase] at h
    cases h
  | group inside => rw [splitRuns]; simp

theorem splitRuns_stepNodes : ∀ rest : List (Operator × α), splitRuns (stepNodes node rest) =
    (stepNodes node (splitRest rest).1, (splitRest rest).2.map fun p => (p.1, p.2.nodes node))
  | [] => rfl
  | (op, operand) :: rest => by
    rw [stepNodes_cons, splitRuns, splitRuns_operand hnode, splitRuns_stepNodes rest, splitRest]
    dsimp only
    split <;> rfl

/-- A run without operators stays an operand, and any other becomes a group. -/
theorem liftRun_nodes {run : Chain α} (h : ∀ p ∈ run.rest, p.1.isAdditive = false) :
    liftRun (run.nodes node) = [run.lifted node] := by
  rw [liftRun, any_nodes hnode, Chain.lifted]
  cases hrest : run.rest with
  | nil => simp [Chain.nodes, stepNodes, hrest]
  | cons p rest =>
    rw [hrest] at h
    have hop := h p List.mem_cons_self
    simp [Operator.isMultiplicative_eq_not_isAdditive, hop]

/-- **The lifting makes a chain of the lifted runs.** -/
theorem liftRuns_nodes {chain : Chain α} (h : isMixed (chain.nodes node) = true) :
    liftRuns (chain.nodes node) = chain.runs.nodes (Chain.lifted node) := by
  obtain ⟨hfirst, hmore⟩ := isAdditive_splitRest chain.rest
  have hsplit : splitRuns (chain.nodes node) = ((chain.runs.first).nodes node,
      chain.runs.rest.map fun p => (p.1, p.2.nodes node)) := by
    rw [Chain.nodes, splitRuns_operand hnode, splitRuns_stepNodes hnode]
    rfl
  rw [liftRuns, if_pos h, hsplit]
  simp only [List.flatMap_map]
  rw [liftRun_nodes hnode hfirst, List.singleton_append, Chain.nodes, stepNodes]
  congr 1
  apply List.flatMap_congr
  intro p hp
  rw [liftRun_nodes hnode (hmore p hp).2]

end

end Expression
end DecimalCalc
