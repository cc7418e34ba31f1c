/-
# What the lifting keeps

In a level in which operands and operators take turns, the lifting makes a group of each run of
multiplicative operators and nothing else.  Written without the new groups the level is what it was;
in its place stands a level of the same form, of one precedence, that a second lifting leaves alone.

A lifted level cannot be turned back by looking at it, since a group may have stood there before.
So the statement exhibits what became of what: the lifted level is a list of parts, each of which
knows the node it is now and the nodes that it came from.  Read by their nodes the parts are the
lifted level; read by their sources, one behind the other, they are the level before.  A part that
is a new group has additive operators on both sides, or an end, so its run was a whole one.

An interleaved level is a chain, and the chain's runs give the parts.  The pass that lifts in one go
is compared with the splitting in general elsewhere; here it is only needed that interleaved levels
satisfy its conditions.

* `Interleaved`: operands with operators between them; such a level is a chain
  (`Interleaved.exists_chain`);
* `Part`: a node of the lifted level, with the nodes it came from;
* `Chain.isFactors_of_mem_parts`, `Chain.isChain_parts`: a new group is a whole run;
* `termCount_liftRuns`: how many operands are left;
* `lifting_loses_nothing`: all of it, for the splitting and for the pass.
-/
import DecimalCalc.Proofs.Expression.Display
import DecimalCalc.Proofs.Expression.OnePass

namespace DecimalCalc
namespace Expression

/-! ## 1. Interleaved levels

Interleaving is a condition on neighbours and on both ends.  A level that satisfies it is taken
apart two nodes at a time, and is then the nodes of a chain of operands. -/

/-- Operands and operators take turns, and there is an operand at either end.  The operands may be
groups of any kind. -/
structure Interleaved (level : List Node) : Prop where
  starts : ∃ node ∈ level.head?, node.isOperand = true
  ends : ∃ node ∈ level.getLast?, node.isOperand = true
  turns : level.IsChain fun a b => a.isOperand = !b.isOperand

/-- The nodes that are operands. -/
abbrev OperandNode := { node : Node // node.isOperand = true }

theorem interleaved_singleton {node : Node} : Interleaved [node] ↔ node.isOperand = true := by
  refine ⟨fun h => ?_, fun h => ⟨⟨node, rfl, h⟩, ⟨node, rfl, h⟩, .singleton node⟩⟩
  obtain ⟨first, hfirst, h⟩ := h.starts
  rwa [Option.some.inj hfirst]

/-- An interleaved level goes on behind an operand and an operator. -/
theorem interleaved_cons_cons {a b : Node} {level : List Node} :
    Interleaved (a :: b :: level) ↔ a.isOperand = true ∧ b.isOperand = false ∧ Interleaved level := by
  constructor
  · rintro ⟨⟨first, hfirst, ha⟩, ⟨last, hlast, hend⟩, hturns⟩
    obtain rfl := Option.some.inj hfirst
    obtain ⟨hb, hrest⟩ := List.isChain_cons_cons.1 hturns
    rw [ha, Eq.comm, Bool.not_eq_true'] at hb
    refine ⟨ha, hb, ?_⟩
    cases level with
    | nil =>
      -- the operator would stand at the end
      rw [← Option.some.inj hlast] at hend
      exact absurd hend (by simp [hb])
    | cons c level =>
      obtain ⟨hc, hturns⟩ := List.isChain_cons_cons.1 hrest
      rw [hb, Eq.comm, Bool.not_eq_false'] at hc
      rw [List.getLast?_cons_cons, List.getLast?_cons_cons] at hlast
      exact ⟨⟨c, rfl, hc⟩, ⟨last, hlast, hend⟩, hturns⟩
  · rintro ⟨ha, hb, ⟨c, hc, hoperand⟩, ⟨last, hlast, hend⟩, hturns⟩
    cases level with
    | nil => cases hc
    | cons d level =>
      obtain rfl := Option.some.inj hc
      refine ⟨⟨a, rfl, ha⟩, ⟨last, ?_, hend⟩, ?_⟩
      · rwa [List.getLast?_cons_cons, List.getLast?_cons_cons]
      · exact List.isChain_cons_cons.2 ⟨by rw [ha, hb]; rfl,
          List.isChain_cons_cons.2 ⟨by rw [hb, hoperand]; rfl, hturns⟩⟩

section

variable {α : Type} {node : α → Node} (hnode : ∀ a, (node a).isOperand = true)
include hnode

theorem interleaved_nodes : ∀ chain : Chain α, Interleaved (chain.nodes node)
  | ⟨first, []⟩ => interleaved_singleton.2 (hnode first)
  | ⟨first, (_, operand) :: rest⟩ =>
    interleaved_cons_cons.2 ⟨hnode first, rfl, interleaved_nodes ⟨operand, rest⟩⟩

end

/-- **An interleaved level is a chain** of its operands. -/
theorem Interleaved.exists_chain : ∀ {level : List Node}, Interleaved level →
    ∃ chain : Chain OperandNode, chain.nodes Subtype.val = level
  | [], h => by
    obtain ⟨node, hnode, -⟩ := h.starts
    cases hnode
  | [node], h => ⟨⟨⟨node, interleaved_singleton.1 h⟩, []⟩, rfl⟩
  | node :: .operator op :: level, h => by
    obtain ⟨hnode, -, hlevel⟩ := interleaved_cons_cons.1 h
    obtain ⟨chain, rfl⟩ := hlevel.exists_chain
    exact ⟨⟨⟨node, hnode⟩, (op, chain.first) :: chain.rest⟩, rfl⟩
  | _ :: .literal _ :: _, h | _ :: .group _ :: _, h => by
    cases (interleaved_cons_cons.1 h).2.1

namespace Interleaved

variable {level : List Node} (h : Interleaved level)
include h

/-- Where operands and operators take turns, no two operands are neighbours. -/
theorem operandsApart : OperandsApart level :=
  h.turns.imp fun a b hturn ha => by simpa [ha] using hturn

/-- Nor are two operators, so no multiplicative one stands behind an additive one. -/
theorem signsClean : SignsClean level := by
  refine h.turns.imp fun a b hturn ha => ?_
  cases a with
  | literal text => cases ha
  | group inside => cases ha
  | operator op =>
    cases b with
    | literal text => rfl
    | group inside => rfl
    | operator next => cases hturn

end Interleaved

/-! ## 2. Parts

Parts keep the two levels together.  They are written down for a chain of runs, and its two readings
are calculated from the chain, one as what lifting makes and one as what was there. -/

/-- A node of a lifted level, with what it came from. -/
inductive Part where
  /-- The node stood in the level. -/
  | kept (node : Node)
  /-- The node is the group of a run. -/
  | lifted (run : List Node)

namespace Part

/-- The node in the lifted level. -/
def node : Part → Node
  | .kept node => node
  | .lifted run => .group run

/-- The nodes in the level before. -/
def source : Part → List Node
  | .kept node => [node]
  | .lifted run => run

/-- An additive operator. -/
def IsAdditive (part : Part) : Prop := ∃ op : Operator, part = .kept (.operator op) ∧ op.isAdditive = true

end Part

/-- Operands with multiplicative operators between them, one at least: what becomes a group, and
nothing less does. -/
structure IsFactors (run : List Node) : Prop where
  interleaved : Interleaved run
  multiplicative : ∀ op : Operator, .operator op ∈ run → op.isMultiplicative = true
  three_le_length : 3 ≤ run.length

theorem isRun_iff_any {level : List Node} :
    IsRun level ↔ level.any (Node.isOperator Operator.isAdditive) = false := by
  simp [IsRun]

namespace Chain

/-- A run as a part: its only operand, or a group. -/
def part (run : Chain OperandNode) : Part :=
  if run.rest.isEmpty then .kept run.first.val else .lifted (run.nodes Subtype.val)

/-- Runs as parts, with the operators between them, which are kept. -/
def parts (runs : Chain (Chain OperandNode)) : List Part :=
  runs.first.part :: runs.rest.flatMap fun p => [.kept (.operator p.1), p.2.part]

theorem node_part (run : Chain OperandNode) : run.part.node = run.lifted Subtype.val := by
  unfold part lifted
  split <;> rfl

theorem source_part (run : Chain OperandNode) : run.part.source = run.nodes Subtype.val := by
  unfold part
  split
  next h => rw [nodes, List.isEmpty_iff.1 h]; rfl
  next => rfl

/-- Read by their nodes, the parts are the lifted runs with the operators between them. -/
theorem map_node_parts (runs : Chain (Chain OperandNode)) :
    runs.parts.map Part.node = runs.nodes (lifted Subtype.val) := by
  rw [parts, List.map_cons, node_part, List.map_flatMap]
  refine congrArg _ (List.flatMap_congr fun p _ => ?_)
  rw [List.map_cons, List.map_singleton, node_part]
  rfl

/-- The runs, one behind the other with the operators between them, are the chain that was split.
So lifting neither loses a node nor moves one. -/
theorem flatMap_source_parts (chain : Chain OperandNode) :
    chain.runs.parts.flatMap Part.source = chain.nodes Subtype.val := by
  have hsteps : ∀ rest : List (Operator × OperandNode),
      stepNodes Subtype.val (splitRest rest).1 ++ (splitRest rest).2.flatMap
        (fun p => .operator p.1 :: p.2.nodes Subtype.val) = stepNodes Subtype.val rest := by
    intro rest
    induction rest with
    | nil => rfl
    | cons p rest ih =>
      rw [stepNodes_cons, ← ih, splitRest]
      split <;> rfl
  have hrest (p : Operator × Chain OperandNode) :
      [Part.kept (.operator p.1), p.2.part].flatMap Part.source =
        .operator p.1 :: p.2.nodes Subtype.val := by
    rw [List.flatMap_cons, List.flatMap_singleton, source_part]
    rfl
  rw [parts, List.flatMap_cons, source_part, List.flatMap_assoc,
    List.flatMap_congr fun p _ => hrest p, nodes, nodes, ← hsteps chain.rest]
  rfl

/-- Of two parts next to each other one is an additive operator, so a group stands between such
operators or at an end. -/
theorem isChain_parts (runs : Chain (Chain OperandNode)) (h : ∀ p ∈ runs.rest, p.1.isAdditive = true) :
    runs.parts.IsChain fun a b => a.IsAdditive ∨ b.IsAdditive := by
  obtain ⟨first, rest⟩ := runs
  induction rest generalizing first with
  | nil => exact .singleton first.part
  | cons p rest ih =>
    obtain ⟨hop, hrest⟩ := List.forall_mem_cons.1 h
    have hadditive : (Part.kept (.operator p.1)).IsAdditive := ⟨p.1, rfl, hop⟩
    exact List.isChain_cons_cons.2 ⟨.inr hadditive,
      List.isChain_cons_cons.2 ⟨.inl hadditive, ih p.2 hrest⟩⟩

variable {α : Type} {node : α → Node}

theorem isFactors_nodes (hnode : ∀ a, (node a).isOperand = true) {run : Chain α}
    (h : ∀ p ∈ run.rest, p.1.isAdditive = false) (hne : run.rest ≠ []) : IsFactors (run.nodes node) where
  interleaved := interleaved_nodes hnode run
  multiplicative op hop := by
    have hany : (run.nodes node).any (Node.isOperator Operator.isAdditive) = false := by
      rw [any_nodes hnode, List.any_eq_false]
      exact fun p hp => by simp [h p hp]
    exact (isRun_iff_any.2 hany).isMultiplicative hop
  three_le_length := by
    have hpos := List.length_pos_iff.2 hne
    rw [length_nodes]
    omega

/-- A run that becomes a group has an operator in it. -/
theorem isFactors_of_part {run : Chain OperandNode} (h : ∀ p ∈ run.rest, p.1.isAdditive = false)
    {group : List Node} (hpart : run.part = .lifted group) : IsFactors group := by
  unfold part at hpart
  split at hpart
  next => cases hpart
  next hne =>
    obtain rfl := Part.lifted.inj hpart
    exact isFactors_nodes Subtype.property h (by simpa using hne)

/-- **Every new group holds factors.** -/
theorem isFactors_of_mem_parts {chain : Chain OperandNode} {run : List Node}
    (h : .lifted run ∈ chain.runs.parts) : IsFactors run := by
  obtain ⟨hfirst, hmore⟩ := isAdditive_splitRest chain.rest
  rcases List.mem_cons.1 h with h | h
  · exact isFactors_of_part hfirst h.symm
  · obtain ⟨p, hp, h⟩ := List.mem_flatMap.1 h
    rcases List.mem_cons.1 h with h | h
    · cases h
    · exact isFactors_of_part (hmore p hp).2 (List.mem_singleton.1 h).symm

end Chain

/-- A new group is no additive operator, so what stands next to it is. -/
theorem not_isAdditive_lifted (run : List Node) : ¬ (Part.lifted run).IsAdditive := by
  rintro ⟨op, hop, -⟩
  cases hop

/-- **A lifted level in parts**: every new group is a whole run of factors.  If nothing is lifted,
every node is a part that was kept. -/
theorem exists_parts {level : List Node} (h : Interleaved level) :
    ∃ parts : List Part, parts.map Part.node = liftRuns level ∧ parts.flatMap Part.source = level ∧
      ∀ front run behind, parts = front ++ .lifted run :: behind →
        IsFactors run ∧ (∀ part ∈ front.getLast?, part.IsAdditive) ∧
          ∀ part ∈ behind.head?, part.IsAdditive := by
  obtain ⟨chain, rfl⟩ := h.exists_chain
  by_cases hmixed : isMixed (chain.nodes Subtype.val) = true
  · refine ⟨chain.runs.parts, ?_, chain.flatMap_source_parts, fun front run behind hparts => ?_⟩
    · rw [liftRuns_nodes Subtype.property hmixed, Chain.map_node_parts]
    · have hchain := Chain.isChain_parts chain.runs
        fun p hp => ((isAdditive_splitRest chain.rest).2 p hp).1
      have hmem : .lifted run ∈ chain.runs.parts := by rw [hparts]; simp
      rw [hparts] at hchain
      obtain ⟨-, hbehind, hfront⟩ := List.isChain_append.1 hchain
      refine ⟨Chain.isFactors_of_mem_parts hmem, fun part hpart => ?_, fun part hpart => ?_⟩
      · exact (hfront part hpart _ rfl).resolve_right (not_isAdditive_lifted run)
      · exact ((List.isChain_cons.1 hbehind).1 part hpart).resolve_left (not_isAdditive_lifted run)
  · -- a level of one precedence is kept node by node
    rw [Bool.not_eq_true] at hmixed
    refine ⟨(chain.nodes Subtype.val).map .kept, ?_, ?_, fun front run behind hparts => ?_⟩
    · rw [liftRuns_of_not_mixed hmixed, List.map_map]
      exact List.map_id _
    · rw [List.flatMap_map]
      exact List.flatMap_singleton' _
    · have hmem : Part.lifted run ∈ (chain.nodes Subtype.val).map .kept := by rw [hparts]; simp
      obtain ⟨node, -, hkept⟩ := List.mem_map.1 hmem
      cases hkept

/-! ## 3. Lifted levels

The lifted level is a chain of operands again, with additive operators between them; a level that
was not lifted has operators of one kind to begin with. -/

/-- **A lifted level is interleaved** again. -/
theorem interleaved_liftRuns {level : List Node} (h : Interleaved level) : Interleaved (liftRuns level) := by
  cases hmixed : isMixed level with
  | false => rwa [liftRuns_of_not_mixed hmixed]
  | true =>
    obtain ⟨chain, rfl⟩ := h.exists_chain
    rw [liftRuns_nodes Subtype.property hmixed]
    exact interleaved_nodes (isOperand_lifted Subtype.property) chain.runs

/-- In a level that is not mixed all operators are of one precedence. -/
theorem operators_of_not_mixed {level : List Node} (h : isMixed level = false) :
    (∀ op : Operator, .operator op ∈ level → op.isAdditive = true) ∨
      ∀ op : Operator, .operator op ∈ level → op.isMultiplicative = true := by
  rcases Bool.and_eq_false_iff.1 h with hany | hany
  · exact .inr fun op hop => (isRun_iff_any.2 hany).isMultiplicative hop
  · refine .inl fun op hop => ?_
    have hkind : ¬ op.isMultiplicative = true := List.any_eq_false.1 hany _ hop
    rwa [Operator.isMultiplicative_eq_not_isAdditive, Bool.not_eq_true', Bool.not_eq_false] at hkind

/-! ## 4. Counting

A mixed level has one operand more than it has additive operators, once it is lifted.  A level that
is not mixed has one more than it has operators, of whichever kind they are. -/

/-- **The operands of a lifted level** are one more than its operators. -/
theorem termCount_liftRuns {level : List Node} (h : Interleaved level) :
    (Tree.mk (liftRuns level)).termCount =
      (if level.any (Node.isOperator Operator.isAdditive) then
        level.countP (Node.isOperator Operator.isAdditive)
      else level.countP (Node.isOperator Operator.isMultiplicative)) + 1 := by
  obtain ⟨chain, rfl⟩ := h.exists_chain
  rw [Tree.termCount, countP_isOperator_nodes Subtype.property, countP_isOperator_nodes Subtype.property]
  by_cases hmixed : isMixed (chain.nodes Subtype.val) = true
  · rw [liftRuns_nodes Subtype.property hmixed, countP_isOperand_nodes (isOperand_lifted Subtype.property),
      if_pos (Bool.and_eq_true_iff.1 hmixed).1, ← length_splitRest]
    rfl
  · rw [Bool.not_eq_true] at hmixed
    have hlength : chain.rest.length = chain.rest.countP (fun p => p.1.isAdditive) +
        chain.rest.countP (fun p => p.1.isMultiplicative) := by
      simpa [Operator.isMultiplicative_eq_not_isAdditive] using
        List.length_eq_countP_add_countP (l := chain.rest) fun p => p.1.isAdditive
    rw [liftRuns_of_not_mixed hmixed, countP_isOperand_nodes Subtype.property, hlength]
    rw [isMixed, any_nodes Subtype.property, any_nodes Subtype.property] at hmixed
    rw [any_nodes Subtype.property]
    cases hadditive : chain.rest.any fun p => p.1.isAdditive with
    | false => rw [List.countP_eq_zero.2 (List.any_eq_false.1 hadditive)]; simp
    | true =>
      rw [hadditive, Bool.true_and] at hmixed
      rw [List.countP_eq_zero.2 (List.any_eq_false.1 hmixed)]
      simp

/-! ## 5. The lifting

The theorem assumes nothing about the level but that operands and operators take turns.  Whether it
came from a text does not matter. -/

/-- **The lifting loses nothing** of an interleaved level, and the pass makes the same lifting.  The level is
interleaved again and of one precedence.  What is new in it are groups of factors, each reaching as far as the
next additive operators; with the runs in their place it is the level as it was.  Lifted once more it stays as it
is, and it has one operand more than there were additive operators, or multiplicative ones if there were none. -/
theorem lifting_loses_nothing {level : List Node} (h : Interleaved level) :
    liftInOnePass level = liftRuns level ∧
    Interleaved (liftRuns level) ∧
    ((∀ op : Operator, .operator op ∈ liftRuns level → op.isAdditive = true) ∨
      ∀ op : Operator, .operator op ∈ liftRuns level → op.isMultiplicative = true) ∧
    (∃ parts : List Part, parts.map Part.node = liftRuns level ∧ parts.flatMap Part.source = level ∧
      ∀ front run behind, parts = front ++ .lifted run :: behind →
        IsFactors run ∧ (∀ part ∈ front.getLast?, part.IsAdditive) ∧
          ∀ part ∈ behind.head?, part.IsAdditive) ∧
    liftRuns (liftRuns level) = liftRuns level ∧
    (Tree.mk (liftRuns level)).termCount =
      (if level.any (Node.isOperator Operator.isAdditive) then
        level.countP (Node.isOperator Operator.isAdditive)
      else level.countP (Node.isOperator Operator.isMultiplicative)) + 1 := by
  have hmixed : isMixed (liftRuns level) = false := (not_mixed_liftRuns level).1
  refine ⟨?_, interleaved_liftRuns h, operators_of_not_mixed hmixed, exists_parts h,
    liftRuns_of_not_mixed hmixed, termCount_liftRuns h⟩
  exact liftInOnePass_eq_liftRuns h.operandsApart h.signsClean

/-- A run stands at either end, and between them an operand by itself. -/
theorem lifting_loses_nothing_at_both_ends :
    let first : List Node := [.literal ['2'], .operator .multiply, .literal ['3']]
    let last : List Node := [.literal ['5'], .operator .divide, .literal ['6']]
    let level := first ++ [.operator .add, .literal ['4'], .operator .subtract] ++ last
    Interleaved level ∧
      liftInOnePass level =
        [.group first, .operator .add, .literal ['4'], .operator .subtract, .group last] ∧
      (Tree.mk (liftRuns level)).termCount = 3 := by
  intro first last level
  have hlevel : Interleaved level := interleaved_cons_cons.2 ⟨rfl, rfl, interleaved_cons_cons.2
    ⟨rfl, rfl, interleaved_cons_cons.2 ⟨rfl, rfl, interleaved_cons_cons.2
      ⟨rfl, rfl, interleaved_singleton.2 rfl⟩⟩⟩⟩
  obtain ⟨hpass, -, -, -, -, hcount⟩ := lifting_loses_nothing hlevel
  exact ⟨hlevel, hpass.trans rfl, hcount⟩

end Expression
end DecimalCalc
