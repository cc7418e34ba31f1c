/-
# No operand right behind another one

The gate looks at neighbouring characters of the whole text and the evaluation at neighbouring nodes
of a level, and between the two the text is taken apart, signs are folded away, groups are wrapped
and runs are lifted.  None of this brings two operands together: the characters of a group are
neighbours in the whole text, folding takes operators away only in front of operands, and a lifted
run is an operand between two operators.  So the evaluation never meets an operand where an operator
should stand.

The property that is followed through the stages is a chain condition on neighbours,
`OperandsApart`, with a counterpart for characters and one for tokens.  For a lifted level it is
split at the additive operators, which keep whatever stands between them apart.  It then holds of
every level of the tree, at any depth, because it holds of each of the few ways in which levels come
to be.  That no missing operator is reported follows by going through the faults of a tree: this one
needs an operand right behind another.

* `operandsApart_liftRuns`: lifting brings no operands together;
* `Tidy.everywhere_operandsApart`: nor does anything else that is done to a text with tidy
  neighbours;
* `levelFault_ne_missingOperator`: only operands that are neighbours miss an operator;
* `missing_operator_unreachable`: no evaluation reports a missing operator.
-/
import DecimalCalc.Proofs.Expression.Nested

namespace DecimalCalc
namespace Expression

variable {cap : Nat}

/-! ## 1. Lifting

Only the operators of a level matter here, and whether something stands between them.  The shape of
a level is a list of optional operators, in which no two places without one are neighbours. -/

/-- No operand of the level stands right behind another one. -/
def OperandsApart (level : List Node) : Prop :=
  level.IsChain fun a b => a.isOperand = true → b.isOperand = false

theorem Node.operator?_eq_none_iff {node : Node} : node.operator? = none ↔ node.isOperand = true := by
  cases node <;> simp [Node.operator?, Node.isOperand]

/-- Whether operands are apart is read off the shape of the level. -/
theorem operandsApart_iff {level : List Node} :
    OperandsApart level ↔ Spaced (level.map Node.operator?) := by
  rw [Spaced, List.isChain_map]
  simp only [OperandsApart, Node.operator?_eq_none_iff, ne_eq, Bool.not_eq_true]

theorem spaced_append_operator {front shape : List (Option Operator)} {op : Operator} :
    Spaced (front ++ some op :: shape) ↔ Spaced front ∧ Spaced shape := by
  rw [Spaced, List.isChain_append, ← Spaced, ← Spaced, spaced_operator]
  refine and_congr_right fun _ => and_iff_left ?_
  rintro a - b hb -
  rw [← Option.some.inj hb]
  exact Option.some_ne_none op

theorem operandsApart_joinRuns {first : List Node} {more : List (Operator × List Node)} :
    OperandsApart (joinRuns first more) ↔ OperandsApart first ∧ ∀ p ∈ more, OperandsApart p.2 := by
  induction more generalizing first with
  | nil => simp [joinRuns]
  | cons p more ih =>
    rw [joinRuns_cons, operandsApart_iff, List.map_append, List.map_cons, Node.operator?,
      spaced_append_operator, ← operandsApart_iff, ← operandsApart_iff, ih, List.forall_mem_cons]

/-- The runs of a level are parts of it, so operands are apart in them as well. -/
theorem operandsApart_of_mem_levelRuns {level : List Node} (h : OperandsApart level)
    {run : List Node} (hrun : run ∈ levelRuns level) : OperandsApart run := by
  rw [← joinRuns_splitRuns level, operandsApart_joinRuns] at h
  rcases List.mem_cons.1 hrun with rfl | hrun
  · exact h.1
  · obtain ⟨p, hp, rfl⟩ := List.mem_map.1 hrun
    exact h.2 p hp

theorem operandsApart_liftRun {run : List Node} (h : OperandsApart run) :
    OperandsApart (liftRun run) := by
  unfold liftRun
  split
  · exact List.isChain_singleton _
  · exact h

/-- A mixed level is its lifted runs, joined by the additive operators. -/
theorem liftRuns_of_mixed {level : List Node} (h : isMixed level = true) : liftRuns level =
    joinRuns (liftRun (splitRuns level).1) ((splitRuns level).2.map fun p => (p.1, liftRun p.2)) := by
  rw [liftRuns, if_pos h, joinRuns, List.flatMap_map]

/-- **Lifting brings no operands together.** -/
theorem operandsApart_liftRuns {level : List Node} (h : OperandsApart level) :
    OperandsApart (liftRuns level) := by
  by_cases hmixed : isMixed level = true
  · rw [← joinRuns_splitRuns level, operandsApart_joinRuns] at h
    rw [liftRuns_of_mixed hmixed, operandsApart_joinRuns]
    refine ⟨operandsApart_liftRun h.1, List.forall_mem_map.2 fun p hp => ?_⟩
    exact operandsApart_liftRun (h.2 p hp)
  · rwa [liftRuns_of_not_mixed (by simpa using hmixed)]

/-! ## 2. Tidy texts

What the gate has made sure of is kept in a form that passes to groups: the alphabet, and which
character may follow which.  A group's text is a stretch of the whole text, so its neighbours are
neighbours there. -/

/-- What the gate leaves of a text, in the text and in each group of it. -/
structure Tidy (cs : List Char) : Prop where
  allowed : ∀ c ∈ cs, isAllowed c = true
  isChain : cs.IsChain fun a b => mayFollow a b = true

theorem tidy_of_gate {cs : List Char} (h : gate cs = .ok ()) : Tidy cs :=
  ⟨(of_gate h).1.isAllowed, isChain_of_gate h⟩

theorem Tidy.infix {cs part : List Char} (h : Tidy cs) (hpart : part <:+: cs) : Tidy part :=
  ⟨fun c hc => h.allowed c (hpart.subset hc), List.IsChain.infix h.isChain hpart⟩

theorem LevelOf.isInfix {cs level : List Char} (h : LevelOf cs level) : level <:+: cs := by
  induction h with
  | whole => exact List.infix_refl cs
  | inside _ hscan hmem ih => exact (isInfix_of_group_mem_scan hscan hmem).trans ih

/-- A group of a tidy text is tidy, and so on inside it. -/
theorem Tidy.group {cs : List Char} (h : Tidy cs) {tokens : List Token}
    (htokens : levelTokens cs = .ok tokens) {source : List Char} {negated : Bool}
    (hmem : .group source negated ∈ tokens) : Tidy source :=
  h.infix (levelOf_of_mem_levelTokens htokens hmem).isInfix

/-- **The tokens of a tidy text** become nodes in which operands are apart. -/
theorem Tidy.operandsApart_nodes {cs : List Char} (h : Tidy cs) {tokens : List Token}
    (htokens : levelTokens cs = .ok tokens) {build : List Char → Except SyntaxError (List Node)}
    {nodes : List Node} (hnodes : tokens.mapM (nodeOfToken build) = .ok nodes) :
    OperandsApart nodes := by
  obtain ⟨scanned, hscan, hfold⟩ := ok_of_bind htokens
  rw [operandsApart_iff, operator?_of_mapM hnodes]
  exact (folds_of_foldSigns hfold).keeps seesOperands_spaced
    (spaced_of_scan hscan h.allowed h.isChain)

/-- **Operands are apart in every level** that is built from a tidy text. -/
theorem Tidy.everywhere_operandsApart {cs : List Char} (h : Tidy cs) {level : List Node}
    (hbuild : buildLevel cs = .ok level) : Everywhere OperandsApart level := by
  refine everywhere_of_buildLevel (fun hcs htokens => hcs.group htokens) ?_ ?_ h hbuild
  · intro level
    exact .cons_cons (fun _ => rfl) (.cons_cons nofun (.singleton _))
  · intro cs tokens nodes hcs htokens hnodes
    have hapart := hcs.operandsApart_nodes htokens hnodes
    exact ⟨operandsApart_liftRuns hapart, fun run => operandsApart_of_mem_levelRuns hapart⟩

/-! ## 3. Missing operators

A missing operator is a fault that is found behind an operand, if another operand comes next.  With
operands apart everywhere there is no such place, in the level or in any group of it. -/

theorem Node.Formed.isOperand {node : Node} (h : node.Formed) : node.isOperand = true := by
  cases node with
  | literal text => rfl
  | group level => rfl
  | operator op =>
    rw [Node.Formed] at h
    exact h.elim

mutual

/-- An operand misses no operator if none of the levels in it does. -/
theorem fault_ne_missingOperator : ∀ node : Node,
    (∀ inner, node = .group inner → Everywhere OperandsApart inner) →
      node.fault ≠ some .missingOperator
  | .literal _, _ => by
    rw [Node.fault]
    exact nofun
  | .operator _, _ => by
    rw [Node.fault]
    exact nofun
  | .group level, h => by
    rw [Node.fault]
    exact levelFault_ne_missingOperator level (h level rfl)

/-- **Only operands that are neighbours miss an operator.** -/
theorem levelFault_ne_missingOperator : ∀ level : List Node, Everywhere OperandsApart level →
    levelFault level ≠ some .missingOperator
  | [], _ => by
    rw [levelFault]
    exact nofun
  | node :: level, h => by
    obtain ⟨hapart, hinner⟩ := everywhere_iff.1 h
    rw [levelFault]
    intro hfault
    rcases Option.or_eq_some_iff.1 hfault with hfault | ⟨hnone, hfault⟩
    · exact fault_ne_missingOperator node
        (fun inner hgroup => hinner inner (hgroup ▸ List.mem_cons_self)) hfault
    · exact stepsFault_ne_missingOperator level ((fault_eq_none_iff node).1 hnone).isOperand hapart
        (fun inner hmem => hinner inner (List.mem_cons_of_mem _ hmem)) hfault

/-- Behind an operand stands an operator, and behind that an operand again, so the induction goes
on two nodes further. -/
theorem stepsFault_ne_missingOperator : ∀ (level : List Node) {before : Node},
    before.isOperand = true → OperandsApart (before :: level) →
      (∀ inner, .group inner ∈ level → Everywhere OperandsApart inner) →
        stepsFault level ≠ some .missingOperator
  | [], _, _, _, _ => by
    rw [stepsFault]
    exact nofun
  | [.operator _], _, _, _, _ => by
    rw [stepsFault]
    exact nofun
  | .operator _ :: node :: level, _, _, hapart, hinner => by
    rw [stepsFault]
    intro hfault
    rcases Option.or_eq_some_iff.1 hfault with hfault | ⟨hnone, hfault⟩
    · exact fault_ne_missingOperator node
        (fun inner hgroup => hinner inner (by simp [hgroup])) hfault
    · exact stepsFault_ne_missingOperator level ((fault_eq_none_iff node).1 hnone).isOperand
        (List.isChain_cons_cons.1 (List.isChain_cons_cons.1 hapart).2).2
        (fun inner hmem => hinner inner (by simp [hmem])) hfault
  | .literal _ :: _, _, hbefore, hapart, _ => nomatch (List.isChain_cons_cons.1 hapart).1 hbefore
  | .group _ :: _, _, hbefore, hapart, _ => nomatch (List.isChain_cons_cons.1 hapart).1 hbefore

end

/-- A level in which operands are apart everywhere is not reported for a missing operator. -/
theorem evalLevel_ne_missingOperator {level : List Node} (h : Everywhere OperandsApart level) :
    (evalLevel cap level).result ≠ .error (.malformed .missingOperator) :=
  fun hresult => levelFault_ne_missingOperator level h (levelFault_of_malformed hresult)

/-- Reading an expression does not report a missing operator either. -/
theorem ofTrimmed_ne_missingOperator (cs : List Char) :
    Tree.ofTrimmed cs ≠ .error .missingOperator := by
  intro h
  rcases error_of_bind h with hgate | ⟨-, -, h⟩
  · exact absurd (mem_gateCauses hgate) (by decide)
  rcases error_of_bind h with hbuild | ⟨level, -, h⟩
  · obtain ⟨level, -, hlevel⟩ := exists_levelOf_of_buildLevel hbuild
    rcases levelTokens_error hlevel with hscan | hfold
    · exact absurd (mem_matchingCauses hscan) (by decide)
    · exact absurd hfold (by decide)
  · cases h

theorem exists_of_ofTrimmed {cs : List Char} {tree : Tree} (h : Tree.ofTrimmed cs = .ok tree) :
    gate cs = .ok () ∧ buildLevel cs = .ok tree.level := by
  obtain ⟨_, hgate, h⟩ := ok_of_bind h
  obtain ⟨level, hbuild, h⟩ := ok_of_bind h
  rw [← Except.ok.inj h]
  exact ⟨hgate, hbuild⟩

/-- **No evaluation reports a missing operator.**  In every level of every tree that is read, operands stand
apart, whether the level was one in the text, is a run that was lifted or a product with minus one; and neither
the evaluation of such a level nor that of an expression meets an operand where an operator should stand. -/
theorem missing_operator_unreachable (expression : String) :
    (∀ cap, evaluate cap expression ≠ .error (.malformed .missingOperator)) ∧
    ∀ tree, Tree.ofChars expression.toList = .ok tree →
      ∀ path level, levelAt? tree.level path = some level → OperandsApart level ∧
        ∀ cap, (evalLevel cap level).result ≠ .error (.malformed .missingOperator) := by
  have hapart : ∀ tree, Tree.ofTrimmed (Text.trim expression.toList) = .ok tree →
      Everywhere OperandsApart tree.level := fun tree htree =>
    have ⟨hgate, hbuild⟩ := exists_of_ofTrimmed htree
    (tidy_of_gate hgate).everywhere_operandsApart hbuild
  constructor
  · intro cap h
    rcases evaluate_malformed h with hread | ⟨tree, htree, hfault⟩
    · exact ofTrimmed_ne_missingOperator _ hread
    · exact levelFault_ne_missingOperator _ (hapart tree htree) hfault
  · intro tree htree path level hlevel
    have hinside := (hapart tree htree).inside hlevel
    exact ⟨hinside.here, fun cap => evalLevel_ne_missingOperator hinside⟩

/-- A negated group behind a multiplication, in a level with a subtraction: the third level from the outside is
what stands in the parentheses. -/
theorem missing_operator_unreachable_in_negated_group :
    ∃ tree level, Tree.ofChars "2-3*-(1+4*5)".toList = .ok tree ∧
      levelAt? tree.level [2, 2, 2] = some level ∧
      level.map Node.operator? = [none, some .add, none] ∧ OperandsApart level := by
  have hcomputed : ((Tree.ofChars "2-3*-(1+4*5)".toList).toOption.bind fun tree =>
      levelAt? tree.level [2, 2, 2]).map (·.map Node.operator?) = some [none, some .add, none] := by
    decide +kernel
  obtain ⟨level, hlevel, hshape⟩ := Option.map_eq_some_iff.1 hcomputed
  obtain ⟨tree, htree, hlevel⟩ := Option.bind_eq_some_iff.1 hlevel
  have hread := toOption_eq_some_iff.1 htree
  exact ⟨tree, level, hread, hlevel, hshape,
    ((missing_operator_unreachable "2-3*-(1+4*5)").2 tree hread _ level hlevel).1⟩

end Expression
end DecimalCalc
