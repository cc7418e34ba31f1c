/-
# Lifting in one pass

The runs of a mixed level can be lifted on the way through it, without splitting it first: a
multiplicative operator opens a run with the node in front of it, an additive one closes the run.
The node in front is the first operand of the run only if it is an operand, and the only one.  In a
level that is built from a text it always is, so the pass makes the same groups as the splitting.

The pass is written down with its state, the nodes that are finished and the run that is open, and
is a fold of one step over the nodes.  On levels of an arbitrary shape it differs from the
splitting: behind an additive operator, a multiplicative one would take that operator into its run.
Two conditions on neighbours exclude this, that operands stand apart and that no multiplicative
operator stands behind an additive one.  Levels of a text satisfy both, since the gate allows no
other neighbours and folding a sign away leaves none.  Levels that are not well formed are included,
as long as they come from a text.

* `close_foldl_next`: what the pass does in one run;
* `liftInOnePass_eq_liftRuns`: the pass and the splitting agree where nodes follow each other as
  they should;
* `Tidy.liftInOnePass_nodes`: so they agree on every level of a text that passes the gate.
-/
import DecimalCalc.Proofs.Expression.Spacing

namespace DecimalCalc
namespace Expression

/-! ## 1. The pass

The step of the pass has a case for each kind of node and for whether a run is open.  The equations
after it say what happens in each case, under the condition that tells the case from the others. -/

/-- A level on the way through it: what is finished, and the run that is open, if there is one.
What is finished is not looked at again but for its last node. -/
structure Pass where
  finished : List Node
  run : Option (List Node)

namespace Pass

/-- The nodes so far, with the open run as a group. -/
def close (pass : Pass) : List Node := pass.finished ++ (pass.run.map Node.group).toList

/-- Goes on behind one more node.  A multiplicative operator without an open run takes the last
finished node into a new one. -/
def next (pass : Pass) : Node → Pass
  | .operator op =>
    if op.isMultiplicative then
      match pass.run with
      | some run => ⟨pass.finished, some (run ++ [.operator op])⟩
      | none => ⟨pass.finished.dropLast, some (pass.finished.getLast?.toList ++ [.operator op])⟩
    else ⟨pass.close ++ [.operator op], none⟩
  | operand =>
    match pass.run with
    | some run => ⟨pass.finished, some (run ++ [operand])⟩
    | none => ⟨pass.finished ++ [operand], none⟩

/-- Without an open run an operand is finished at once, and may be taken back by the operator
behind it. -/
theorem next_operand {node : Node} (h : node.isOperand = true) (finished : List Node) :
    next ⟨finished, none⟩ node = ⟨finished ++ [node], none⟩ := by
  cases node with
  | literal text => rfl
  | group level => rfl
  | operator op => cases h

/-- An additive operator closes the run in front of it. -/
theorem next_additive {op : Operator} (h : op.isAdditive = true) (pass : Pass) :
    pass.next (.operator op) = ⟨pass.close ++ [.operator op], none⟩ := by
  rw [next, Operator.isMultiplicative_eq_not_isAdditive, h]
  rfl

theorem next_multiplicative {op : Operator} (h : op.isMultiplicative = true) (finished : List Node) :
    next ⟨finished, none⟩ (.operator op) =
      ⟨finished.dropLast, some (finished.getLast?.toList ++ [.operator op])⟩ := by
  rw [next, if_pos h]

/-- A run that is open takes in whatever is not an additive operator. -/
theorem next_open {node : Node} (h : node.isOperator Operator.isAdditive = false)
    (finished run : List Node) :
    next ⟨finished, some run⟩ node = ⟨finished, some (run ++ [node])⟩ := by
  cases node with
  | literal text => rfl
  | group level => rfl
  | operator op =>
    have hop : op.isMultiplicative = true := by
      rw [Operator.isMultiplicative_eq_not_isAdditive]
      simpa [Node.isOperator] using h
    rw [next, if_pos hop]

end Pass

/-- In a mixed level, lifts every multiplicative run into a group, in one pass. -/
def liftInOnePass (level : List Node) : List Node :=
  if isMixed level then (level.foldl Pass.next ⟨[], none⟩).close else level

/-! ## 2. One run

A run holds no additive operator, so once a group is open in it, everything goes into the group.
What is to be seen is how the group is opened, which depends on what stands in front of the first
operator. -/

/-- An open run takes in the whole rest of a run. -/
theorem foldl_next_open {run : List Node} (h : IsRun run) (finished opened : List Node) :
    run.foldl Pass.next ⟨finished, some opened⟩ = ⟨finished, some (opened ++ run)⟩ := by
  induction run generalizing opened with
  | nil => rw [List.foldl_nil, List.append_nil]
  | cons node run ih =>
    obtain ⟨hnode, hrun⟩ := isRun_cons.1 h
    rw [List.foldl_cons, Pass.next_open hnode, ih hrun, List.append_assoc, List.singleton_append]

/-- No multiplicative operator stands in front.  Such a run would take in what was finished before
it. -/
def StartsClean (level : List Node) : Prop :=
  ∀ node ∈ level.head?, node.isOperator Operator.isMultiplicative = false

theorem IsRun.isMultiplicative {run : List Node} (h : IsRun run) {op : Operator}
    (hmem : .operator op ∈ run) : op.isMultiplicative = true := by
  have hop : op.isAdditive = false := h _ hmem
  rw [Operator.isMultiplicative_eq_not_isAdditive, hop]
  rfl

theorem liftRun_of_mem {run : List Node} {op : Operator} (hmem : .operator op ∈ run)
    (hop : op.isMultiplicative = true) : liftRun run = [.group run] := by
  rw [liftRun, if_pos (List.any_eq_true.2 ⟨_, hmem, hop⟩)]

/-- The group that is opened begins with the operand in front. -/
theorem close_foldl_next_operand {operand : Node} (hoperand : operand.isOperand = true)
    {op : Operator} {rest : List Node} (h : IsRun (operand :: .operator op :: rest))
    (finished : List Node) :
    ((operand :: .operator op :: rest).foldl Pass.next ⟨finished, none⟩).close =
      finished ++ liftRun (operand :: .operator op :: rest) := by
  have hmem : .operator op ∈ operand :: .operator op :: rest :=
    List.mem_cons_of_mem _ List.mem_cons_self
  have hop := h.isMultiplicative hmem
  rw [List.foldl_cons, Pass.next_operand hoperand, List.foldl_cons, Pass.next_multiplicative hop,
    foldl_next_open (isRun_cons.1 (isRun_cons.1 h).2).2, List.dropLast_concat, List.getLast?_concat,
    liftRun_of_mem hmem hop]
  rfl

/-- **In one run**, the pass opens a group at the first multiplicative operator, with the operand in front of it,
if there is one. -/
theorem close_foldl_next {finished : List Node} : ∀ {run : List Node}, IsRun run →
    OperandsApart run → (finished = [] ∨ StartsClean run) →
      (run.foldl Pass.next ⟨finished, none⟩).close = finished ++ liftRun run
  | [], _, _, _ => rfl
  | .operator op :: rest, h, _, hstart => by
    have hop := h.isMultiplicative List.mem_cons_self
    obtain rfl : finished = [] := hstart.resolve_right fun hclean => by
      have hfirst : op.isMultiplicative = false := hclean _ rfl
      rw [hop] at hfirst
      cases hfirst
    rw [List.foldl_cons, Pass.next_multiplicative hop, foldl_next_open (isRun_cons.1 h).2,
      liftRun_of_mem List.mem_cons_self hop]
    rfl
  | [.literal text], _, _, _ => List.append_nil _
  | [.group level], _, _, _ => List.append_nil _
  | .literal text :: .operator op :: rest, h, _, _
  | .group level :: .operator op :: rest, h, _, _ => close_foldl_next_operand rfl h finished
  | .literal _ :: .literal _ :: _, _, hapart, _ | .literal _ :: .group _ :: _, _, hapart, _
  | .group _ :: .literal _ :: _, _, hapart, _ | .group _ :: .group _ :: _, _, hapart, _ =>
    absurd ((List.isChain_cons_cons.1 hapart).1 rfl).symm Bool.false_ne_true

/-! ## 3. All runs

A level is its runs with additive operators between them, and the pass goes through one after the
other, each closed by the operator behind it.  The induction is on the list of runs. -/

/-- No multiplicative operator stands right behind an additive one. -/
def SignsClean (level : List Node) : Prop :=
  level.IsChain fun a b => a.isOperator Operator.isAdditive = true →
    b.isOperator Operator.isMultiplicative = false

/-- The pass through runs that are joined by additive operators lifts each of them.  What is
finished before is left alone, since no further run begins with a multiplicative operator. -/
theorem close_foldl_next_joinRuns {first : List Node} {more : List (Operator × List Node)}
    (hfirst : IsRun first) (hmore : ∀ p ∈ more, p.1.isAdditive = true ∧ IsRun p.2)
    (hapart : OperandsApart (joinRuns first more)) (hclean : SignsClean (joinRuns first more))
    {finished : List Node} (hstart : finished = [] ∨ StartsClean first) :
    ((joinRuns first more).foldl Pass.next ⟨finished, none⟩).close =
      finished ++ joinRuns (liftRun first) (more.map fun p => (p.1, liftRun p.2)) := by
  obtain ⟨hapartFirst, hapartMore⟩ := operandsApart_joinRuns.1 hapart
  induction more generalizing first finished with
  | nil => simpa [joinRuns] using close_foldl_next hfirst hapartFirst hstart
  | cons p more ih =>
    obtain ⟨⟨hop, hrun⟩, hmore⟩ := List.forall_mem_cons.1 hmore
    obtain ⟨hapartRun, hapartMore⟩ := List.forall_mem_cons.1 hapartMore
    rw [joinRuns_cons] at hclean
    obtain ⟨hbehind, hrest⟩ := List.isChain_cons.1 (List.isChain_append.1 hclean).2.1
    -- behind the additive operator the next run starts, with an operand if it is not empty
    have hstarts : StartsClean p.2 := by
      intro node hnode
      refine hbehind node ?_ hop
      rw [joinRuns, List.head?_append, hnode]
      rfl
    rw [joinRuns_cons, List.foldl_append, List.foldl_cons, Pass.next_additive hop,
      close_foldl_next hfirst hapartFirst hstart,
      ih hrun hmore (operandsApart_joinRuns.2 ⟨hapartRun, hapartMore⟩) hrest (.inr hstarts) hapartRun
        hapartMore, List.map_cons, joinRuns_cons]
    simp

/-- **The pass and the splitting agree** where operands are apart and signs are clean. -/
theorem liftInOnePass_eq_liftRuns {level : List Node} (hapart : OperandsApart level)
    (hclean : SignsClean level) : liftInOnePass level = liftRuns level := by
  unfold liftInOnePass
  split
  next hmixed =>
    obtain ⟨hfirst, hmore⟩ := isRun_splitRuns level
    have hpass := close_foldl_next_joinRuns hfirst hmore (by rwa [joinRuns_splitRuns])
      (by rwa [joinRuns_splitRuns]) (.inl rfl)
    rwa [joinRuns_splitRuns, List.nil_append, ← liftRuns_of_mixed hmixed] at hpass
  next hmixed => exact (liftRuns_of_not_mixed (by simpa using hmixed)).symm

/-! ## 4. Levels of a text

The two conditions are checked for the tokens of a tidy text.  That operands are apart is known;
that signs are clean follows from what may stand next to what, through the folding of signs. -/

/-- The gate lets no multiplicative operator stand right behind an additive one. -/
theorem not_multiplicative_of_mayFollow {op next : Operator} (hop : op.isAdditive = true)
    (h : mayFollow op.symbol next.symbol = true) : next.isMultiplicative = false := by
  cases next with
  | add => rfl
  | subtract => rfl
  | multiply | divide =>
    cases op with
    | add | subtract => exact absurd h (by decide)
    | multiply | divide => cases hop

/-- Folding the signs of a tidy text brings no multiplicative operator behind an additive one: there would have
been one behind an additive operator or a minus sign before. -/
theorem Tidy.not_illegal {cs : List Char} (h : Tidy cs) {tokens folded : List Token}
    (hscan : scan cs = .ok tokens) (hfolds : Folds false tokens folded) {op next : Operator}
    (hpart : [some op, some next] <:+: folded.map Token.operator?) (hop : op.isAdditive = true) :
    next.isMultiplicative = false := by
  obtain ⟨-, n, hn⟩ := hfolds.stranded hpart
  have htext : op.symbol :: (List.replicate (2 * n) '-' ++ [next.symbol]) <:+: cs := by
    have hops := @isInfix_of_operators _ _ hscan
      (op :: (List.replicate (2 * n) .subtract ++ [next])) (by simpa [minusPairs] using hn)
    simpa [Operator.symbol] using hops
  have hchain := List.IsChain.infix h.isChain htext
  cases n with
  | zero => exact not_multiplicative_of_mayFollow hop (List.isChain_cons_cons.1 hchain).1
  | succ n =>
    have hminus : List.replicate (2 * (n + 1)) '-' = List.replicate (2 * n + 1) '-' ++ ['-'] :=
      List.replicate_succ'
    have hlast : ['-', next.symbol] <:+:
        op.symbol :: (List.replicate (2 * (n + 1)) '-' ++ [next.symbol]) :=
      ⟨op.symbol :: List.replicate (2 * n + 1) '-', [], by simp [hminus]⟩
    have hpair := List.IsChain.infix hchain hlast
    have hfollow : mayFollow Operator.subtract.symbol next.symbol = true :=
      (List.isChain_cons_cons.1 hpair).1
    exact not_multiplicative_of_mayFollow rfl hfollow

theorem Node.operator?_of_isOperator {kind : Operator → Bool} {node : Node}
    (h : node.isOperator kind = true) : ∃ op, node.operator? = some op ∧ kind op = true := by
  cases node with
  | literal text => cases h
  | group level => cases h
  | operator op => exact ⟨op, rfl, h⟩

/-- **The pass lifts the runs of every level of a text** that passes the gate. -/
theorem Tidy.liftInOnePass_nodes {cs : List Char} (h : Tidy cs) {tokens : List Token}
    (htokens : levelTokens cs = .ok tokens) {build : List Char → Except SyntaxError (List Node)}
    {nodes : List Node} (hnodes : tokens.mapM (nodeOfToken build) = .ok nodes) :
    liftInOnePass nodes = liftRuns nodes := by
  obtain ⟨scanned, hscan, hfold⟩ := ok_of_bind htokens
  refine liftInOnePass_eq_liftRuns (h.operandsApart_nodes htokens hnodes) ?_
  refine List.isChain_iff_forall_rel_of_append_cons_cons.2 fun a b front behind hnodes' ha => ?_
  by_contra hb
  rw [Bool.not_eq_false] at hb
  obtain ⟨op, hop, hadditive⟩ := Node.operator?_of_isOperator ha
  obtain ⟨next, hnext, hmultiplicative⟩ := Node.operator?_of_isOperator hb
  have hpart : [some op, some next] <:+: tokens.map Token.operator? := by
    rw [← operator?_of_mapM hnodes, hnodes']
    exact ⟨front.map Node.operator?, behind.map Node.operator?, by simp [hop, hnext]⟩
  have hlegal := h.not_illegal hscan (folds_of_foldSigns hfold) hpart hadditive
  rw [hmultiplicative] at hlegal
  cases hlegal

end Expression
end DecimalCalc
