/-
# Operators where operands should stand

An operator that is left where an operand should stand is a fault of its level.  It is reported as
what it is, with one exception: an addition right behind a multiplication ends the run that the
multiplication belongs to, and the run is reported for its missing operand.  Nothing else can be
wrong with an orderly text, and no number error comes before the fault.

The exception is a matter of lifting.  In the text the operator is as misplaced as any other; in the
tree the run in front of it has become a group, which ends in an operator, and this is met first.
Whether it can come up is seen in the text: a multiplication with an addition behind it and at most
one pair of minus signs in between.  The theorem says that this is the only way for a misplaced
operator to be reported as anything else.

The proof goes through the stages once more.  An orderly text is read; folding succeeds or reports a
misplaced operator; what is built is a level whose first fault, told before the lifting, comes from
two neighbouring operators or from inside a group, and groups are orderly again.  Since there is
nothing to divide and all literals are numbers, the fault is what the evaluation ends in.

* `of_unliftedFault`: where the first fault of a well-spaced level comes from;
* `Orderly.buildsSoundly`: what an orderly text is built into;
* `InLanguage.not_misplaced`: no operator is misplaced in a text of the language;
* `misplaced_operator_reported`: how misplaced operators are reported.
-/
import DecimalCalc.Proofs.Expression.Folding
import DecimalCalc.Proofs.Expression.Undivided

namespace DecimalCalc
namespace Expression

variable {cap : Nat}

/-! ## 1. The faults of a well-spaced level

With operands apart and an operand at the end, a level can be at fault in two ways: inside one of
its groups, or where an operator stands behind another.  Whatever holds in both cases holds of the
first fault. -/

/-- The operator that a node is, if it is one.  The places without one are the operands of the
level. -/
def Node.operator? : Node → Option Operator
  | .operator op => some op
  | _ => none

/-- What holds of the faults of the nodes, and of neighbouring operators, holds of the first fault
behind an operand. -/
theorem of_unliftedStepsFault {Q : SyntaxError → Prop} : ∀ {nodes : List Node},
    WellSpaced (none :: nodes.map Node.operator?) →
    (∀ node ∈ nodes, ∀ cause ∈ node.fault, Q cause) →
    (∀ op next, [some op, some next] <:+: nodes.map Node.operator? → Q (strandedFault op next)) →
      ∀ cause ∈ unliftedStepsFault nodes, Q cause
  | [], _, _, _ => by
    rw [unliftedStepsFault]
    rintro _ ⟨⟩
  | [.operator op], hshape, _, _ => (not_wellSpaced_nil (wellSpaced_step.1 hshape)).elim
  | .operator op :: .operator next :: nodes, _, _, hstranded => by
    rw [unliftedStepsFault]
    rintro _ ⟨⟩
    exact hstranded op next ⟨[], nodes.map Node.operator?, rfl⟩
  | .operator op :: .literal text :: nodes, hshape, hfaults, hstranded => by
    rw [unliftedStepsFault, Node.fault, Option.none_or]
    · exact of_unliftedStepsFault (wellSpaced_step.1 hshape)
        (fun node hnode => hfaults node (by simp [hnode]))
        fun op next hpart => hstranded op next (List.infix_cons (List.infix_cons hpart))
    · rintro _ ⟨⟩
  | .operator op :: .group level :: nodes, hshape, hfaults, hstranded => by
    rw [unliftedStepsFault]
    · intro cause hcause
      rcases Option.or_eq_some_iff.1 hcause with hcause | ⟨-, hcause⟩
      · exact hfaults (.group level) (by simp) cause hcause
      · exact of_unliftedStepsFault (wellSpaced_step.1 hshape)
          (fun node hnode => hfaults node (by simp [hnode]))
          (fun op next hpart => hstranded op next (List.infix_cons (List.infix_cons hpart)))
          cause hcause
    · rintro _ ⟨⟩
  | .literal text :: nodes, hshape, _, _ => (not_wellSpaced_operands hshape).elim
  | .group level :: nodes, hshape, _, _ => (not_wellSpaced_operands hshape).elim

/-- **What holds of the faults of the nodes, and of neighbouring operators, holds of the first fault of
a well-spaced level.** -/
theorem of_unliftedFault {Q : SyntaxError → Prop} {nodes : List Node}
    (hshape : WellSpaced (nodes.map Node.operator?))
    (hfaults : ∀ node ∈ nodes, ∀ cause ∈ node.fault, Q cause)
    (hstranded : ∀ op next, [some op, some next] <:+: nodes.map Node.operator? →
      Q (strandedFault op next)) : ∀ cause ∈ unliftedFault nodes, Q cause := by
  cases nodes with
  | nil => exact (not_wellSpaced_nil hshape).elim
  | cons node nodes =>
    rw [unliftedFault]
    intro cause hcause
    rcases Option.or_eq_some_iff.1 hcause with hcause | ⟨hnone, hcause⟩
    · exact hfaults node List.mem_cons_self cause hcause
    · have hoperand : node.operator? = none := by
        cases node with
        | operator op => cases hnone
        | literal text => rfl
        | group level => rfl
      rw [List.map_cons, hoperand] at hshape
      exact of_unliftedStepsFault hshape (fun n hn => hfaults n (List.mem_cons_of_mem _ hn))
        (fun op next hpart => hstranded op next (List.infix_cons hpart)) cause hcause

/-! ## 2. What an orderly text is built into

What is known of the text is carried to the level that is built from it.  A pair of neighbouring
operators in the level comes from a row of operators in the text, which the gate's rules leave few
possibilities for. -/

/-- An addition stands behind a multiplication, with no more than a pair of minus signs between
them.  This can be looked for in the text. -/
def Strands (cs : List Char) : Prop := ['*', '+'] <:+: cs ∨ ['*', '-', '-', '+'] <:+: cs

instance (cs : List Char) : Decidable (Strands cs) :=
  inferInstanceAs (Decidable (['*', '+'] <:+: cs ∨ ['*', '-', '-', '+'] <:+: cs))

/-- How a misplaced operator of the text is reported: for its place, or for the operand that a stranded
multiplication misses. -/
def Misplacement (cs : List Char) (cause : SyntaxError) : Prop :=
  cause = .unexpectedOperator ∨ cause = .missingOperand ∧ Strands cs

/-- What stands in a group stands in the text around it. -/
theorem Misplacement.mono {cs source : List Char} (hinside : source <:+: cs) {cause : SyntaxError}
    (h : Misplacement source cause) : Misplacement cs cause := by
  rcases h with h | ⟨h, hstrands⟩
  · exact .inl h
  · exact .inr ⟨h, hstrands.imp (·.trans hinside) (·.trans hinside)⟩

/-- Tokens that are operators have the symbols of these as their text. -/
theorem flatMap_toChars_of_operators {ops : List Operator} {tokens : List Token}
    (h : tokens.map Token.operator? = ops.map some) :
    tokens.flatMap Token.toChars = ops.map Operator.symbol := by
  induction ops generalizing tokens with
  | nil =>
    rw [List.map_eq_nil_iff.1 h]
    rfl
  | cons op ops ih =>
    obtain ⟨token, rest, rfl, htoken, hrest⟩ := List.map_eq_cons_iff.1 h
    cases token with
    | operator o =>
      rw [List.flatMap_cons, ih hrest, Option.some.inj htoken]
      rfl
    | literal text => cases htoken
    | group source negated => cases htoken

/-- Operators that are read in a row stand in a row. -/
theorem isInfix_of_operators {cs : List Char} {tokens : List Token} (hscan : scan cs = .ok tokens)
    {ops : List Operator} (h : ops.map some <:+: tokens.map Token.operator?) :
    ops.map Operator.symbol <:+: cs := by
  obtain ⟨before, behind, h⟩ := h
  obtain ⟨front, back, rfl, hfront, -⟩ := List.map_eq_append_iff.1 h.symm
  obtain ⟨first, part, rfl, -, hpart⟩ := List.map_eq_append_iff.1 hfront
  rw [← flatMap_toChars_of_operators hpart]
  exact isInfix_of_scan hscan ⟨first, back, rfl⟩

/-- A division sign that is read stands in the text. -/
theorem Orderly.ne_divide {cs : List Char} (h : Orderly cs) {tokens : List Token}
    (hscan : scan cs = .ok tokens) {op : Operator} (hmem : some op ∈ tokens.map Token.operator?) :
    op ≠ .divide := by
  rintro rfl
  have hpart : [Operator.divide].map some <:+: tokens.map Token.operator? :=
    (List.singleton_infix_iff _ _).2 hmem
  have hsymbol := (List.singleton_infix_iff _ _).1 (isInfix_of_operators hscan hpart)
  exact h.no_division hsymbol

/-- How two neighbouring operators of an orderly text are reported: as a misplaced operator, unless
they are an addition behind a multiplication, and then the text strands that multiplication. -/
theorem Orderly.strandedFault {cs : List Char} (h : Orderly cs) {tokens folded : List Token}
    (hscan : scan cs = .ok tokens) (hfolds : Folds false tokens folded) {op next : Operator}
    (hpart : [some op, some next] <:+: folded.map Token.operator?) :
    Misplacement cs (strandedFault op next) := by
  obtain ⟨hne, n, hn⟩ := hfolds.stranded hpart
  have hdivide : op ≠ .divide := h.ne_divide hscan (hn.subset List.mem_cons_self)
  have htext : op.symbol :: (List.replicate (2 * n) '-' ++ [next.symbol]) <:+: cs := by
    have hops := @isInfix_of_operators _ _ hscan
      (op :: (List.replicate (2 * n) .subtract ++ [next])) (by simpa [minusPairs] using hn)
    simpa [Operator.symbol] using hops
  unfold Expression.strandedFault
  split
  next hkinds =>
    obtain ⟨hop, hnext⟩ := Bool.and_eq_true_iff.1 hkinds
    obtain rfl : op = .multiply := by
      cases op <;> simp_all [Operator.isMultiplicative]
    obtain rfl : next = .add := by
      cases next <;> simp_all [Operator.isAdditive]
    refine .inr ⟨rfl, ?_⟩
    rcases n with _ | _ | n
    · exact .inl htext
    · exact .inr htext
    · -- two pairs are more minus signs than an orderly text holds in a row
      refine absurd (List.IsInfix.trans ⟨['*'], ?_, ?_⟩ htext) h.no_triple_minus
      · exact '-' :: (List.replicate (2 * n) '-' ++ ['+'])
      · rfl
  next => exact .inl rfl

theorem operator?_groupNode (negated : Bool) (level : List Node) :
    (groupNode negated level).operator? = none := by
  cases negated <;> rfl

theorem operator?_of_mapM {build : List Char → Except SyntaxError (List Node)} {tokens : List Token}
    {nodes : List Node} (h : tokens.mapM (nodeOfToken build) = .ok nodes) :
    nodes.map Node.operator? = tokens.map Token.operator? := by
  induction tokens generalizing nodes with
  | nil =>
    obtain rfl := Except.ok.inj h
    rfl
  | cons token tokens ih =>
    obtain ⟨node, rest, hnode, hrest, rfl⟩ := ok_of_mapM_cons h
    rw [List.map_cons, List.map_cons, ih hrest]
    cases token with
    | literal text =>
      rw [← Except.ok.inj hnode]
      rfl
    | operator op =>
      rw [← Except.ok.inj hnode]
      rfl
    | group source negated =>
      obtain ⟨level, -, rfl⟩ := ok_of_map hnode
      rw [operator?_groupNode]
      rfl

/-- Where each part is built or fails in the same way, so is the whole. -/
theorem mapM_cases {f : Token → Except SyntaxError Node} {e : SyntaxError} {P : Node → Prop}
    {tokens : List Token}
    (h : ∀ token ∈ tokens, f token = .error e ∨ ∃ node, f token = .ok node ∧ P node) :
    tokens.mapM f = .error e ∨ ∃ nodes, tokens.mapM f = .ok nodes ∧ ∀ node ∈ nodes, P node := by
  induction tokens with
  | nil => exact .inr ⟨[], rfl, List.forall_mem_nil _⟩
  | cons token tokens ih =>
    obtain ⟨htoken, htokens⟩ := List.forall_mem_cons.1 h
    rw [List.mapM_cons]
    rcases htoken with herror | ⟨node, hnode, hP⟩
    · rw [herror]
      exact .inl rfl
    · rw [hnode]
      rcases ih htokens with herror | ⟨nodes, hnodes, hall⟩
      · rw [herror]
        exact .inl rfl
      · rw [hnodes]
        exact .inr ⟨node :: nodes, rfl, List.forall_mem_cons.2 ⟨hP, hall⟩⟩

/-- What is asked of a node in an orderly text: nothing in it can fail as a number, and a fault in
it is a misplaced operator. -/
def Sound (cs : List Char) (node : Node) : Prop :=
  node.Safe ∧ ∀ cause ∈ node.fault, Misplacement cs cause

/-- A literal of an orderly text is a number, with the sign that was folded into it. -/
theorem Orderly.exists_denotes {cs : List Char} (h : Orderly cs) {tokens folded : List Token}
    (hscan : scan cs = .ok tokens) (hfolds : Folds false tokens folded) {text : List Char}
    (hmem : .literal text ∈ folded) : ∃ q, Denotes text q := by
  have hread : ∀ text, .literal text ∈ tokens → ∃ q, Denotes text q := fun text hmem =>
    h.numbers text (mem_literalRuns_of_mem_scan hscan h.allowed hmem)
  obtain ⟨token, htoken, rfl | hnegate⟩ := hfolds.exists_of_mem hmem
  · exact hread text htoken
  · cases token with
    | operator op => cases hnegate
    | group source negated => cases hnegate
    | literal unsigned =>
      obtain rfl := Token.literal.inj (Except.ok.inj hnegate)
      obtain ⟨q, hq⟩ := hread unsigned htoken
      obtain ⟨literal, rfl⟩ := exists_literalText hscan h.allowed htoken
      exact ⟨-q, literal.denotes_signed hq .minus⟩

/-- The text is built into a level whose first fault is a misplaced operator, if it is built at all. -/
def BuildsSoundly (cs : List Char) : Prop :=
  buildLevel cs = .error .unexpectedOperator ∨ ∃ level, buildLevel cs = .ok level ∧
    (∀ cause ∈ levelFault level, Misplacement cs cause) ∧ ∀ node ∈ level, node.Safe

/-- What the tokens of an orderly text are built into, if its groups are built soundly. -/
theorem Orderly.nodeOfToken {cs : List Char} (h : Orderly cs) {tokens folded : List Token}
    (hscan : scan cs = .ok tokens) (hfold : foldSigns false tokens = .ok folded)
    (hgroups : ∀ source negated, .group source negated ∈ tokens → BuildsSoundly source)
    {token : Token} (hmem : token ∈ folded) :
    nodeOfToken buildLevel token = .error .unexpectedOperator ∨
      ∃ node, nodeOfToken buildLevel token = .ok node ∧ Sound cs node := by
  have hfolds := folds_of_foldSigns hfold
  cases token with
  | literal text =>
    refine .inr ⟨.literal text, rfl, ?_, ?_⟩
    · rw [Node.Safe]
      exact h.exists_denotes hscan hfolds hmem
    · rw [Node.fault]
      exact nofun
  | operator op =>
    refine .inr ⟨.operator op, rfl, ?_, ?_⟩
    · rw [Node.Safe]
      obtain ⟨read, hread, rfl | hnegate⟩ := hfolds.exists_of_mem hmem
      · exact h.ne_divide hscan (List.mem_map.2 ⟨_, hread, rfl⟩)
      · cases (isOperand_of_negate hnegate).2
    · rw [Node.fault]
      rintro _ ⟨⟩
      exact .inl rfl
  | group source negated =>
    obtain ⟨_, hmem⟩ := mem_of_mem_foldSigns hfold hmem
    have hinside := isInfix_of_group_mem_scan hscan hmem
    rw [Expression.nodeOfToken]
    rcases hgroups source _ hmem with herror | ⟨level, hlevel, hfault, hsafe⟩
    · rw [herror]
      exact .inl rfl
    · rw [hlevel]
      refine .inr ⟨_, rfl, safe_groupNode hsafe, ?_⟩
      rw [fault_groupNode]
      exact fun cause hcause => (hfault cause hcause).mono hinside

/-- **An orderly text is built soundly.**  The induction is on the length of the text, since its
groups are orderly and shorter. -/
theorem Orderly.buildsSoundly {cs : List Char} (h : Orderly cs) : BuildsSoundly cs := by
  induction hlen : cs.length using Nat.strong_induction_on generalizing cs with
  | _ n ih =>
  obtain ⟨tokens, hscan, -⟩ := exists_scan h.balanced
  have hshape := h.wellSpaced hscan
  have hbuild : buildLevel cs = foldSigns false tokens >>= fun folded =>
      folded.mapM (Expression.nodeOfToken buildLevel) >>= fun nodes => pure (liftRuns nodes) := by
    rw [buildLevel_eq, levelTokens, hscan]
    rfl
  cases hfold : foldSigns false tokens with
  | error e =>
    obtain rfl := unexpectedOperator_of_foldSigns hfold hshape
    rw [hfold] at hbuild
    exact .inl hbuild
  | ok folded =>
    have hfolds := folds_of_foldSigns hfold
    -- a group is orderly and shorter than the text it stands in
    have hgroups : ∀ source negated, .group source negated ∈ tokens → BuildsSoundly source :=
      fun source negated hmem => ih source.length (hlen ▸ length_lt_of_mem_scan hscan hmem)
        (h.group hscan hmem) rfl
    have hbuild : buildLevel cs = folded.mapM (Expression.nodeOfToken buildLevel) >>= fun nodes =>
        pure (liftRuns nodes) := by
      rw [hbuild, hfold]
      rfl
    rcases mapM_cases fun _ => h.nodeOfToken hscan hfold hgroups with
      herror | ⟨nodes, hnodes, hsound⟩
    · rw [herror] at hbuild
      exact .inl hbuild
    · rw [hnodes] at hbuild
      refine .inr ⟨liftRuns nodes, hbuild, ?_, safe_liftRuns fun node hnode => (hsound node hnode).1⟩
      have hplaces := operator?_of_mapM hnodes
      rw [levelFault_liftRuns]
      refine of_unliftedFault ?_ (fun node hnode => (hsound node hnode).2) ?_
      · rw [hplaces]
        exact hfolds.wellSpaced hshape
      · intro op next hpart
        rw [hplaces] at hpart
        exact h.strandedFault hscan hfolds hpart

/-! ## 3. Levels with a misplaced operator

Whether an operator is misplaced is said of the tokens of a level with the signs folded, and of the
levels of a text, wherever they are.  In a text of the language every level is derived, and there
operands and operators alternate. -/

/-- The text is that of a level: the whole text, or what stands in a group of a level. -/
inductive LevelOf (cs : List Char) : List Char → Prop
  | whole : LevelOf cs cs
  | inside {level source : List Char} {tokens : List Token} {negated : Bool} (h : LevelOf cs level)
      (hscan : scan level = .ok tokens) (hmem : .group source negated ∈ tokens) : LevelOf cs source

/-- With the signs folded, an operator stands where an operand should: at the start of the level, or
right behind another operator.  Where it stands behind a sign, the folding reports it. -/
def OperatorMisplaced (level : List Char) : Prop :=
  levelTokens level = .error .unexpectedOperator ∨ ∃ tokens, levelTokens level = .ok tokens ∧
    ((∃ op, [.operator op] <+: tokens) ∨ ∃ op next, [.operator op, .operator next] <:+: tokens)

/-- The group of an operand is the text of its level, which nests less deeply. -/
theorem Operand.exists_of_mem_tokens {operand : Operand} {source : List Char} {negated : Bool}
    (h : .group source negated ∈ operand.tokens) :
    ∃ level : Level, level.toChars = source ∧ level.depth < operand.depth := by
  have hatom : .group source negated = operand.atom := by
    rcases List.mem_append.1 h with hsign | hatom
    · cases hop : operand.sign <;> simp [hop, Sign.tokens] at hsign
    · exact List.mem_singleton.1 hatom
  cases operand with
  | literal sign text => cases hatom
  | group sign level =>
    rw [Operand.depth]
    exact ⟨level, (Token.group.inj hatom).1.symm, Nat.lt_succ_self _⟩

/-- A group of a derived text holds a derived text. -/
theorem Level.exists_of_mem_tokens : ∀ {level : Level} {source : List Char} {negated : Bool},
    .group source negated ∈ level.tokens →
      ∃ inner : Level, inner.toChars = source ∧ inner.depth < level.depth
  | .single operand, _, _, h => operand.exists_of_mem_tokens h
  | .join operand op rest, source, negated, h => by
    rw [Level.depth]
    rcases List.mem_append.1 h with h | h
    · obtain ⟨inner, hinner, hdepth⟩ := operand.exists_of_mem_tokens h
      exact ⟨inner, hinner, lt_max_of_lt_left hdepth⟩
    · rcases List.mem_cons.1 h with h | h
      · cases h
      · obtain ⟨inner, hinner, hdepth⟩ := rest.exists_of_mem_tokens h
        exact ⟨inner, hinner, lt_max_of_lt_right hdepth⟩

/-- Every level of a text of the language is derived. -/
theorem InLanguage.exists_level {cs source : List Char} (h : InLanguage cs)
    (hlevel : LevelOf cs source) :
    ∃ level : Level, level.toChars = source ∧ level.depth ≤ maxNestingDepth := by
  induction hlevel with
  | whole =>
    obtain ⟨level, hlevel⟩ := h
    exact ⟨level, hlevel.toChars_eq, hlevel.depth_le⟩
  | inside hlevel hscan hmem ih =>
    obtain ⟨outer, rfl, hdepth⟩ := ih
    rw [scan_level, if_neg (Nat.not_lt.2 hdepth)] at hscan
    obtain rfl := Except.ok.inj hscan
    obtain ⟨inner, hinner, hlt⟩ := outer.exists_of_mem_tokens hmem
    exact ⟨inner, hinner, Nat.le_of_lt (Nat.lt_of_lt_of_le hlt hdepth)⟩

theorem Operand.isOperand_folded (operand : Operand) : operand.folded.isOperand = true := by
  cases operand <;> rfl

/-- The tokens of a derivation alternate once their signs are folded. -/
theorem Level.alternates_folded (level : Level) : Alternates false level.folded := by
  cases level with
  | single operand => exact ⟨operand.isOperand_folded, operand.isOperand_folded⟩
  | join operand op rest =>
    refine ⟨operand.isOperand_folded, ?_⟩
    rw [operand.isOperand_folded]
    exact ⟨rfl, rest.alternates_folded⟩

/-- Where operands and operators alternate, no operator follows another one. -/
theorem Alternates.not_adjacent {after : Bool} {tokens : List Token} (h : Alternates after tokens)
    (op next : Operator) : ¬ [.operator op, .operator next] <:+: tokens := by
  induction tokens generalizing after with
  | nil => exact fun hpart => nomatch List.infix_nil.1 hpart
  | cons token tokens ih =>
    obtain ⟨-, htokens⟩ := h
    intro hpart
    rcases List.infix_cons_iff.1 hpart with hfirst | hpart
    · obtain ⟨rfl, hnext⟩ := List.cons_prefix_cons.1 hfirst
      obtain ⟨rest, rfl⟩ := hnext
      cases htokens.1
    · exact ih htokens hpart

/-- **No operator is misplaced in a text of the language.** -/
theorem InLanguage.not_misplaced {cs level : List Char} (h : InLanguage cs)
    (hlevel : LevelOf cs level) : ¬ OperatorMisplaced level := by
  obtain ⟨derived, rfl, hdepth⟩ := h.exists_level hlevel
  have halternates := derived.alternates_folded
  rintro (herror | ⟨tokens, htokens, hmisplaced⟩)
  · rw [levelTokens_level hdepth] at herror
    cases herror
  · rw [levelTokens_level hdepth] at htokens
    obtain rfl := Except.ok.inj htokens
    rcases hmisplaced with ⟨op, rest, hrest⟩ | ⟨op, next, hpart⟩
    · rw [← hrest] at halternates
      cases halternates.1
    · exact halternates.not_adjacent op next hpart

/-! ## 4. Texts that pass the gate

For an expression the conditions of an orderly text are partly those of the gate.  The others are
stated as hypotheses on its characters, and each can be checked by reading the text. -/

/-- If no neighbours of a kind are found, there are none. -/
theorem isChain_of_adjacent {p : Char → Char → Bool} : ∀ {cs : List Char},
    Text.adjacent p cs = false → cs.IsChain fun a b => p a b = false
  | [], _ => .nil
  | [_], _ => List.isChain_singleton _
  | a :: b :: cs, h => by
    rw [Text.adjacent, Bool.or_eq_false_iff] at h
    exact List.isChain_cons_cons.2 ⟨h.1, isChain_of_adjacent h.2⟩

/-- In a text that passes the gate, neighbours break no rule. -/
theorem isChain_of_gate {cs : List Char} (h : gate cs = .ok ()) :
    cs.IsChain fun a b => mayFollow a b = true := by
  rw [gate_eq_ok_iff] at h
  simp only [rules, List.forall_mem_cons, hasDuplicateOperator, Bool.or_eq_false_iff] at h
  obtain ⟨-, ⟨-, hduplicate⟩, hsequence, hclosed, hempty, hdigit, hopened, -⟩ := h
  refine List.isChain_iff_getElem.2 fun i hi => ?_
  have hpair : ∀ {p : Char → Char → Bool}, Text.adjacent p cs = false → p cs[i] cs[i + 1] = false :=
    fun hp => List.isChain_iff_getElem.1 (isChain_of_adjacent hp) i hi
  exact mayFollow_iff.2 ⟨hpair hduplicate, hpair hsequence, hpair hclosed, hpair hempty, hpair hdigit,
    hpair hopened⟩

theorem ofChar?_of_isEnding {c : Char} (h : isEnding c = true) : Operator.ofChar? c = none := by
  rw [isEnding, Bool.or_eq_true, beq_iff_eq] at h
  rcases h with hdigit | rfl
  · exact ofChar?_of_isLiteralPart (by simp [isLiteralPart, hdigit])
  · rfl

/-- A text that passes the gate is orderly if its parentheses match, its literals are numbers, nothing
is divided in it and no operator stands in front of a closing parenthesis. -/
theorem orderly_of_gate {cs : List Char} (h : gate cs = .ok ()) (hbalanced : nests 0 cs = true)
    (hnumbers : ∀ text ∈ literalRuns cs, ∃ q, Denotes text q) (hdivision : '/' ∉ cs)
    (hdangling : ∀ op : Operator, ¬ [op.symbol, ')'] <:+: cs) : Orderly cs := by
  obtain ⟨houtline, htriple⟩ := of_gate h
  refine ⟨?_, houtline.isAllowed, isChain_of_gate h, htriple, hbalanced, hnumbers, hdivision,
    hdangling, ?_⟩
  · obtain ⟨opening, first, rest, -, rfl, -⟩ := houtline
    simp
  · obtain ⟨opening, first, rest, -, rfl, hfirst, -, hlast⟩ := houtline
    intro c hc
    rw [List.getLast?_append_of_ne_nil _ (List.cons_ne_nil _ _)] at hc
    cases rest with
    | nil =>
      rw [← Option.some.inj hc]
      exact ofChar?_of_isEnding (by simp [isEnding, hfirst])
    | cons d rest =>
      rw [List.getLast?_cons_cons] at hc
      exact ofChar?_of_isEnding (hlast c hc)

theorem numbers_of_parse {cs : List Char}
    (h : ∀ text ∈ literalRuns cs, (Decimal.parse text).isOk = true) :
    ∀ text ∈ literalRuns cs, ∃ q, Denotes text q :=
  fun text htext => exists_denotes (h text htext)

/-- What the evaluation of an orderly text ends in: a misplaced operator, or a value if the text is
one of the language. -/
theorem Orderly.evaluate {expression : String} (h : Orderly (Text.trim expression.toList))
    (hgate : gate (Text.trim expression.toList) = .ok ()) :
    (∃ cause, evaluate cap expression = .error (.malformed cause) ∧
      Misplacement (Text.trim expression.toList) cause) ∨
    (∃ value, evaluate cap expression = .ok value) ∧ InLanguage (Text.trim expression.toList) := by
  rcases h.buildsSoundly with herror | ⟨level, hlevel, hfault, hsafe⟩
  · refine .inl ⟨.unexpectedOperator, ?_, .inl rfl⟩
    rw [Expression.evaluate, run, Tree.ofTrimmed, hgate, herror]
    rfl
  · have htree : Tree.ofTrimmed (Text.trim expression.toList) = .ok ⟨level⟩ := by
      rw [Tree.ofTrimmed, hgate, hlevel]
      rfl
    obtain ⟨hvalue, hreported⟩ := @evaluate_of_levelFault cap _ _ htree hsafe
    cases hcase : levelFault level with
    | none =>
      exact .inr ⟨hvalue hcase,
        inLanguage_of_ofTrimmed htree ((levelFault_eq_none_iff level).1 hcase)⟩
    | some cause => exact .inl ⟨cause, hreported cause hcase, hfault cause hcase⟩

/-- **How misplaced operators are reported.**  In a text that passes the gate, whose parentheses match,
whose literals are numbers and in which nothing is divided, an operand is reported missing only if an
operator stands in front of a closing parenthesis or an addition behind a multiplication.  If no level
ends with an operator and an operator is misplaced in one of them, the misplaced operator is reported,
or else the operand that such a multiplication misses. -/
theorem misplaced_operator_reported {expression : String} {cs : List Char}
    (hcs : cs = Text.trim expression.toList) (hgate : gate cs = .ok ())
    (hbalanced : nests 0 cs = true) (hnumbers : ∀ text ∈ literalRuns cs, ∃ q, Denotes text q)
    (hdivision : '/' ∉ cs) :
    (evaluate cap expression = .error (.malformed .missingOperand) →
      (∃ op : Operator, [op.symbol, ')'] <:+: cs) ∨ Strands cs) ∧
    ((¬ ∃ op : Operator, [op.symbol, ')'] <:+: cs) →
      (∃ level, LevelOf cs level ∧ OperatorMisplaced level) →
        evaluate cap expression = .error (.malformed .unexpectedOperator) ∨
          evaluate cap expression = .error (.malformed .missingOperand) ∧ Strands cs) := by
  subst hcs
  have hevaluate := fun hdangling => @Orderly.evaluate cap expression
    (orderly_of_gate hgate hbalanced hnumbers hdivision (not_exists.1 hdangling)) hgate
  constructor
  · intro hmissing
    by_cases hdangling : ∃ op : Operator, [op.symbol, ')'] <:+: Text.trim expression.toList
    · exact .inl hdangling
    · rcases hevaluate hdangling with ⟨cause, hcause, hplaced⟩ | ⟨⟨value, hvalue⟩, -⟩
      · rw [hmissing] at hcause
        obtain rfl := ExpressionError.malformed.inj (Except.error.inj hcause)
        rcases hplaced with hplaced | ⟨-, hstrands⟩
        · cases hplaced
        · exact .inr hstrands
      · rw [hmissing] at hvalue
        cases hvalue
  · rintro hdangling ⟨level, hlevel, hmisplaced⟩
    rcases hevaluate hdangling with ⟨cause, hcause, rfl | ⟨rfl, hstrands⟩⟩ | ⟨-, hlanguage⟩
    · exact .inl hcause
    · exact .inr ⟨hcause, hstrands⟩
    · exact absurd hmisplaced (hlanguage.not_misplaced hlevel)

theorem misplaced_operator_reported_in_group : gate "2*(3-+1)".toList = .ok () ∧
    (∃ level, LevelOf "2*(3-+1)".toList level ∧ OperatorMisplaced level) ∧
      evaluate 15 "2*(3-+1)" = .error (.malformed .unexpectedOperator) := by
  have hnumbers := @numbers_of_parse "2*(3-+1)".toList (by decide +kernel)
  have hdangling : ¬ ∃ op : Operator, [op.symbol, ')'] <:+: "2*(3-+1)".toList := by
    rintro ⟨op, hop⟩
    cases op <;> exact absurd hop (by decide +kernel)
  have hscan : scan "2*(3-+1)".toList =
      .ok [.literal ['2'], .operator .multiply, .group "3-+1".toList false] := by decide +kernel
  have hlevel : LevelOf "2*(3-+1)".toList "3-+1".toList :=
    .inside .whole hscan (.tail _ (.tail _ (.head _)))
  have hmisplaced : OperatorMisplaced "3-+1".toList :=
    .inr ⟨[.literal ['3'], .operator .subtract, .operator .add, .literal ['1']], by decide +kernel,
      .inr ⟨.subtract, .add, by decide +kernel⟩⟩
  have htrim : "2*(3-+1)".toList = Text.trim "2*(3-+1)".toList := by decide +kernel
  have hgate : gate "2*(3-+1)".toList = .ok () := by decide +kernel
  refine ⟨hgate, ⟨_, hlevel, hmisplaced⟩, ?_⟩
  rcases (misplaced_operator_reported htrim hgate (by decide +kernel) hnumbers
    (by decide +kernel)).2 hdangling ⟨_, hlevel, hmisplaced⟩ with h | ⟨-, hstrands⟩
  · exact h
  · exact absurd hstrands (by decide +kernel)

/-- An operand is reported missing where no level ends with an operator. -/
theorem not_forall_misplaced_operator_reported : ¬ ∀ (cap : Nat) (expression : String),
    gate (Text.trim expression.toList) = .ok () → nests 0 (Text.trim expression.toList) = true →
    (∀ text ∈ literalRuns (Text.trim expression.toList), ∃ q, Denotes text q) →
    '/' ∉ Text.trim expression.toList →
    (evaluate cap expression = .error (.malformed .missingOperand) →
      ∃ op : Operator, [op.symbol, ')'] <:+: Text.trim expression.toList) ∧
    ((¬ ∃ op : Operator, [op.symbol, ')'] <:+: Text.trim expression.toList) →
      (∃ level, LevelOf (Text.trim expression.toList) level ∧ OperatorMisplaced level) →
        evaluate cap expression = .error (.malformed .unexpectedOperator)) := by
  intro h
  have hnumbers := @numbers_of_parse (Text.trim "2*+3".toList) (by decide +kernel)
  obtain ⟨op, hop⟩ := (h 15 "2*+3" (by decide +kernel) (by decide +kernel) hnumbers
    (by decide +kernel)).1 (by decide +kernel)
  cases op <;> exact absurd hop (by decide +kernel)

end Expression
end DecimalCalc
