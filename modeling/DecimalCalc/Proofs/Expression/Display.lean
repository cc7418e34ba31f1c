/-
# Trees and their texts

The text of a tree has parentheses that the text it was read from had not, around runs and products
with minus one, and it has fewer signs.  Read again, it makes the same tree.  Each level was left in
a state in which the stages find nothing more to do: no minus sign stands where one is read as a
sign, no two operands are neighbours, and operators of one kind only are left.  So the tokens of a
level's text are its nodes, one by one, the signs of its literals apart; these are folded back into
the literals, and nothing is lifted.

The state is a structure, `Settled`, and holds of every level of a tree that was read, at any depth:
of levels of the text, of lifted runs and of products with minus one.  Levels need not be well
formed for it.  A text is written for each level by putting the texts of its nodes one behind the
other, and is read back from the left; that a group ends where it was closed follows from its text
being balanced.  The building of the tree is then followed from the innermost levels outwards.

Not every such text passes the gate, as it may begin with two parentheses, and not every one is
within the limit on nesting.  The theorem says that there is no other way for it to be refused, and
no way for it to be read as something else.

* `SignsFolded`, `signsFolded_liftRuns`: folding leaves no signs, and lifting brings none back;
* `Tidy.everywhere_settled`: every level of a tree is settled;
* `legible_levelToChars`: its text is balanced, so its groups are read where they were put;
* `Everywhere.foldSigns_of_scan`: the tokens that are read fold to the nodes;
* `buildLevel_levelToChars`: so the text of a level is built into the level;
* `display_denotes_the_same_tree`: and the text of a tree is read as the tree.
-/
import DecimalCalc.Proofs.Expression.Depth
import DecimalCalc.Proofs.Expression.Numbers

namespace DecimalCalc
namespace Expression

/-! ## 1. Signs

Behind an operator a minus would be read as a sign, so a level whose signs are folded has none
there.  This is a condition on the shape of the level, and on neighbours in it, so it can be cut and
joined at operators. -/

/-- Behind an operator stands no minus sign, which would be read as the sign of what follows. -/
def NoSign (a b : Option Operator) : Prop := a ≠ none → b ≠ some .subtract

/-- No minus sign stands where it is read as a sign: behind an operator, or at the start, which is like one. -/
def SignsFolded (shape : List (Option Operator)) : Prop := (some .add :: shape).IsChain NoSign

theorem signsFolded_behind (op : Operator) {shape : List (Option Operator)} :
    SignsFolded shape ↔ (some op :: shape).IsChain NoSign := by
  simp only [SignsFolded, NoSign, List.isChain_cons, ne_eq, reduceCtorEq, not_false_eq_true, forall_const]

/-- **Folding leaves no signs.** -/
theorem Folds.isChain {after : Bool} {tokens folded : List Token} (h : Folds after tokens folded)
    {before : Option Operator} (hbefore : before ≠ none → after = false) :
    (before :: folded.map Token.operator?).IsChain NoSign := by
  induction h generalizing before with
  | nil after => exact .singleton _
  | cancel h ih => exact ih fun _ => rfl
  | minus hnegate h ih | minusPlus hnegate h ih =>
    rw [List.map_cons, Token.operator?_eq_none (isOperand_of_negate hnegate).2]
    exact .cons_cons (fun _ => nofun) (ih fun hne => absurd rfl hne)
  | @keep after token tokens folded hkeep h ih =>
    refine .cons_cons (fun hne hop => ?_) (ih fun hne => ?_)
    · refine hkeep (hbefore hne) ?_
      cases token with
      | literal text => cases hop
      | group source negated => cases hop
      | operator op => rw [Option.some.inj hop]
    · cases token with
      | literal text => exact absurd rfl hne
      | group source negated => exact absurd rfl hne
      | operator op => rfl

theorem signsFolded_append {front shape : List (Option Operator)} {op : Operator} :
    SignsFolded (front ++ some op :: shape) ↔ SignsFolded (front ++ [some op]) ∧ SignsFolded shape := by
  rw [@signsFolded_behind op shape]
  simp only [SignsFolded, ← List.cons_append]
  exact List.isChain_split

/-- The first run with the operator behind it, and the rest, each for itself. -/
theorem signsFolded_joinRuns_cons {first : List Node} {p : Operator × List Node}
    {more : List (Operator × List Node)} : SignsFolded ((joinRuns first (p :: more)).map Node.operator?) ↔
      SignsFolded (first.map Node.operator? ++ [some p.1]) ∧
        SignsFolded ((joinRuns p.2 more).map Node.operator?) := by
  rw [joinRuns_cons, List.map_append, List.map_cons, Node.operator?, signsFolded_append]

theorem SignsFolded.of_append {front shape : List (Option Operator)} (h : SignsFolded (front ++ shape)) :
    SignsFolded front :=
  List.IsChain.infix h (List.prefix_append (some Operator.add :: front) shape).isInfix

/-- A group may stand anywhere, and anything may stand behind it. -/
theorem signsFolded_liftRun {run : List Node} {behind : List (Option Operator)}
    (h : SignsFolded (run.map Node.operator? ++ behind)) :
    SignsFolded ((liftRun run).map Node.operator? ++ behind) := by
  unfold liftRun
  split
  · have hbehind : behind.IsChain NoSign :=
      List.IsChain.infix h (List.suffix_append (some Operator.add :: run.map Node.operator?) behind).isInfix
    exact .cons_cons (fun _ => nofun) (List.isChain_cons.2 ⟨fun _ _ hne => absurd rfl hne, hbehind⟩)
  · exact h

/-- **Lifting brings no signs back**, and the runs have none either. -/
theorem signsFolded_lifted {first : List Node} {more : List (Operator × List Node)}
    (h : SignsFolded ((joinRuns first more).map Node.operator?)) :
    SignsFolded ((joinRuns (liftRun first) (more.map fun p => (p.1, liftRun p.2))).map Node.operator?) ∧
      ∀ run ∈ first :: more.map Prod.snd, SignsFolded (run.map Node.operator?) := by
  induction more generalizing first with
  | nil =>
    simp only [joinRuns, List.map_nil, List.flatMap_nil, List.append_nil, List.forall_mem_singleton] at h ⊢
    have hlifted := @signsFolded_liftRun first [] (by rwa [List.append_nil])
    rw [List.append_nil] at hlifted
    exact ⟨hlifted, h⟩
  | cons p more ih =>
    obtain ⟨hfirst, hmore⟩ := signsFolded_joinRuns_cons.1 h
    obtain ⟨hlifted, hruns⟩ := ih hmore
    rw [List.map_cons, List.map_cons, signsFolded_joinRuns_cons]
    exact ⟨⟨signsFolded_liftRun hfirst, hlifted⟩, List.forall_mem_cons.2 ⟨hfirst.of_append, hruns⟩⟩

/-- Lifting leaves no signs where there were none, in the level and in its runs. -/
theorem signsFolded_liftRuns {level : List Node} (h : SignsFolded (level.map Node.operator?)) :
    SignsFolded ((liftRuns level).map Node.operator?) ∧
      ∀ run ∈ levelRuns level, SignsFolded (run.map Node.operator?) := by
  rw [← joinRuns_splitRuns level] at h
  obtain ⟨hlifted, hruns⟩ := signsFolded_lifted h
  refine ⟨?_, hruns⟩
  by_cases hmixed : isMixed level = true
  · rwa [liftRuns_of_mixed hmixed]
  · rwa [liftRuns_of_not_mixed (by simpa using hmixed), ← joinRuns_splitRuns level]

/-! ## 2. Operators of one kind

What stays in a mixed level when its runs are lifted are additive operators, and in a run there are
only multiplicative ones.  So neither is mixed, and a second lifting does nothing. -/

theorem not_multiplicative_of_mem_liftRun {run : List Node} {node : Node} (h : node ∈ liftRun run) :
    node.isOperator Operator.isMultiplicative = false := by
  unfold liftRun at h
  split at h
  · rw [List.mem_singleton.1 h]
    rfl
  next hany => exact Bool.not_eq_true _ ▸ fun hop => hany (List.any_eq_true.2 ⟨node, h, hop⟩)

/-- **A level is not mixed** when its runs were lifted, and no run is. -/
theorem not_mixed_liftRuns (level : List Node) :
    isMixed (liftRuns level) = false ∧ ∀ run ∈ levelRuns level, isMixed run = false := by
  obtain ⟨hfirst, hmore⟩ := isRun_splitRuns level
  constructor
  · by_cases hmixed : isMixed level = true
    · rw [isMixed, liftRuns_of_mixed hmixed, joinRuns]
      refine Bool.and_eq_false_iff.2 (.inr (List.any_eq_false.2 fun node hnode => ?_))
      rw [Bool.not_eq_true]
      rcases List.mem_append.1 hnode with hnode | hnode
      · exact not_multiplicative_of_mem_liftRun hnode
      · obtain ⟨p, hp, hnode⟩ := List.mem_flatMap.1 hnode
        obtain ⟨q, hq, rfl⟩ := List.mem_map.1 hp
        rcases List.mem_cons.1 hnode with rfl | hnode
        · rw [Node.isOperator, Operator.isMultiplicative_eq_not_isAdditive, (hmore q hq).1]
          rfl
        · exact not_multiplicative_of_mem_liftRun hnode
    · rw [Bool.not_eq_true] at hmixed
      rwa [liftRuns_of_not_mixed hmixed]
  · have hrun : ∀ run, IsRun run → isMixed run = false := fun run hrun => by
      rw [isMixed, Bool.and_eq_false_iff, List.any_eq_false]
      exact .inl fun node hnode => by simp [hrun node hnode]
    refine List.forall_mem_cons.2 ⟨hrun _ hfirst, List.forall_mem_map.2 fun p hp => ?_⟩
    exact hrun p.2 (hmore p hp).2

/-! ## 3. Settled levels

The conditions are put together for the levels of a tree.  Each was shown for nodes of a tidy text
and for what lifting makes of them; the product with minus one is looked at by itself. -/

/-- The sign of a literal in a tree. -/
def signOf (negative : Bool) : Sign := if negative then .minus else .absent

/-- A literal as it stands in a tree: digits and points, with a minus sign in front at most.  Two
signs have been folded into one or none. -/
def IsSignedLiteral (text : List Char) : Prop :=
  ∃ (negative : Bool) (literal : LiteralText), literal.signed (signOf negative) = text

/-- What reading, folding and lifting leave of a level: nothing that they would find to do again. -/
structure Settled (level : List Node) : Prop where
  literals : ∀ text, .literal text ∈ level → IsSignedLiteral text
  apart : OperandsApart level
  signs : SignsFolded (level.map Node.operator?)
  not_mixed : isMixed level = false

/-- A product with minus one: two operands, one operator, and a sign that is part of its literal. -/
theorem settled_minusTimes (level : List Node) : Settled (minusTimes level) where
  literals text hmem := by
    simp only [minusTimes, List.mem_cons, Node.literal.injEq, reduceCtorEq, List.not_mem_nil,
      or_false] at hmem
    exact ⟨true, ⟨['1'], List.cons_ne_nil _ _, List.all_eq_true.1 rfl⟩, hmem.symm⟩
  apart := .cons_cons (fun _ => rfl) (.cons_cons nofun (.singleton _))
  signs := .cons_cons (fun _ => nofun) (.cons_cons (fun _ => nofun) (.cons_cons (fun _ => nofun) (.singleton _)))
  not_mixed := rfl

namespace Tidy

variable {cs : List Char} (h : Tidy cs) {tokens : List Token} (htokens : levelTokens cs = .ok tokens)
include h htokens

theorem isSignedLiteral {text : List Char} (hmem : .literal text ∈ tokens) : IsSignedLiteral text := by
  obtain ⟨scanned, hscan, hfold⟩ := ok_of_bind htokens
  obtain ⟨read, hread, rfl | hnegate⟩ := (folds_of_foldSigns hfold).exists_of_mem hmem
  · obtain ⟨literal, rfl⟩ := exists_literalText hscan h.allowed hread
    exact ⟨false, literal, rfl⟩
  · cases read with
    | operator op => cases hnegate
    | group source negated => cases hnegate
    | literal text =>
      obtain ⟨literal, rfl⟩ := exists_literalText hscan h.allowed hread
      exact ⟨true, literal, Token.literal.inj (Except.ok.inj hnegate)⟩

variable {build : List Char → Except SyntaxError (List Node)} {nodes : List Node}
  (hnodes : tokens.mapM (nodeOfToken build) = .ok nodes)
include hnodes

theorem isSignedLiteral_nodes {text : List Char} (hmem : .literal text ∈ nodes) : IsSignedLiteral text := by
  obtain ⟨token, htoken, hnode⟩ := exists_of_mem_mapM hnodes hmem
  cases token with
  | operator op => cases hnode
  | group source negated =>
    obtain ⟨level, -, hgroup⟩ := ok_of_map hnode
    cases negated <;> cases hgroup
  | literal text' =>
    rw [← Node.literal.inj (Except.ok.inj hnode)]
    exact h.isSignedLiteral htokens htoken

omit h in
/-- The nodes of a text are tokens whose signs were folded. -/
theorem signsFolded_nodes : SignsFolded (nodes.map Node.operator?) := by
  obtain ⟨scanned, -, hfold⟩ := ok_of_bind htokens
  rw [operator?_of_mapM hnodes]
  exact (folds_of_foldSigns hfold).isChain fun _ => rfl

/-- **What is built from a tidy text is settled**, and so are the runs that are lifted. -/
theorem settled_liftRuns : Settled (liftRuns nodes) ∧ ∀ run ∈ levelRuns nodes, Settled run := by
  have hliterals : ∀ text, .literal text ∈ nodes → IsSignedLiteral text :=
    fun text => h.isSignedLiteral_nodes htokens hnodes
  have hapart := h.operandsApart_nodes htokens hnodes
  obtain ⟨hsigns, hsignsRuns⟩ := signsFolded_liftRuns (signsFolded_nodes htokens hnodes)
  obtain ⟨hmixed, hmixedRuns⟩ := not_mixed_liftRuns nodes
  refine ⟨⟨fun text hmem => ?_, operandsApart_liftRuns hapart, hsigns, hmixed⟩, fun run hrun =>
    ⟨fun text hmem => hliterals text (mem_of_mem_levelRuns hrun hmem),
      operandsApart_of_mem_levelRuns hapart hrun, hsignsRuns run hrun, hmixedRuns run hrun⟩⟩
  rcases mem_liftRuns hmem with hmem | ⟨run, -, hgroup⟩
  · exact hliterals text hmem
  · cases hgroup

end Tidy

/-- **Every level of a tree is settled.** -/
theorem Tidy.everywhere_settled {cs : List Char} (h : Tidy cs) {level : List Node}
    (hbuild : buildLevel cs = .ok level) : Everywhere Settled level :=
  everywhere_of_buildLevel (fun hcs htokens => hcs.group htokens) settled_minusTimes
    (fun hcs htokens => hcs.settled_liftRuns htokens) h hbuild

/-! ## 4. Texts of levels

A text is legible if its parentheses match and its characters are allowed.  The texts of nodes are,
and so are texts put together from legible ones, which the text of a level is. -/

/-- The text is balanced, and all its characters may stand in an expression. -/
structure Legible (cs : List Char) : Prop where
  balanced : Balanced cs
  allowed : ∀ c ∈ cs, isAllowed c = true

namespace Legible

theorem nil : Legible [] :=
  ⟨.of_no_parenthesis (List.forall_mem_nil _), List.forall_mem_nil _⟩

theorem append {cs ds : List Char} (hcs : Legible cs) (hds : Legible ds) : Legible (cs ++ ds) :=
  ⟨hcs.balanced.append hds.balanced, List.forall_mem_append.2 ⟨hcs.allowed, hds.allowed⟩⟩

theorem group {cs : List Char} (h : Legible cs) : Legible ('(' :: (cs ++ [')'])) := by
  refine ⟨h.balanced.group, List.forall_mem_cons.2 ⟨rfl, List.forall_mem_append.2 ⟨h.allowed, ?_⟩⟩⟩
  exact List.forall_mem_singleton.2 rfl

theorem symbol (op : Operator) : Legible [op.symbol] :=
  ⟨.of_no_parenthesis (List.forall_mem_singleton.2 (by cases op <;> decide)),
    List.forall_mem_singleton.2 (by cases op <;> decide)⟩

end Legible

theorem IsSignedLiteral.legible {text : List Char} (h : IsSignedLiteral text) : Legible text := by
  obtain ⟨negative, literal, rfl⟩ := h
  have hliteral : Legible literal.chars :=
    ⟨.of_no_parenthesis literal.no_parenthesis, fun c hc => isAllowed_of_isLiteralPart (literal.valid c hc)⟩
  cases negative with
  | false => exact hliteral
  | true => exact (Legible.symbol .subtract).append hliteral

mutual

/-- The text of a node, if the levels in it are settled. -/
theorem Node.legible : ∀ node : Node, (∀ text, node = .literal text → IsSignedLiteral text) →
    (∀ inner, node = .group inner → Everywhere Settled inner) → Legible node.toChars
  | .literal text, hliteral, _ => by
    rw [Node.toChars]
    exact (hliteral text rfl).legible
  | .operator op, _, _ => by
    rw [Node.toChars]
    exact .symbol op
  | .group level, _, hgroup => by
    obtain ⟨hsettled, hinner⟩ := everywhere_iff.1 (hgroup level rfl)
    rw [Node.toChars]
    exact (legible_levelToChars level hsettled.literals hinner).group

/-- **The text of a settled level is legible**, if the levels inside are settled, too. -/
theorem legible_levelToChars : ∀ level : List Node,
    (∀ text, .literal text ∈ level → IsSignedLiteral text) →
    (∀ inner, .group inner ∈ level → Everywhere Settled inner) → Legible (Node.levelToChars level)
  | [], _, _ => by
    rw [Node.levelToChars]
    exact .nil
  | node :: level, hliterals, hinner => by
    rw [Node.levelToChars]
    exact (node.legible (fun text h => hliterals text (h ▸ List.mem_cons_self))
      fun inner h => hinner inner (h ▸ List.mem_cons_self)).append
        (legible_levelToChars level (fun text h => hliterals text (List.mem_cons_of_mem _ h))
          fun inner h => hinner inner (List.mem_cons_of_mem _ h))

end

theorem Everywhere.legible {level : List Node} (h : Everywhere Settled level) :
    Legible (Node.levelToChars level) :=
  legible_levelToChars level h.here.literals (everywhere_iff.1 h).2

/-! ## 5. Reading the text of a level

A level's text is read token by token: a literal up to the next operator or parenthesis, a group up
to the parenthesis that closes it.  The sign of a literal is read as an operator and folded back, as
it stands behind an operator or at the start. -/

/-- The token that a node is read as, once the signs are folded.  No group is negated, since the
tree has a product in its place. -/
def Node.token : Node → Token
  | .literal text => .literal text
  | .operator op => .operator op
  | .group level => .group (Node.levelToChars level) false

/-- **A group is read where it was put**: it is closed behind the balanced text in it, and nowhere else. -/
theorem ok_of_scan_group {source rest : List Char} (hsource : Balanced source) {tokens : List Token}
    (h : scan ('(' :: (source ++ ')' :: rest)) = .ok tokens) :
    ∃ tail, scan rest = .ok tail ∧ tokens = .group source false :: tail := by
  cases hclose : closeGroup 0 (source ++ ')' :: rest) with
  | error e =>
    rw [scan_open_error hclose] at h
    cases h
  | ok closed =>
    obtain ⟨source', rest'⟩ := closed
    have hbalanced := closes_zero.1 (matchingFault_of_closeGroup.2 source' rest' hclose).1
    obtain ⟨rfl, rfl⟩ := balanced_closing_unique hsource hbalanced (closeGroup_eq hclose)
    rw [scan_group hclose] at h
    obtain ⟨tail, htail, rfl⟩ := ok_of_map h
    exact ⟨tail, htail, rfl⟩

theorem not_continuesLiteral_levelToChars {level : List Node}
    (h : Spaced (none :: level.map Node.operator?)) :
    ∀ c ∈ (Node.levelToChars level).head?, continuesLiteral c = false := by
  intro c hc
  cases level with
  | nil =>
    rw [Node.levelToChars] at hc
    cases hc
  | cons node level =>
    cases node with
    | literal text => exact absurd rfl ((List.isChain_cons_cons.1 h).1 rfl)
    | group inner => exact absurd rfl ((List.isChain_cons_cons.1 h).1 rfl)
    | operator op =>
      rw [Node.levelToChars, Node.toChars] at hc
      rw [← Option.some.inj hc]
      exact not_continuesLiteral_symbol op

/-- **The tokens that are read fold to the nodes**, behind an operand or an operator.  The
induction is on the level, with the node in front of what is left of it. -/
theorem foldSigns_of_scan_behind : ∀ {level : List Node} {before : Option Operator} {tokens : List Token},
    (∀ text, .literal text ∈ level → IsSignedLiteral text) →
    (∀ inner, .group inner ∈ level → Balanced (Node.levelToChars inner)) →
    Spaced (before :: level.map Node.operator?) →
    (before :: level.map Node.operator?).IsChain NoSign →
    scan (Node.levelToChars level) = .ok tokens →
      foldSigns before.isNone tokens = .ok (level.map Node.token)
  | [], before, tokens, _, _, _, _, hscan => by
    rw [Node.levelToChars, scan_nil] at hscan
    rw [← Except.ok.inj hscan, foldSigns]
    rfl
  | node :: level, before, tokens, hliterals, hgroups, hspaced, hsigns, hscan => by
    obtain ⟨hapart, hbehind⟩ := List.isChain_cons_cons.1 hspaced
    obtain ⟨hsign, hsigns⟩ := List.isChain_cons_cons.1 hsigns
    have hrest : ∀ {tail}, scan (Node.levelToChars level) = .ok tail →
        foldSigns node.operator?.isNone tail = .ok (level.map Node.token) := fun htail =>
      foldSigns_of_scan_behind (fun text h => hliterals text (List.mem_cons_of_mem _ h))
        (fun inner h => hgroups inner (List.mem_cons_of_mem _ h)) hbehind hsigns htail
    rw [Node.levelToChars, Node.toChars.eq_def] at hscan
    cases node with
    | literal text =>
      obtain ⟨op, rfl⟩ := Option.ne_none_iff_exists'.1 fun hnone => hapart hnone rfl
      obtain ⟨negative, literal, rfl⟩ := hliterals text List.mem_cons_self
      have htext : literal.signed (signOf negative) =
          (Operand.literal (signOf negative) literal).toChars := by
        cases negative <;> rfl
      rw [htext, scan_operand _ (not_continuesLiteral_levelToChars hbehind), Operand.depth,
        if_neg (Nat.not_lt_zero _)] at hscan
      obtain ⟨tail, htail, rfl⟩ := ok_of_map hscan
      rw [Option.isNone_some, foldSigns_operand]
      exact congrArg (Except.map _) (hrest htail)
    | operator op =>
      rw [List.singleton_append, scan_operator] at hscan
      obtain ⟨tail, htail, rfl⟩ := ok_of_map hscan
      rw [foldSigns_keep fun hbefore hop => ?_]
      · exact congrArg (Except.map _) (hrest htail)
      · refine hsign ?_ (congrArg some (Token.operator.inj hop))
        rintro rfl
        cases hbefore
    | group inner =>
      rw [List.cons_append, List.append_assoc, List.singleton_append] at hscan
      obtain ⟨tail, htail, rfl⟩ := ok_of_scan_group (hgroups inner List.mem_cons_self) hscan
      rw [foldSigns_keep fun _ hminus => by cases hminus]
      exact congrArg (Except.map _) (hrest htail)

theorem Everywhere.foldSigns_of_scan {level : List Node} (h : Everywhere Settled level)
    {tokens : List Token} (hscan : scan (Node.levelToChars level) = .ok tokens) :
    foldSigns false tokens = .ok (level.map Node.token) := by
  obtain ⟨hsettled, hinner⟩ := everywhere_iff.1 h
  have hspaced : Spaced (some Operator.add :: level.map Node.operator?) :=
    spaced_operator.2 (operandsApart_iff.1 hsettled.apart)
  exact foldSigns_of_scan_behind hsettled.literals (fun inner hmem => (hinner inner hmem).legible.balanced)
    hspaced hsettled.signs hscan

/-! ## 6. Building what was read

Tokens of groups are built from the texts of the levels in them, which are shorter and therefore
built already.  What is built is the level itself, as there is nothing to lift. -/

theorem mapM_nodeOfToken_token {build : List Char → Except SyntaxError (List Node)} {level : List Node}
    (h : ∀ inner, .group inner ∈ level → build (Node.levelToChars inner) = .ok inner) :
    (level.map Node.token).mapM (nodeOfToken build) = .ok level := by
  induction level with
  | nil => rfl
  | cons node level ih =>
    have hnode : nodeOfToken build node.token = .ok node := by
      cases node with
      | literal text => rfl
      | operator op => rfl
      | group inner =>
        rw [Node.token, nodeOfToken, h inner List.mem_cons_self]
        rfl
    rw [List.map_cons, List.mapM_cons, hnode, ih fun inner hmem => h inner (List.mem_cons_of_mem _ hmem)]
    rfl

/-- **The text of a level is built into the level**, if it does not nest too deeply. -/
theorem buildLevel_levelToChars {level : List Node} (h : Everywhere Settled level)
    (hdepth : textDepth (Node.levelToChars level) ≤ maxNestingDepth) :
    buildLevel (Node.levelToChars level) = .ok level := by
  induction hlength : (Node.levelToChars level).length using Nat.strong_induction_on generalizing level with
  | _ n ih =>
  obtain ⟨tokens, hscan⟩ := exists_scan_iff.2 ⟨h.legible.balanced, hdepth⟩
  have hfold := h.foldSigns_of_scan hscan
  have hgroups : ∀ inner, .group inner ∈ level → buildLevel (Node.levelToChars inner) = .ok inner := by
    intro inner hmem
    obtain ⟨negated, hread⟩ := mem_of_mem_foldSigns hfold (List.mem_map.2 ⟨_, hmem, rfl⟩)
    exact ih _ (hlength ▸ length_lt_of_mem_scan hscan hread) ((everywhere_iff.1 h).2 inner hmem)
      ((textDepth_lt_of_mem_scan hscan hread).le.trans hdepth) rfl
  have htokens : levelTokens (Node.levelToChars level) = .ok (level.map Node.token) := by
    rw [levelTokens, hscan]
    exact hfold
  have hnodes := mapM_nodeOfToken_token hgroups
  rw [buildLevel_eq, htokens]
  show ((level.map Node.token).mapM (nodeOfToken buildLevel) >>= fun nodes => pure (liftRuns nodes)) = _
  rw [hnodes]
  exact congrArg Except.ok (liftRuns_of_not_mixed h.here.not_mixed)

/-! ## 7. Trees

For the text of a whole tree the gate comes first.  Behind it there is only the limit on nesting,
which the text may exceed, having more parentheses than the one that was read. -/

/-- **The text of a tree is read as the tree.**  Whatever parentheses the text of a tree has around runs and
products with minus one, and whatever signs were folded away: if it is read at all, it is read as the same tree.
And it is read if it passes the gate and does not nest too deeply. -/
theorem display_denotes_the_same_tree (expression : String) {tree : Tree}
    (h : Tree.ofChars expression.toList = .ok tree) :
    (∀ tree', Tree.ofChars tree.toChars = .ok tree' → tree' = tree) ∧
    (gate tree.toChars = .ok () → Tree.ofChars tree.toChars =
      if textDepth tree.toChars ≤ maxNestingDepth then .ok tree else .error .nestingTooDeep) := by
  obtain ⟨hgate, hbuild⟩ := exists_of_ofTrimmed h
  have hsettled := (tidy_of_gate hgate).everywhere_settled hbuild
  have htrim : Text.trim tree.toChars = tree.toChars :=
    Text.trim_of_forall fun c hc => isBlank_of_isAllowed (hsettled.legible.allowed c hc)
  have hread : gate tree.toChars = .ok () → Tree.ofChars tree.toChars =
      if textDepth tree.toChars ≤ maxNestingDepth then .ok tree else .error .nestingTooDeep := by
    intro hgate'
    rw [Tree.ofChars, htrim]
    split
    next hdepth =>
      rw [Tree.ofTrimmed, hgate', Tree.toChars, buildLevel_levelToChars hsettled hdepth]
      rfl
    next hdeep =>
      have hscan := hsettled.legible.balanced.scan_eq_nestingTooDeep_iff.2 (Nat.not_le.1 hdeep)
      exact (ofTrimmed_eq_error_iff (by simp [matchingCauses])).2 ⟨hgate', hscan⟩
  refine ⟨fun tree' h' => ?_, hread⟩
  have hgate' : gate tree.toChars = .ok () := by
    rw [Tree.ofChars, htrim] at h'
    exact (exists_of_ofTrimmed h').1
  rw [hread hgate'] at h'
  split at h'
  · exact (Except.ok.inj h').symm
  · cases h'

/-- Folded signs, lifted runs, one of them without its last operand, and a negated group. -/
theorem display_denotes_the_same_tree_ill_formed :
    ∃ tree, Tree.ofChars "(2*)+--3--4*-(5-+6)/7".toList = .ok tree ∧
      tree.toChars = "(2*)+3-(-4*(-1*(5-+6))/7)".toList ∧ Tree.ofChars tree.toChars = .ok tree := by
  have hcomputed : (Tree.ofChars "(2*)+--3--4*-(5-+6)/7".toList).toOption.map Tree.toChars =
      some "(2*)+3-(-4*(-1*(5-+6))/7)".toList := by
    decide +kernel
  obtain ⟨tree, htree, htext⟩ := Option.map_eq_some_iff.1 hcomputed
  have hread := toOption_eq_some_iff.1 htree
  have hsame := (display_denotes_the_same_tree _ hread).2
  rw [htext, if_pos (by decide +kernel)] at hsame
  exact ⟨tree, hread, htext, htext ▸ hsame (by decide +kernel)⟩

end Expression
end DecimalCalc
