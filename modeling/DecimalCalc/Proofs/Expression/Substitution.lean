/-
# Groups and their values

A group may be replaced by the text of its value: what stands around it comes to the same result.
The texts differ, and so do the tokens and the tree, since a literal stands where a level stood; but
operands with the same result may be exchanged anywhere.  Only a sign can get in the way: two minus
signs cancel, so a negative value must not stand behind a sign.

Two things have to be shown, one about evaluation and one about texts.  The first is a congruence: a
level's result depends on the results of its operands only, the runs being lifted alike since the
operators are the same, and so an operand may be exchanged at any depth.  The second is that the
text with the value in it is an expression again.  Its outline, its parentheses and its neighbours
are looked at where the value meets what stands around it, and the sign of the value is the one
thing that matters there.  The two texts need not have unique derivations, but all derivations of
one text are built into the same nodes.

* `result_liftRuns_congr`: operands with the same result make levels with the same result;
* `LevelContext.alike_fill`: so they may be exchanged in any context;
* `alike_literal`: a signed group and its signed value have the same result;
* `Level.Expresses.replace`: the value stands in the text as well as the group;
* `group_replaced_by_value`: expressions with the group and with its value have the same result.
-/
import DecimalCalc.Proofs.Expression.Context
import DecimalCalc.Proofs.Expression.Numbers

namespace DecimalCalc
namespace Expression

variable {cap : Nat}

/-! ## 1. Operands with the same result

Levels are compared as chains over one type of operands with two ways to make a node of each.  What
the operators are is then common to both, so steps, their order and the runs are too. -/

section

variable {α : Type} {node node' : α → Node}
  (heq : ∀ a, (evalNode cap (node a)).result = (evalNode cap (node' a)).result)
include heq

/-- The steps of both levels have the same operators and the same numbers. -/
theorem result_evalSteps_congr : ∀ rest : List (Operator × α),
    (evalSteps cap (stepNodes node rest)).result = (evalSteps cap (stepNodes node' rest)).result
  | [] => rfl
  | p :: rest => by
    rw [stepNodes_cons, stepNodes_cons, evalSteps, evalSteps]
    simp only [Traced.result_bind, heq, result_evalSteps_congr rest]

theorem result_evalLevel_congr (chain : Chain α) :
    (evalLevel cap (chain.nodes node)).result = (evalLevel cap (chain.nodes node')).result := by
  rw [Chain.nodes, Chain.nodes, evalLevel_cons, evalLevel_cons]
  simp only [Traced.result_bind, heq, result_evalSteps_congr heq]

/-- A run of operands with the same results has the same result, lifted into a group or not. -/
theorem result_lifted_congr (run : Chain α) : (evalNode cap (run.lifted node)).result =
    (evalNode cap (run.lifted node')).result := by
  unfold Chain.lifted
  split
  · exact heq run.first
  · rw [evalNode, evalNode]
    exact result_evalLevel_congr heq run

/-- **Operands with the same result make levels with the same result**, the runs being lifted or not. -/
theorem result_liftRuns_congr (hnode : ∀ a, (node a).isOperand = true)
    (hnode' : ∀ a, (node' a).isOperand = true) (chain : Chain α) :
    (evalLevel cap (liftRuns (chain.nodes node))).result =
      (evalLevel cap (liftRuns (chain.nodes node'))).result := by
  have hsame : isMixed (chain.nodes node) = isMixed (chain.nodes node') := by
    rw [isMixed, isMixed, any_nodes hnode, any_nodes hnode, any_nodes hnode', any_nodes hnode']
  by_cases hmixed : isMixed (chain.nodes node) = true
  · rw [liftRuns_nodes hnode hmixed, liftRuns_nodes hnode' (hsame ▸ hmixed)]
    exact result_evalLevel_congr (result_lifted_congr heq) chain.runs
  · rw [Bool.not_eq_true] at hmixed
    rw [liftRuns_of_not_mixed hmixed, liftRuns_of_not_mixed (hsame ▸ hmixed)]
    exact result_evalLevel_congr heq chain

end

/-! ## 2. Exchanging operands in a context

Operands are alike if they have the same result, which may be an error.  Levels are alike if they
are made of alike operands with the same operators, and then they have the same result too. -/

/-- The operands have the same result; their events may differ. -/
def Operand.Alike (cap : Nat) (x y : Operand) : Prop :=
  (evalNode cap x.node).result = (evalNode cap y.node).result

/-- The operands of the levels have the same results, one by one, with the same operators between. -/
def Level.Alike (cap : Nat) (l m : Level) : Prop :=
  ∃ chain : Chain { p : Operand × Operand // p.1.Alike cap p.2 },
    l.nodes = chain.nodes (fun p => p.1.1.node) ∧ m.nodes = chain.nodes fun p => p.1.2.node

/-- Alike levels have the same result, with their runs lifted. -/
theorem Level.Alike.result_eq {l m : Level} (h : l.Alike cap m) :
    (evalLevel cap (liftRuns l.nodes)).result = (evalLevel cap (liftRuns m.nodes)).result := by
  obtain ⟨chain, hl, hm⟩ := h
  rw [hl, hm]
  exact result_liftRuns_congr (fun p => p.2) (fun p => p.1.1.isOperand_node)
    (fun p => p.1.2.isOperand_node) chain

theorem Level.alike_single {x y : Operand} (h : x.Alike cap y) :
    (Level.single x).Alike cap (.single y) :=
  ⟨⟨⟨(x, y), h⟩, []⟩, by rw [Level.nodes]; rfl, by rw [Level.nodes]; rfl⟩

theorem Level.alike_join {x y : Operand} (h : x.Alike cap y) (op : Operator) {l m : Level}
    (hrest : l.Alike cap m) : (Level.join x op l).Alike cap (.join y op m) := by
  obtain ⟨chain, hl, hm⟩ := hrest
  refine ⟨⟨⟨(x, y), h⟩, (op, chain.first) :: chain.rest⟩, ?_, ?_⟩
  · rw [Level.nodes, hl]
    rfl
  · rw [Level.nodes, hm]
    rfl

theorem Level.alike_refl (level : Level) : level.Alike cap level := by
  cases level with
  | single operand => exact alike_single rfl
  | join operand op rest => exact alike_join rfl op rest.alike_refl

/-- Groups of levels with the same result have the same result. -/
theorem result_groupNode_congr {level level' : List Node}
    (h : (evalLevel cap level).result = (evalLevel cap level').result) (negated : Bool) :
    (evalNode cap (groupNode negated level)).result =
      (evalNode cap (groupNode negated level')).result := by
  cases negated with
  | false =>
    simp only [groupNode, Bool.false_eq_true, if_false, evalNode]
    exact h
  | true =>
    simp only [groupNode, if_true, evalNode, evalLevel_cons, evalSteps, Traced.result_bind, h]

mutual

/-- An operand with the hole in it: at the hole itself, or inside the level of a group. -/
theorem OperandContext.alike_fill {x y : Operand} (h : x.Alike cap y) :
    ∀ context : OperandContext, (context.fill x).Alike cap (context.fill y)
  | .hole => h
  | .inside sign context => by
    have hinside := (context.alike_fill h).result_eq
    rw [Operand.Alike, OperandContext.fill, OperandContext.fill, Operand.node, Operand.node]
    exact result_groupNode_congr hinside sign.negative

/-- **Operands with the same result may be exchanged in any context.** -/
theorem LevelContext.alike_fill {x y : Operand} (h : x.Alike cap y) :
    ∀ context : LevelContext, (context.fill x).Alike cap (context.fill y)
  | .single context => Level.alike_single (context.alike_fill h)
  | .first context op rest => Level.alike_join (context.alike_fill h) op rest.alike_refl
  | .later _ op context => Level.alike_join rfl op (context.alike_fill h)

end

/-! ## 3. A group and its value

A group's value is canonical and so can be written as a literal, or as a sign and a literal.  The
sign of the group and the sign of the value are brought together into the sign of that literal. -/

/-- What a signed group finds: the number that is found inside, or its opposite. -/
theorem exists_result_groupNode {level : List Node} {x : Decimal}
    (h : (evalLevel cap level).result = .ok x) (negated : Bool) :
    ∃ z : Decimal, (evalNode cap (groupNode negated level)).result = .ok z ∧ z.Canonical ∧
      z.value = if negated then -x.value else x.value := by
  have hx := canonical_of_evalLevel h
  cases negated with
  | false =>
    refine ⟨x, ?_, hx, rfl⟩
    rw [groupNode, if_neg Bool.false_ne_true, evalNode, h]
  | true =>
    obtain ⟨one, hone, hcanonical, hvalue⟩ := denotes_iff.1 denotes_minus_one
    obtain ⟨z, hz, hzcanonical, hzvalue⟩ := @operate_of_ne_divide cap .multiply one x hcanonical hx (by decide)
    refine ⟨z, ?_, hzcanonical, ?_⟩
    · have hnode : (evalNode cap (.group level)).result = .ok x := by rw [evalNode, h]
      have hminus : (evalNode cap (.literal ['-', '1'])).result = .ok one := by
        rw [evalNode, hone]
        rfl
      rw [groupNode, if_pos rfl, evalNode, result_evalLevel_pair .multiply hminus hnode, hz]
      rfl
    · rw [hzvalue, hvalue, Operator.exact, neg_one_mul, if_pos rfl]

/-- **A signed group and its signed value have the same result.** -/
theorem alike_literal {level : Level} {x : Decimal}
    (h : (evalLevel cap (liftRuns level.nodes)).result = .ok x) {sign sign' : Sign}
    {text : LiteralText}
    (htext : Denotes (text.signed sign') (if sign.negative then -x.value else x.value)) :
    (Operand.group sign level).Alike cap (.literal sign' text) := by
  obtain ⟨z, hz, hcanonical, hvalue⟩ := exists_result_groupNode h sign.negative
  rw [← hvalue] at htext
  rw [Operand.Alike, Operand.node, Operand.node, hz, evalNode_of_denotes hcanonical htext]
  rfl

/-! ## 4. The texts

The conditions of the language are checked for the text with the value in it.  In front of the
group and behind it nothing changes, so it is enough to look at the two places where they meet
the value. -/

/-- A sign may stand behind the text: it ends where a level starts, or in an operator with an operand in
front of it. -/
def TakesSign (cs : List Char) : Prop :=
  cs = [] ∨ cs.getLast? = some '(' ∨
    ∃ (front : List Char) (c : Char) (op : Operator), EndsOperand c ∧ cs = front ++ [c, op.symbol]

/-- Where a sign may stand, none stands in front of a hole: the sign of the group would have come
between. -/
theorem TakesSign.sign_eq_absent {context : LevelContext} {sign : Sign}
    (h : TakesSign (context.before ++ sign.toChars)) : sign = .absent := by
  have hminus : ¬ EndsOperand '-' := not_endsOperand_symbol .subtract
  have hpair : ∀ d, d ≠ '(' → ¬ TakesSign (context.before ++ ['-', d]) := by
    rintro d hd (hnil | hlast | ⟨front, c, op, hc, heq⟩)
    · simp at hnil
    · simp [List.getLast?_append] at hlast
      exact hd hlast
    · obtain ⟨-, hends⟩ := List.append_inj' heq rfl
      rw [← (List.cons.inj hends).1] at hc
      exact hminus hc
  cases sign with
  | absent => rfl
  | minusMinus => exact absurd h (hpair '-' (by decide))
  | minusPlus => exact absurd h (hpair '+' (by decide))
  | minus =>
    rcases h with hnil | hlast | ⟨front, c, op, hc, heq⟩
    · simp [Sign.toChars] at hnil
    · simp [Sign.toChars] at hlast
    · -- the operand would stand right in front of the hole
      rw [Sign.toChars, List.append_cons front c] at heq
      obtain ⟨hbefore, -⟩ := List.append_inj' heq rfl
      exact absurd hc (context.not_endsOperand_before c (by rw [hbefore, List.getLast?_concat]; rfl))

/-- What starts an expression stands in front of a group that does not start it itself, as a group does not
start with a digit. -/
theorem StartsExpression.front {front rest : List Char} (h : StartsExpression (front ++ '(' :: rest))
    (hfront : front ≠ []) : StartsExpression front := by
  obtain ⟨opening, first, hopening, hfirst, hprefix⟩ := h
  refine ⟨opening, first, hopening, hfirst, ?_⟩
  rcases prefix_append_cases hprefix with hcut | ⟨more, hmore, hrest⟩
  · exact hcut
  · cases more with
    | nil => exact ⟨[], by rw [hmore, List.append_nil, List.append_nil]⟩
    | cons c more =>
      obtain rfl : c = '(' := (List.cons_prefix_cons.1 hrest).1
      obtain ⟨d, ds, rfl⟩ := List.exists_cons_of_ne_nil hfront
      have hopened : '(' ∈ (opening ++ [first]).tail := by simp [hmore]
      simp only [List.mem_cons, List.not_mem_nil, or_false] at hopening
      rcases hopening with rfl | rfl | rfl
      · cases hopened
      all_goals
        obtain rfl : '(' = first := List.mem_singleton.1 hopened
        cases hfirst

/-- **A text keeps the outline of an expression** when a text with an outline replaces a group. -/
theorem HasOutline.replace {front source behind value : List Char}
    (h : HasOutline (front ++ '(' :: (source ++ ')' :: behind))) (hvalue : HasOutline value) :
    HasOutline (front ++ value ++ behind) := by
  have hne := hvalue.ne_nil
  rw [hasOutline_iff_ends] at h hvalue ⊢
  obtain ⟨hstarts, hallowed, hend⟩ := h
  obtain ⟨hvalueStarts, hvalueAllowed, hvalueEnd⟩ := hvalue
  refine ⟨?_, fun c hc => ?_, fun c hc => ?_⟩
  · by_cases hfront : front = []
    · rw [hfront, List.nil_append]
      exact hvalueStarts.append behind
    · rw [List.append_assoc]
      exact (hstarts.front hfront).append _
  · rcases List.mem_append.1 hc with hc | hc
    · rcases List.mem_append.1 hc with hc | hc
      · exact hallowed c (List.mem_append_left _ hc)
      · exact hvalueAllowed c hc
    · exact hallowed c (by simp [hc])
  · cases behind with
    | nil =>
      rw [List.append_nil, List.getLast?_append_of_ne_nil _ hne] at hc
      exact hvalueEnd c hc
    | cons d behind =>
      refine hend c ?_
      rw [List.getLast?_append_of_ne_nil _ (List.cons_ne_nil _ _)] at hc
      rw [List.getLast?_append_of_ne_nil _ (List.cons_ne_nil _ _), ← List.cons_append,
        List.getLast?_append_of_ne_nil _ (List.cons_ne_nil _ _), List.getLast?_cons_cons]
      exact hc

/-- A text behind which a sign may stand does not end in two minus signs. -/
theorem not_infix_pair_of_takesSign {cs : List Char} (h : TakesSign cs) : ¬ ['-', '-'] <:+ cs := by
  rintro ⟨front, rfl⟩
  rcases h with hnil | hlast | ⟨front', c, op, hc, heq⟩
  · simp at hnil
  · simp [List.getLast?_append] at hlast
  · obtain ⟨-, hends⟩ := List.append_inj' heq rfl
    rw [← (List.cons.inj hends).1] at hc
    exact not_endsOperand_symbol .subtract hc

/-- A number makes no three minus signs in a row, where its sign may stand. -/
theorem no_triple_minus_replace {front group behind : List Char} {x : Decimal} (hx : x.Canonical)
    (h : ¬ ['-', '-', '-'] <:+: front ++ (group ++ behind)) (hsign : x.negative = true → TakesSign front) :
    ¬ ['-', '-', '-'] <:+: front ++ x.toChars ++ behind := by
  intro hinfix
  rw [x.toChars_eq_signChars, ← List.append_assoc] at hinfix
  have hdisjoint : ∀ c ∈ hx.magnitude.chars, c ∉ ['-', '-', '-'] := by
    intro c hc
    have hminus := (ne_of_isLiteralPart (hx.magnitude.valid c hc)).2.1
    simpa using hminus
  have hfront : ¬ ['-', '-', '-'] <:+: front := fun hcut =>
    h (hcut.trans (List.prefix_append _ _).isInfix)
  rcases infix_of_disjoint hx.magnitude.ne_nil hdisjoint hinfix with hcut | hcut
  · cases hnegative : x.negative with
    | false =>
      rw [hnegative, signChars, if_neg Bool.false_ne_true, List.append_nil] at hcut
      exact hfront hcut
    | true =>
      rw [hnegative, signChars, if_pos rfl] at hcut
      rcases List.infix_concat_iff.1 hcut with hcut | hcut
      · rcases List.suffix_concat_iff.1 hcut with hnil | ⟨pair, hpair, hcut⟩
        · cases hnil
        · have hsplit : ['-', '-'] ++ ['-'] = pair ++ ['-'] := hpair
          obtain ⟨rfl, -⟩ := List.append_inj' hsplit rfl
          exact not_infix_pair_of_takesSign (hsign hnegative) hcut
      · exact hfront hcut
  · exact h (hcut.trans ⟨front ++ group, [], by simp⟩)

/-! ## 5. Replacing a group

The group is found in the derivation by its text, its context is filled with the literal of the
value, and the text of that is the text with the value in it. -/

/-- All derivations of one text are built into the same nodes, since building goes by the text. -/
theorem Level.Expresses.liftRuns_eq {level level' : Level} {cs : List Char} (h : level.Expresses cs)
    (htext : level'.toChars = cs) (hdepth : level'.depth ≤ maxNestingDepth) :
    liftRuns level'.nodes = liftRuns level.nodes := by
  have hbuilt := buildLevel_level level' hdepth
  rw [htext, ← h.toChars_eq, buildLevel_level level h.depth_le] at hbuilt
  exact (Except.ok.inj hbuilt).symm

/-- **The value stands in the text as well as the group**, with the same result, unless two signs meet. -/
theorem Level.Expresses.replace {level inner : Level} {front source behind : List Char}
    (h : level.Expresses (front ++ '(' :: (source ++ ')' :: behind))) (hinner : inner.Expresses source)
    {x : Decimal} (hresult : (evalLevel cap (liftRuns inner.nodes)).result = .ok x)
    (hsign : 0 ≤ x.value ∨ TakesSign front) : ∃ level' : Level,
      level'.Expresses (front ++ x.toChars ++ behind) ∧
        (evalLevel cap (liftRuns level'.nodes)).result =
          (evalLevel cap (liftRuns level.nodes)).result := by
  have hx := canonical_of_evalLevel hresult
  have hbalanced := inner.balanced
  rw [hinner.toChars_eq] at hbalanced
  obtain ⟨context, sign, inner', hinner', rfl, rfl, rfl⟩ :=
    level.exists_context hbalanced h.toChars_eq
  -- the group's level may be another derivation of the text
  have hdepth := (context.depth_le_depth_fill (.group sign inner')).trans h.depth_le
  rw [← hinner.liftRuns_eq hinner' ((Nat.le_succ _).trans hdepth)] at hresult
  obtain ⟨sign', text, htext, hdenotes⟩ :=
    exists_literal hx (hsign.imp_right TakesSign.sign_eq_absent)
  have hgroup : '(' :: (source ++ ')' :: context.after) = '(' :: (source ++ [')']) ++ context.after := by
    simp
  refine ⟨context.fill (.literal sign' text), ⟨?_, ?_, ?_, ?_⟩, ?_⟩
  · exact h.outline.replace (hasOutline_toChars hx)
  · rw [context.toChars_fill, htext, ← List.append_assoc]
  · have htriple := h.no_triple_minus
    rw [hgroup] at htriple
    refine no_triple_minus_replace hx htriple fun hnegative => ?_
    exact hsign.resolve_left (not_le.2 (hx.negative_iff.1 hnegative))
  · exact (context.depth_fill_mono (Nat.zero_le _)).trans h.depth_le
  · exact (context.alike_fill (alike_literal hresult hdenotes)).result_eq.symm

/-! ## 6. Expressions

On strings there may be blanks around the whole expression, and around the expression in the group
when it is evaluated by itself.  Trimming does not reach into the middle, where the group stands. -/

theorem trim_around_group (before source after : List Char) :
    Text.trim (before ++ '(' :: (source ++ ')' :: after)) = Text.trimStart before ++
      '(' :: (source ++ ')' :: (Text.trimStart after.reverse).reverse) := by
  have hclosing : ('(' :: (source ++ [')'])).getLast? = some ')' := by
    rw [← List.cons_append, List.getLast?_concat]
  have htrim := Text.trim_append (List.cons_ne_nil '(' (source ++ [')']))
    (by rintro c ⟨⟩; decide) (by rw [hclosing]; rintro c ⟨⟩; decide) before after
  simpa using htrim

theorem trim_around_number {x : Decimal} (hx : x.Canonical) (before after : List Char) :
    Text.trim (before ++ x.toChars ++ after) =
      Text.trimStart before ++ x.toChars ++ (Text.trimStart after.reverse).reverse := by
  have hblank : ∀ c ∈ x.toChars, Text.isBlank c = false := fun c hc =>
    isBlank_of_isAllowed ((hasOutline_toChars hx).isAllowed c hc)
  exact Text.trim_append (hasOutline_toChars hx).ne_nil
    (fun c hc => hblank c (List.mem_of_mem_head? hc))
    (fun c hc => hblank c (List.mem_of_mem_getLast? hc)) before after

/-- **A group may be replaced by its value.**  If an expression with a group in it has a result, and the
text in the group has a value by itself, then the expression with the value in the place of the group has
the same result.  This holds for values that are not negative, and for all values where the group stands
at the start of a level or right behind a single operator. -/
theorem group_replaced_by_value {before source after value result : String}
    (hvalue : evaluate cap source = .ok value)
    (hresult : evaluate cap (before ++ "(" ++ source ++ ")" ++ after) = .ok result)
    (hsign : (∃ q, 0 ≤ q ∧ Denotes value.toList q) ∨ TakesSign (Text.trimStart before.toList)) :
    evaluate cap (before ++ value ++ after) = .ok result := by
  obtain ⟨inner, x, hinner, hx, hfound, rfl⟩ := exists_expresses hvalue
  obtain ⟨level, -, hlevel, -⟩ := exists_expresses hresult
  have hwhole : Text.trim (before ++ "(" ++ source ++ ")" ++ after).toList =
      Text.trimStart before.toList ++
        '(' :: (source.toList ++ ')' :: (Text.trimStart after.toList.reverse).reverse) := by
    rw [← trim_around_group]
    simp
  have hreplaced : Text.trim (before ++ x.toString ++ after).toList =
      Text.trimStart before.toList ++ x.toChars ++ (Text.trimStart after.toList.reverse).reverse := by
    rw [← trim_around_number hx]
    simp [Decimal.toString]
  have hresult' := hlevel.evaluate_eq.symm.trans hresult
  rw [hwhole] at hlevel
  -- the whole text has no blank inside, so the text in the group is trimmed
  have hsource : Text.trim source.toList = source.toList := Text.trim_of_forall fun c hc =>
    isBlank_of_isAllowed (hlevel.outline.isAllowed c (by simp [hc]))
  rw [hsource] at hinner
  have hnonneg : 0 ≤ x.value ∨ TakesSign (Text.trimStart before.toList) := by
    refine hsign.imp_left ?_
    rintro ⟨q, hq, hdenotes⟩
    rwa [(denotes_toString hx).unique hdenotes]
  obtain ⟨level', hlevel', hsame⟩ := hlevel.replace hinner hfound hnonneg
  rw [← hreplaced] at hlevel'
  rw [hlevel'.evaluate_eq, hsame, hresult']

/-- A negative value behind a division that is cut off, and a value behind a sign. -/
theorem group_replaced_by_value_thirds :
    (evaluate 2 "1-4" = .ok "-3" ∧ evaluate 2 " 10/(1-4)*2" = .ok "-6.66" ∧
      evaluate 2 " 10/-3*2" = .ok "-6.66") ∧
    evaluate 2 "1+2" = .ok "3" ∧ evaluate 2 "2--(1+2)" = .ok "5" ∧ evaluate 2 "2--3" = .ok "5" := by
  refine ⟨⟨by decide +kernel, by decide +kernel, ?_⟩, by decide +kernel, by decide +kernel, ?_⟩
  · exact @group_replaced_by_value 2 " 10/" "1-4" "*2" "-3" "-6.66" (by decide +kernel)
      (by decide +kernel) (.inr (.inr (.inr ⟨['1'], '0', .divide, .inr rfl, by decide⟩)))
  · exact @group_replaced_by_value 2 "2--" "1+2" "" "3" "5" (by decide +kernel) (by decide +kernel)
      (.inl ⟨3, by norm_num, @denotes_of_ofString "3" 3 (by decide +kernel)⟩)

-- a negative value behind a sign makes three minus signs
example : evaluate 2 "2--(1-4)" = .ok "-1" ∧
    evaluate 2 "2---3" = .error (.malformed .duplicateOperator) := by decide +kernel

end Expression
end DecimalCalc
