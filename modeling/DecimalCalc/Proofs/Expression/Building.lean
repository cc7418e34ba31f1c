/-
# Derived texts are built

Each derivation says what every stage makes of its text: `Level.tokens` are read from it,
`Level.folded` is what folding the signs leaves of them, and `Level.nodes` are the nodes of these.
The stages do find this, unless the text nests too deeply, which the first one reports.

So the derivation is carried from stage to stage, and each stage has one theorem of the same form:
given the text, or the tokens, of a level, it returns what the level says.  The proofs are by
induction on derivations, operand by operand, each with the rest of the level or of the text behind
it.  The rest is arbitrary but for its first character or token, which must not go on with what was
just read.  That the limit on nesting is checked in one place only makes it a case distinction in
the theorems about closing and scanning; behind them, depth is a hypothesis.

* `closeGroup_level`: a group closes behind the level inside it;
* `scan_level`: a derived text is read into its tokens;
* `foldSigns_level`: each sign goes to the operand behind it;
* `buildLevel_level`: so a derived text is built.
-/
import DecimalCalc.Expression.Tree
import DecimalCalc.Proofs.Expression.Grammar

namespace DecimalCalc
namespace Expression

/-! ## 1. What each stage makes of a derived text

Each of the four is a recursion on the derivation that puts the results for operands together with
operators between them.  Groups are kept as text up to the last one, which goes into them. -/

/-- The tokens of a sign. -/
def Sign.tokens : Sign → List Token
  | .absent => []
  | .minus => [.operator .subtract]
  | .minusMinus => [.operator .subtract, .operator .subtract]
  | .minusPlus => [.operator .subtract, .operator .add]

/-- The text of a literal behind its sign, the sign being folded in.  Two minus signs leave the
literal as it is. -/
def LiteralText.signed (text : LiteralText) (sign : Sign) : List Char :=
  if sign.negative then '-' :: text.chars else text.chars

namespace Operand

/-- The sign in front. -/
def sign : Operand → Sign
  | .literal sign _ => sign
  | .group sign _ => sign

/-- The token behind the sign: a literal, or a group with the text of its level. -/
def atom : Operand → Token
  | .literal _ text => .literal text.chars
  | .group _ level => .group level.toChars false

/-- The token with the sign folded in. -/
def folded : Operand → Token
  | .literal sign text => .literal (text.signed sign)
  | .group sign level => .group level.toChars sign.negative

/-- The tokens that are read. -/
def tokens (operand : Operand) : List Token := operand.sign.tokens ++ [operand.atom]

end Operand

namespace Level

/-- The tokens that are read. -/
def tokens : Level → List Token
  | .single operand => operand.tokens
  | .join operand op rest => operand.tokens ++ .operator op :: rest.tokens

/-- The tokens with the signs folded. -/
def folded : Level → List Token
  | .single operand => [operand.folded]
  | .join operand op rest => operand.folded :: .operator op :: rest.folded

end Level

mutual

/-- The node of an operand.  In a group the runs of its level are lifted, and a sign that counts
becomes a factor. -/
def Operand.node : Operand → Node
  | .literal sign text => .literal (text.signed sign)
  | .group sign level => groupNode sign.negative (liftRuns level.nodes)

/-- The nodes of a level, before the runs are lifted. -/
def Level.nodes : Level → List Node
  | .single operand => [operand.node]
  | .join operand op rest => operand.node :: .operator op :: rest.nodes

end

/-! ## 2. Closing a group

Behind an opening parenthesis the text of a level is passed over with all groups in it, and the
parenthesis behind it is the one that closes.  If the level nests too deeply, the first group that
goes too far is reported instead. -/

/-- Puts a text in front of a group's source. -/
def prependSource (text : List Char) (closed : Except SyntaxError (List Char × List Char)) :
    Except SyntaxError (List Char × List Char) :=
  closed.map fun (source, rest) => (text ++ source, rest)

@[simp] theorem prependSource_ok (text source rest : List Char) :
    prependSource text (.ok (source, rest)) = .ok (text ++ source, rest) := rfl

@[simp] theorem prependSource_error (text : List Char) (e : SyntaxError) :
    prependSource text (.error e) = .error e := rfl

/-- Texts are put in front one after the other, or as one. -/
theorem prependSource_append (text more : List Char)
    (closed : Except SyntaxError (List Char × List Char)) :
    prependSource (text ++ more) closed = prependSource text (prependSource more closed) := by
  cases closed with
  | error e => rfl
  | ok p => simp [prependSource, Except.map]

theorem prependSource_cons (c : Char) (text : List Char)
    (closed : Except SyntaxError (List Char × List Char)) :
    prependSource (c :: text) closed = consSource c (prependSource text closed) := by
  cases closed with
  | error e => rfl
  | ok p => rfl

/-- A character that is no parenthesis goes into the source. -/
theorem closeGroup_cons {depth : Nat} {c : Char} {cs : List Char} (hopening : c ≠ '(')
    (hclosing : c ≠ ')') : closeGroup depth (c :: cs) = consSource c (closeGroup depth cs) := by
  rw [closeGroup]
  · exact hopening
  · exact fun _ => hclosing
  · exact fun _ _ => hclosing

theorem closeGroup_append {depth : Nat} {text cs : List Char}
    (h : ∀ c ∈ text, c ≠ '(' ∧ c ≠ ')') :
    closeGroup depth (text ++ cs) = prependSource text (closeGroup depth cs) := by
  induction text with
  | nil =>
    rw [List.nil_append]
    cases closeGroup depth cs <;> rfl
  | cons c text ih =>
    obtain ⟨hopening, hclosing⟩ := h c (by simp)
    rw [List.cons_append, closeGroup_cons hopening hclosing, prependSource_cons,
      ih fun d hd => h d (by simp [hd])]

theorem Sign.no_parenthesis (sign : Sign) : ∀ c ∈ sign.toChars, c ≠ '(' ∧ c ≠ ')' := by
  cases sign <;> simp [Sign.toChars]

theorem LiteralText.no_parenthesis (text : LiteralText) : ∀ c ∈ text.chars, c ≠ '(' ∧ c ≠ ')' :=
  fun c hc => (ne_of_isLiteralPart (text.valid c hc)).2.2.2.2

mutual

/-- An operand is passed over: the text of a literal as such, and a group by going into it one
level deeper. -/
theorem closeGroup_operand : ∀ (operand : Operand) (depth : Nat) (cs : List Char),
    depth < maxNestingDepth → closeGroup depth (operand.toChars ++ cs) =
      if maxNestingDepth < depth + 1 + operand.depth then .error .nestingTooDeep
      else prependSource operand.toChars (closeGroup depth cs)
  | .literal sign text, depth, cs, hdepth => by
    have hplain : ∀ c ∈ sign.toChars ++ text.chars, c ≠ '(' ∧ c ≠ ')' := by
      intro c hc
      exact (List.mem_append.1 hc).elim (sign.no_parenthesis c) (text.no_parenthesis c)
    rw [Operand.toChars, Operand.depth, closeGroup_append hplain, if_neg (by omega)]
  | .group sign level, depth, cs, hdepth => by
    rw [Operand.toChars, Operand.depth, List.append_assoc, closeGroup_append sign.no_parenthesis,
      List.cons_append, List.append_assoc, List.singleton_append, closeGroup]
    split
    · rw [if_pos (by omega), prependSource_error]
    next hopen =>
    rw [closeGroup_level level _ _ (by omega)]
    split
    · rw [if_pos (by omega)]
      rfl
    next hinside =>
    rw [if_neg (by omega), closeGroup, prependSource_append, prependSource_cons,
      prependSource_append, prependSource_cons]
    cases closeGroup depth cs <;> rfl

/-- **A group closes behind the level inside it**, unless that nests too deeply. -/
theorem closeGroup_level : ∀ (level : Level) (depth : Nat) (cs : List Char),
    depth < maxNestingDepth → closeGroup depth (level.toChars ++ cs) =
      if maxNestingDepth < depth + 1 + level.depth then .error .nestingTooDeep
      else prependSource level.toChars (closeGroup depth cs)
  | .single operand, depth, cs, hdepth => closeGroup_operand operand depth cs hdepth
  | .join operand op rest, depth, cs, hdepth => by
    have hsymbol : op.symbol ≠ '(' ∧ op.symbol ≠ ')' := by cases op <;> decide
    rw [Level.toChars, Level.depth, List.append_assoc, closeGroup_operand operand _ _ hdepth]
    split
    · rw [if_pos (by omega)]
    next hoperand =>
    rw [List.cons_append, closeGroup_cons hsymbol.1 hsymbol.2, closeGroup_level rest _ _ hdepth]
    split
    · rw [if_pos (by omega)]
      rfl
    next hrest =>
    rw [if_neg (by omega), prependSource_append, prependSource_cons]

end

/-! ## 3. Reading tokens

The scanner is described by one equation for each kind of token, with the rest of the text behind
it.  A literal needs to know that the rest does not go on with it. -/

theorem ofChar?_of_isLiteralPart {c : Char} (h : isLiteralPart c = true) :
    Operator.ofChar? c = none := by
  obtain ⟨hadd, hsub, hmul, hdiv, -, -⟩ := ne_of_isLiteralPart h
  unfold Operator.ofChar?
  split
  · exact absurd rfl hadd
  · exact absurd rfl hsub
  · exact absurd rfl hmul
  · exact absurd rfl hdiv
  · rfl

theorem continuesLiteral_of_isLiteralPart {c : Char} (h : isLiteralPart c = true) :
    continuesLiteral c = true := by
  obtain ⟨-, -, -, -, hopening, hclosing⟩ := ne_of_isLiteralPart h
  simp [continuesLiteral, ofChar?_of_isLiteralPart h, hopening, hclosing]

theorem not_continuesLiteral_symbol (op : Operator) : continuesLiteral op.symbol = false := by
  cases op <;> decide

theorem scan_nil : scan [] = .ok [] := by
  rw [scan]

theorem scan_operator (op : Operator) (cs : List Char) :
    scan (op.symbol :: cs) = (scan cs).map (.operator op :: ·) := by
  rw [scan]
  cases op <;> simp [Operator.symbol, Operator.ofChar?]

/-- Where a parenthesis opens, the group up to its closing one is a token. -/
theorem scan_group {source rest cs : List Char} (h : closeGroup 0 cs = .ok (source, rest)) :
    scan ('(' :: cs) = (scan rest).map (.group source false :: ·) := by
  rw [scan, if_pos rfl]
  split
  · next herror =>
    rw [h] at herror
    cases herror
  · next hok =>
    rw [h] at hok
    obtain ⟨rfl, rfl⟩ := Prod.mk.inj (Except.ok.inj hok)
    rfl

/-- A group that is not closed properly is reported before anything behind it is read. -/
theorem scan_open_error {cs : List Char} {e : SyntaxError} (h : closeGroup 0 cs = .error e) :
    scan ('(' :: cs) = .error e := by
  rw [scan, if_pos rfl]
  split
  · next herror =>
    rw [h] at herror
    rw [Except.error.inj herror]
  · next hok =>
    rw [h] at hok
    cases hok

/-- A literal is read up to the next character that does not go on with it. -/
theorem scan_literal (text : LiteralText) {cs : List Char}
    (h : ∀ c ∈ cs.head?, continuesLiteral c = false) :
    scan (text.chars ++ cs) = (scan cs).map (.literal text.chars :: ·) := by
  have hvalid := text.valid
  obtain ⟨c, rest, htext⟩ := List.exists_cons_of_ne_nil text.ne_nil
  rw [htext] at hvalid ⊢
  have hfirst := hvalid c (by simp)
  obtain ⟨-, -, -, -, hopening, hclosing⟩ := ne_of_isLiteralPart hfirst
  have hall : ∀ d ∈ rest, continuesLiteral d = true := fun d hd =>
    continuesLiteral_of_isLiteralPart (hvalid d (by simp [hd]))
  have hstop : cs.takeWhile continuesLiteral = [] ∧ cs.dropWhile continuesLiteral = cs := by
    cases cs with
    | nil => exact ⟨rfl, rfl⟩
    | cons d cs => simp [h d rfl]
  rw [List.cons_append, scan]
  simp [hopening, hclosing, ofChar?_of_isLiteralPart hfirst,
    List.takeWhile_append_of_pos hall, List.dropWhile_append_of_pos hall, hstop]

/-- Signs are read as the operators they are written with. -/
theorem scan_sign (sign : Sign) (cs : List Char) :
    scan (sign.toChars ++ cs) = (scan cs).map (sign.tokens ++ ·) := by
  have hsub : ∀ cs, scan ('-' :: cs) = (scan cs).map (.operator .subtract :: ·) :=
    scan_operator .subtract
  have hadd : ∀ cs, scan ('+' :: cs) = (scan cs).map (.operator .add :: ·) := scan_operator .add
  cases sign with
  | absent => cases hscan : scan cs <;> simp [Sign.toChars, Sign.tokens, Except.map, hscan]
  | minus =>
    rw [Sign.toChars, Sign.tokens, List.singleton_append, hsub]
    rfl
  | minusMinus =>
    rw [Sign.toChars, Sign.tokens, List.cons_append, List.singleton_append, hsub, hsub]
    cases scan cs <;> rfl
  | minusPlus =>
    rw [Sign.toChars, Sign.tokens, List.cons_append, List.singleton_append, hsub, hadd]
    cases scan cs <;> rfl

/-- An operand is read as its sign and its atom, if it does not nest too deeply. -/
theorem scan_operand (operand : Operand) {cs : List Char}
    (h : ∀ c ∈ cs.head?, continuesLiteral c = false) :
    scan (operand.toChars ++ cs) =
      if maxNestingDepth < operand.depth then .error .nestingTooDeep
      else (scan cs).map (operand.tokens ++ ·) := by
  cases operand with
  | literal sign text =>
    rw [Operand.toChars, Operand.depth, if_neg (by omega), List.append_assoc, scan_sign,
      scan_literal text h, Operand.tokens, Operand.sign, Operand.atom]
    cases scan cs with
    | error e => rfl
    | ok tokens => simp [Except.map]
  | group sign level =>
    have hclose := closeGroup_level level 0 (')' :: cs) (by decide)
    rw [Operand.toChars, Operand.depth, List.append_assoc, scan_sign, List.cons_append,
      List.append_assoc, List.singleton_append]
    split
    · rw [if_pos (by omega)] at hclose
      rw [scan_open_error hclose]
      rfl
    · rw [if_neg (by omega), closeGroup, prependSource_ok, List.append_nil] at hclose
      rw [scan_group hclose, Operand.tokens, Operand.sign, Operand.atom]
      cases scan cs with
      | error e => rfl
      | ok tokens => simp [Except.map]

/-- **A derived text is read into its tokens**, unless it nests too deeply. -/
theorem scan_level (level : Level) : scan level.toChars =
    if maxNestingDepth < level.depth then .error .nestingTooDeep else .ok level.tokens := by
  cases level with
  | single operand =>
    have hscan := @scan_operand operand [] (by simp)
    rw [List.append_nil, scan_nil] at hscan
    rw [Level.toChars, Level.depth, hscan, Level.tokens]
    simp [Except.map]
  | join operand op rest =>
    have hsymbol : ∀ c ∈ (op.symbol :: rest.toChars).head?, continuesLiteral c = false := by
      intro c hc
      rw [← Option.some.inj hc]
      exact not_continuesLiteral_symbol op
    rw [Level.toChars, Level.depth, scan_operand operand hsymbol, scan_operator, scan_level rest]
    split
    · rw [if_pos (by omega)]
    next hoperand =>
    split
    · rw [if_pos (by omega)]
      rfl
    next hrest =>
    rw [if_neg (by omega)]
    rfl

/-! ## 4. Folding signs

At the start of a level and behind an operator the sign is folded, and what follows is behind an
operand.  The four signs are the cases in which folding has a rule. -/

theorem foldSigns_keep {after : Bool} {token : Token}
    (h : after = false → token ≠ .operator .subtract) (tokens : List Token) :
    foldSigns after (token :: tokens) = (foldSigns token.isOperand tokens).map (token :: ·) := by
  have hkeep : foldSigns after (token :: tokens) = do
      return token :: (← foldSigns token.isOperand tokens) := by
    -- no pattern in front of the last one is for such a token
    rw [foldSigns] <;> grind
  rw [hkeep]
  cases foldSigns token.isOperand tokens <;> rfl

theorem foldSigns_true (op : Operator) (tokens : List Token) :
    foldSigns true (.operator op :: tokens) =
      (foldSigns false tokens).map (.operator op :: ·) := by
  rw [foldSigns_keep (fun h => by cases h)]
  rfl

/-- Where an operand is due, its sign is folded into its atom, and folding goes on behind an
operand. -/
theorem foldSigns_operand (operand : Operand) (tokens : List Token) :
    foldSigns false (operand.tokens ++ tokens) =
      (foldSigns true tokens).map (operand.folded :: ·) := by
  cases operand with
  | literal sign text =>
    cases sign <;> cases hfold : foldSigns true tokens <;>
      simp [Operand.tokens, Operand.sign, Operand.atom, Operand.folded, LiteralText.signed,
        Sign.tokens, Sign.negative, foldSigns, Token.negate, Token.isOperand, hfold] <;> rfl
  | group sign level =>
    cases sign <;> cases hfold : foldSigns true tokens <;>
      simp [Operand.tokens, Operand.sign, Operand.atom, Operand.folded,
        Sign.tokens, Sign.negative, foldSigns, Token.negate, Token.isOperand, hfold] <;> rfl

/-- **Each sign goes to the operand behind it.** -/
theorem foldSigns_level (level : Level) : foldSigns false level.tokens = .ok level.folded := by
  cases level with
  | single operand =>
    have hfold := foldSigns_operand operand []
    rw [List.append_nil] at hfold
    rw [Level.tokens, hfold]
    rfl
  | join operand op rest =>
    rw [Level.tokens, foldSigns_operand, foldSigns_true, foldSigns_level rest]
    rfl

/-- Reading and folding in one, for levels within the limit. -/
theorem levelTokens_level {level : Level} (h : level.depth ≤ maxNestingDepth) :
    levelTokens level.toChars = .ok level.folded := by
  rw [levelTokens, scan_level, if_neg (Nat.not_lt.2 h)]
  exact foldSigns_level level

/-! ## 5. Building nodes

Tokens become nodes one by one, those of groups by building the level inside them.  The induction is
on the derivation, in step with the recursion of building. -/

mutual

/-- The token of an operand becomes its node, if the operand is not nested too deeply.  For a group
this is where the text inside is built, one level further in. -/
theorem nodeOfToken_operand : ∀ operand : Operand, operand.depth ≤ maxNestingDepth →
    nodeOfToken buildLevel operand.folded = .ok operand.node
  | .literal _ _, _ => rfl
  | .group sign level, hdepth => by
    rw [Operand.depth] at hdepth
    rw [Operand.folded, nodeOfToken, buildLevel_level level (by omega), Operand.node]
    rfl

/-- The tokens of a level become its nodes, before any run is lifted. -/
theorem mapM_nodeOfToken_level : ∀ level : Level, level.depth ≤ maxNestingDepth →
    level.folded.mapM (nodeOfToken buildLevel) = .ok level.nodes
  | .single operand, hdepth => by
    rw [Level.folded, List.mapM_cons, nodeOfToken_operand operand hdepth, Level.nodes]
    rfl
  | .join operand op rest, hdepth => by
    rw [Level.depth] at hdepth
    rw [Level.folded, List.mapM_cons, nodeOfToken_operand operand (by omega), List.mapM_cons,
      mapM_nodeOfToken_level rest (by omega), Level.nodes]
    rfl

/-- **A derived text is built into its nodes.** -/
theorem buildLevel_level (level : Level) (hdepth : level.depth ≤ maxNestingDepth) :
    buildLevel level.toChars = .ok (liftRuns level.nodes) := by
  rw [buildLevel_eq, levelTokens_level hdepth]
  show (level.folded.mapM (nodeOfToken buildLevel) >>= fun nodes => pure (liftRuns nodes)) = _
  rw [mapM_nodeOfToken_level level hdepth]
  rfl

end

end Expression
end DecimalCalc
