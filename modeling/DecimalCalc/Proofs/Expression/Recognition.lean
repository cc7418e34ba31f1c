/-
# Which texts are accepted

The stages are followed backwards.  Whatever is built into a formed level was read from the tokens
of some derivation: the tokens give their text back, signs can only be folded if they were signs,
and each group holds a shorter text of the same kind.

Together with the other direction, in which derived texts are built stage by stage, this decides
which texts are accepted.  The forward direction is an induction on derivations; here there is none
yet, and the induction is on the length of the text, with the derivation as what is to be found.  At
each stage the question is what could have led to the result that one has.  A level of nodes that
alternate comes from tokens that do, up to folding; tokens that fold to such a list had at most two
signs in front of each operand, since the gate allows no three minus signs in a row; and the tokens,
written one behind the other, are the text.

A text of the language can still fail to have a value, for a literal that is no number or a divisor
that is zero.  Its literals have no exponents, so reading them always returns.

* `flatMap_toChars_of_scan`: the tokens of a text give the text back;
* `exists_level_of_foldSigns`: tokens that fold to a formed level are those of a derivation;
* `exists_level_of_buildLevel`: a text that is built into a formed level is derived;
* `evaluate_inLanguage`: the accepted texts are those of the language.
-/
import DecimalCalc.Proofs.Expression.Building
import DecimalCalc.Proofs.Expression.Formation
import DecimalCalc.Proofs.Decimal.Spelling
import Mathlib.Data.List.Infix

namespace DecimalCalc
namespace Expression

/-! ## 1. Tokens give their text back

Scanning forgets nothing, so the text can be written again from the tokens.  What is known of
characters, that they are allowed or that some do not occur in a row, can then be said of tokens. -/

namespace Token

/-- The text of a token that was read.  Signs are still tokens by themselves at this stage. -/
def toChars : Token → List Char
  | .literal text => text
  | .operator op => [op.symbol]
  | .group source _ => '(' :: (source ++ [')'])

/-- Reading finds literals of one piece, and leaves every sign to be folded. -/
def IsRead : Token → Prop
  | .literal text => text ≠ [] ∧ ∀ c ∈ text, continuesLiteral c = true
  | .operator _ => True
  | .group _ negated => negated = false

end Token

theorem ok_of_map {ε α β : Type} {f : α → β} {x : Except ε α} {b : β}
    (h : x.map f = .ok b) : ∃ a, x = .ok a ∧ f a = b := by
  cases x with
  | error e => cases h
  | ok a => exact ⟨a, rfl, Except.ok.inj h⟩

/-- What goes on with a literal is neither a parenthesis nor an operator. -/
theorem continuesLiteral_iff {c : Char} :
    continuesLiteral c = true ↔ c ≠ '(' ∧ c ≠ ')' ∧ Operator.ofChar? c = none := by
  simp [continuesLiteral, and_assoc]

/-- An allowed character is part of a literal, a parenthesis or an operator. -/
theorem isAllowed_cases {c : Char} (h : isAllowed c = true) :
    isLiteralPart c = true ∨ c = '(' ∨ c = ')' ∨ ∃ op, Operator.ofChar? c = some op := by
  simp only [isAllowed, Bool.or_eq_true, List.contains_iff_mem, List.mem_cons,
    List.not_mem_nil, or_false] at h
  rcases h with hdigit | rfl | rfl | rfl | rfl | rfl | rfl | rfl
  · exact .inl (by simp [isLiteralPart, hdigit])
  · exact .inl rfl
  · exact .inr (.inr (.inr ⟨_, rfl⟩))
  · exact .inr (.inr (.inr ⟨_, rfl⟩))
  · exact .inr (.inr (.inr ⟨_, rfl⟩))
  · exact .inr (.inr (.inr ⟨_, rfl⟩))
  · exact .inr (.inl rfl)
  · exact .inr (.inr (.inl rfl))

theorem isLiteralPart_of_continuesLiteral {c : Char} (hallowed : isAllowed c = true)
    (h : continuesLiteral c = true) : isLiteralPart c = true := by
  obtain ⟨hopening, hclosing, hop⟩ := continuesLiteral_iff.1 h
  rcases isAllowed_cases hallowed with hc | hc | hc | ⟨op, hc⟩
  · exact hc
  · exact absurd hc hopening
  · exact absurd hc hclosing
  · rw [hop] at hc
    cases hc

/-- **The tokens of a text give the text back.** -/
theorem flatMap_toChars_of_scan {cs : List Char} {tokens : List Token} (h : scan cs = .ok tokens) :
    tokens.flatMap Token.toChars = cs ∧ ∀ token ∈ tokens, token.IsRead := by
  fun_induction scan cs generalizing tokens with
  | case1 =>
    obtain rfl := Except.ok.inj h
    simp
  | case2 => cases h
  | case3 cs source rest hclose ih =>
    obtain ⟨tail, htail, rfl⟩ := ok_of_map h
    obtain ⟨htext, hread⟩ := ih htail
    refine ⟨?_, List.forall_mem_cons.2 ⟨rfl, hread⟩⟩
    rw [List.flatMap_cons, htext, closeGroup_eq hclose, Token.toChars]
    simp
  | case4 => cases h
  | case5 c cs _ _ op hop ih =>
    obtain ⟨tail, htail, rfl⟩ := ok_of_map h
    obtain ⟨htext, hread⟩ := ih htail
    refine ⟨?_, List.forall_mem_cons.2 ⟨trivial, hread⟩⟩
    rw [List.flatMap_cons, htext, Token.toChars, Operator.symbol_of_ofChar? hop]
    rfl
  | case6 c cs hopening hclosing hop ih =>
    obtain ⟨tail, htail, rfl⟩ := ok_of_map h
    obtain ⟨htext, hread⟩ := ih htail
    have hfirst : continuesLiteral c = true := continuesLiteral_iff.2 ⟨hopening, hclosing, hop⟩
    refine ⟨?_, List.forall_mem_cons.2 ⟨⟨List.cons_ne_nil _ _, ?_⟩, hread⟩⟩
    · rw [List.flatMap_cons, htext, Token.toChars, List.cons_append,
        List.takeWhile_append_dropWhile]
    · intro d hd
      rcases List.mem_cons.1 hd with rfl | hd
      · exact hfirst
      · exact List.all_eq_true.1 List.all_takeWhile d hd

/-- The text of some tokens in a row stands in the text that was read. -/
theorem isInfix_of_scan {cs : List Char} {tokens part : List Token} (h : scan cs = .ok tokens)
    (hpart : part <:+: tokens) : part.flatMap Token.toChars <:+: cs := by
  obtain ⟨before, behind, rfl⟩ := hpart
  refine ⟨before.flatMap Token.toChars, behind.flatMap Token.toChars, ?_⟩
  rw [← (flatMap_toChars_of_scan h).1, List.flatMap_append, List.flatMap_append]

theorem isInfix_of_mem_scan {cs : List Char} {tokens : List Token} (h : scan cs = .ok tokens)
    {token : Token} (hmem : token ∈ tokens) : token.toChars <:+: cs := by
  have hpart := isInfix_of_scan h ((List.singleton_infix_iff _ _).2 hmem)
  rwa [List.flatMap_singleton] at hpart

/-- The text of a group stands in the text that was read. -/
theorem isInfix_of_group_mem_scan {cs : List Char} {tokens : List Token} (h : scan cs = .ok tokens)
    {source : List Char} {negated : Bool} (hmem : .group source negated ∈ tokens) :
    source <:+: cs :=
  List.IsInfix.trans ⟨['('], [')'], rfl⟩ (isInfix_of_mem_scan h hmem)

/-- A literal that was read in a text of allowed characters is one of digits and points. -/
theorem exists_literalText {cs : List Char} {tokens : List Token} (h : scan cs = .ok tokens)
    (hallowed : ∀ c ∈ cs, isAllowed c = true) {text : List Char} (hmem : .literal text ∈ tokens) :
    ∃ literal : LiteralText, literal.chars = text := by
  have hpart : text <:+: cs := isInfix_of_mem_scan h hmem
  have hread : text ≠ [] ∧ ∀ c ∈ text, continuesLiteral c = true := (flatMap_toChars_of_scan h).2 _ hmem
  exact ⟨⟨text, hread.1, fun c hc =>
    isLiteralPart_of_continuesLiteral (hallowed c (hpart.subset hc)) (hread.2 c hc)⟩, rfl⟩

/-- The tokens of a derivation have its text, which is how a derivation that is found for the
tokens is one for the text. -/
theorem Operand.flatMap_tokens (operand : Operand) :
    operand.tokens.flatMap Token.toChars = operand.toChars := by
  cases operand with
  | literal sign text =>
    cases sign <;> simp [Operand.tokens, Operand.sign, Operand.atom, Operand.toChars, Sign.tokens,
      Sign.toChars, Token.toChars, Operator.symbol]
  | group sign level =>
    cases sign <;> simp [Operand.tokens, Operand.sign, Operand.atom, Operand.toChars, Sign.tokens,
      Sign.toChars, Token.toChars, Operator.symbol]

theorem Level.flatMap_tokens (level : Level) :
    level.tokens.flatMap Token.toChars = level.toChars := by
  cases level with
  | single operand =>
    rw [Level.tokens, Level.toChars, operand.flatMap_tokens]
  | join operand op rest =>
    rw [Level.tokens, Level.toChars, List.flatMap_append, operand.flatMap_tokens, List.flatMap_cons,
      rest.flatMap_tokens]
    rfl

/-! ## 2. Tokens that were folded

Folding is undone operand by operand.  In front of an operand stand the tokens of one of the four
signs, because other rows of operators fail to fold or do not leave alternating tokens behind. -/

/-- Operands and operators alternate up to an operand at the end; an operand precedes or not, as
the flag says. -/
def Alternates : Bool → List Token → Prop
  | after, [] => after = true
  | after, token :: tokens => token.isOperand = !after ∧ Alternates token.isOperand tokens

/-- The token is that of an atom, whatever its sign. -/
def Token.IsAtom (token : Token) : Prop :=
  ∀ sign, ∃ operand : Operand, operand.atom = token ∧ operand.sign = sign

theorem isOperand_of_negate {operand negated : Token} (h : operand.negate = .ok negated) :
    operand.isOperand = true ∧ negated.isOperand = true := by
  cases operand with
  | literal text =>
    rw [← Except.ok.inj h]
    exact ⟨rfl, rfl⟩
  | operator op => cases h
  | group source n =>
    rw [← Except.ok.inj h]
    exact ⟨rfl, rfl⟩

theorem exists_atom {tokens folded : List Token} (h : foldSigns false tokens = .ok folded)
    (hfolded : Alternates false folded) (hminus : tokens.head? ≠ some (.operator .subtract)) :
    ∃ atom rest tail, tokens = atom :: rest ∧ atom.isOperand = true ∧
      foldSigns true rest = .ok tail ∧ Alternates true tail := by
  unfold foldSigns at h
  split at h
  · obtain rfl := Except.ok.inj h
    cases hfolded
  · exact absurd rfl hminus
  · exact absurd rfl hminus
  · exact absurd rfl hminus
  · exact absurd rfl hminus
  · exact absurd rfl hminus
  next token rest _ _ _ _ _ =>
    obtain ⟨tail, hrest, rfl⟩ := ok_of_cons h
    obtain ⟨htoken, htail⟩ := hfolded
    have hoperand : token.isOperand = true := by simpa using htoken
    rw [hoperand] at hrest htail
    exact ⟨token, rest, tail, rfl, hoperand, hrest, htail⟩

/-- **What is folded in front of an operand is a sign**, as three minus signs never stand there. -/
theorem exists_sign {tokens folded : List Token} (h : foldSigns false tokens = .ok folded)
    (hfolded : Alternates false folded)
    (htriple : ¬ [.operator .subtract, .operator .subtract, .operator .subtract] <+: tokens) :
    ∃ (sign : Sign) (atom : Token) (rest tail : List Token), tokens = sign.tokens ++ atom :: rest ∧
      atom.isOperand = true ∧ foldSigns true rest = .ok tail ∧ Alternates true tail := by
  by_cases hminus : tokens.head? = some (.operator .subtract)
  · unfold foldSigns at h
    split at h
    · cases hminus
    · next rest _ =>
      have hrest : rest.head? ≠ some (.operator .subtract) := by
        intro hrest
        obtain ⟨more, rfl⟩ := List.head?_eq_some_iff.1 hrest
        exact htriple ⟨more, rfl⟩
      obtain ⟨atom, rest, tail, rfl, hatom, hfold, htail⟩ := exists_atom h hfolded hrest
      exact ⟨.minusMinus, atom, rest, tail, rfl, hatom, hfold, htail⟩
    · cases h
    · next operand rest _ =>
      obtain ⟨negated, tail, hnegate, hrest, rfl⟩ := ok_of_negate h
      obtain ⟨hoperand, hnegated⟩ := isOperand_of_negate hnegate
      obtain ⟨-, htail⟩ := hfolded
      rw [hnegated] at htail
      exact ⟨.minusPlus, operand, rest, tail, rfl, hoperand, hrest, htail⟩
    · cases h
    · next operand rest _ _ _ _ =>
      obtain ⟨negated, tail, hnegate, hrest, rfl⟩ := ok_of_negate h
      obtain ⟨hoperand, hnegated⟩ := isOperand_of_negate hnegate
      obtain ⟨-, htail⟩ := hfolded
      rw [hnegated] at htail
      exact ⟨.minus, operand, rest, tail, rfl, hoperand, hrest, htail⟩
    · next token rest hne₁ hne₂ hne₃ hne₄ hne₅ =>
      exfalso
      obtain rfl := Option.some.inj hminus
      cases rest with
      | nil => exact hne₄ rfl rfl rfl
      | cons operand rest => exact hne₅ operand rest rfl rfl rfl
  · obtain ⟨atom, rest, tail, rfl, hatom, hfold, htail⟩ := exists_atom h hfolded hminus
    exact ⟨.absent, atom, rest, tail, rfl, hatom, hfold, htail⟩

/-- **Tokens that fold to a formed level are those of a derivation.**  The induction is on the
number of tokens, with one operand and one operator taken off in front. -/
theorem exists_level_of_foldSigns {tokens folded : List Token}
    (h : foldSigns false tokens = .ok folded) (hfolded : Alternates false folded)
    (htriple : ¬ [.operator .subtract, .operator .subtract, .operator .subtract] <:+: tokens)
    (hatoms : ∀ token ∈ tokens, token.isOperand = true → token.IsAtom) :
    ∃ level : Level, level.tokens = tokens := by
  induction hn : tokens.length using Nat.strong_induction_on generalizing tokens folded with
  | _ n ih =>
  obtain ⟨sign, atom, rest, tail, rfl, hatom, hrest, htail⟩ :=
    exists_sign h hfolded fun hstart => htriple hstart.isInfix
  obtain ⟨operand, hoperand, hsign⟩ := hatoms atom (by simp) hatom sign
  have htokens : operand.tokens = sign.tokens ++ [atom] := by
    rw [Operand.tokens, hsign, hoperand]
  cases rest with
  | nil => exact ⟨.single operand, htokens⟩
  | cons token rest =>
    obtain ⟨op, rfl⟩ : ∃ op, token = .operator op := by
      rw [foldSigns] at hrest
      · obtain ⟨tail, -, rfl⟩ := ok_of_cons hrest
        have htoken := htail.1
        cases token with
        | operator op => exact ⟨op, rfl⟩
        | literal text => cases htoken
        | group source negated => cases htoken
      all_goals simp
    rw [foldSigns_true] at hrest
    obtain ⟨tail, hfold, rfl⟩ := ok_of_map hrest
    have hpart : rest <:+: sign.tokens ++ atom :: .operator op :: rest :=
      ⟨sign.tokens ++ [atom, .operator op], [], by simp⟩
    have hlt : rest.length < n := by
      rw [← hn]
      simp only [List.length_append, List.length_cons]
      omega
    obtain ⟨level, hlevel⟩ := ih _ hlt hfold htail.2 (fun hrest => htriple (hrest.trans hpart))
      (fun token htoken => hatoms token (hpart.subset htoken)) rfl
    refine ⟨.join operand op level, ?_⟩
    rw [Level.tokens, htokens, hlevel]
    simp

/-! ## 3. Levels that were built

Nodes that alternate were made of tokens that do, and a formed group was built from a text that is
shorter.  By induction that text is derived, so the group's token is the atom of an operand. -/

theorem mem_foldSigns_of_mem {after : Bool} {tokens folded : List Token}
    (h : foldSigns after tokens = .ok folded) {source : List Char} {negated : Bool}
    (hmem : .group source negated ∈ tokens) : ∃ n, .group source n ∈ folded := by
  fun_induction foldSigns after tokens generalizing folded with
  | case1 => cases hmem
  | case2 rest ih =>
    simp only [List.mem_cons, reduceCtorEq, false_or] at hmem
    exact ih h hmem
  | case3 => cases h
  | case5 => cases h
  | case4 | case6 =>
    rename_i ih
    obtain ⟨folded, tail, hnegate, hrest, rfl⟩ := ok_of_negate h
    simp only [List.mem_cons, reduceCtorEq, false_or] at hmem
    rcases hmem with rfl | hmem
    · rw [← Except.ok.inj hnegate]
      exact ⟨!negated, List.mem_cons_self⟩
    · obtain ⟨n, hn⟩ := ih hrest hmem
      exact ⟨n, List.mem_cons_of_mem _ hn⟩
  | case7 =>
    rename_i ih
    obtain ⟨tail, hrest, rfl⟩ := ok_of_cons h
    rcases List.mem_cons.1 hmem with rfl | hmem
    · exact ⟨negated, List.mem_cons_self⟩
    · obtain ⟨n, hn⟩ := ih hrest hmem
      exact ⟨n, List.mem_cons_of_mem _ hn⟩

theorem ok_of_mapM_cons {α β : Type} {f : α → Except SyntaxError β} {a : α} {as : List α}
    {bs : List β} (h : (a :: as).mapM f = .ok bs) :
    ∃ b rest, f a = .ok b ∧ as.mapM f = .ok rest ∧ bs = b :: rest := by
  rw [List.mapM_cons] at h
  obtain ⟨b, ha, h⟩ := ok_of_bind h
  obtain ⟨rest, has, h⟩ := ok_of_bind h
  exact ⟨b, rest, ha, has, (Except.ok.inj h).symm⟩

/-- Each group holds a text that is built into a formed level. -/
def GroupsFormed (tokens : List Token) : Prop :=
  ∀ source negated, .group source negated ∈ tokens →
    ∃ built, buildLevel source = .ok built ∧ LevelFormed built

/-- What is asked of the groups is asked of the first token and of the rest. -/
theorem groupsFormed_cons {token : Token} {tokens : List Token}
    (hfirst : ∀ source negated, token = .group source negated →
      ∃ built, buildLevel source = .ok built ∧ LevelFormed built)
    (hrest : GroupsFormed tokens) : GroupsFormed (token :: tokens) := by
  intro source negated hmem
  rcases List.mem_cons.1 hmem with hmem | hmem
  · exact hfirst source negated hmem.symm
  · exact hrest source negated hmem

/-- **A formed level comes from alternating tokens**, with formed levels in their groups. -/
theorem alternates_of_mapM {after : Bool} {tokens : List Token} {nodes : List Node}
    (h : tokens.mapM (nodeOfToken buildLevel) = .ok nodes)
    (hformed : if after then StepsFormed nodes else LevelFormed nodes) :
    Alternates after tokens ∧ GroupsFormed tokens := by
  induction tokens generalizing after nodes with
  | nil =>
    obtain rfl := Except.ok.inj h
    cases after with
    | false => simp [LevelFormed] at hformed
    | true => exact ⟨rfl, fun _ _ hmem => nomatch hmem⟩
  | cons token tokens ih =>
    obtain ⟨node, rest, hnode, hrest, rfl⟩ := ok_of_mapM_cons h
    cases token with
    | operator op =>
      obtain rfl := Except.ok.inj hnode
      cases after with
      | false => simp [LevelFormed, Node.Formed] at hformed
      | true =>
        obtain ⟨htokens, hgroups⟩ := @ih false rest hrest (stepsFormed_operator.1 hformed)
        exact ⟨⟨rfl, htokens⟩, groupsFormed_cons nofun hgroups⟩
    | literal text =>
      obtain rfl := Except.ok.inj hnode
      cases after with
      | true => exact absurd hformed (not_stepsFormed rfl)
      | false =>
        obtain ⟨htokens, hgroups⟩ := @ih true rest hrest hformed.2
        exact ⟨⟨rfl, htokens⟩, groupsFormed_cons nofun hgroups⟩
    | group source negated =>
      obtain ⟨built, hbuilt, rfl⟩ := ok_of_map hnode
      cases after with
      | true => exact absurd hformed (not_stepsFormed (by cases negated <;> rfl))
      | false =>
        obtain ⟨htokens, hgroups⟩ := @ih true rest hrest hformed.2
        refine ⟨⟨rfl, htokens⟩, groupsFormed_cons ?_ hgroups⟩
        rintro _ _ ⟨rfl, rfl⟩
        exact ⟨built, hbuilt, formed_groupNode.1 hformed.1⟩

/-- The literals and groups that were read are atoms, if the groups hold derived texts. -/
theorem isAtom_of_isRead {token : Token} (h : token.IsRead) (hoperand : token.isOperand = true)
    (hallowed : ∀ c ∈ token.toChars, isAllowed c = true)
    (hgroup : ∀ source negated, token = .group source negated →
      ∃ level : Level, level.toChars = source) : token.IsAtom := by
  intro sign
  cases token with
  | operator op => cases hoperand
  | literal text =>
    have hvalid : ∀ c ∈ text, isLiteralPart c = true := fun c hc =>
      isLiteralPart_of_continuesLiteral (hallowed c hc) (h.2 c hc)
    exact ⟨.literal sign ⟨text, h.1, hvalid⟩, rfl, rfl⟩
  | group source negated =>
    obtain ⟨level, hlevel⟩ := hgroup source negated rfl
    refine ⟨.group sign level, ?_, rfl⟩
    rw [Operand.atom, hlevel, show negated = false from h]

/-- **A text that is built into a formed level is derived.** -/
theorem exists_level_of_buildLevel {cs : List Char} {built : List Node}
    (h : buildLevel cs = .ok built) (hformed : LevelFormed built)
    (hallowed : ∀ c ∈ cs, isAllowed c = true) (htriple : ¬ ['-', '-', '-'] <:+: cs) :
    ∃ level : Level, level.toChars = cs ∧ scan cs = .ok level.tokens := by
  induction hn : cs.length using Nat.strong_induction_on generalizing cs built with
  | _ n ih =>
  rw [buildLevel_eq] at h
  obtain ⟨folded, hfolded, h⟩ := ok_of_bind h
  obtain ⟨nodes, hnodes, h⟩ := ok_of_bind h
  obtain ⟨tokens, htokens, hfold⟩ := ok_of_bind hfolded
  rw [← Except.ok.inj h, levelFormed_liftRuns] at hformed
  obtain ⟨halternates, hgroups⟩ := @alternates_of_mapM false _ _ hnodes hformed
  obtain ⟨htext, hread⟩ := flatMap_toChars_of_scan htokens
  have hminus : ¬ [.operator .subtract, .operator .subtract, .operator .subtract] <:+: tokens :=
    fun hpart => htriple (isInfix_of_scan htokens hpart)
  have hatoms : ∀ token ∈ tokens, token.isOperand = true → token.IsAtom := by
    intro token hmem hoperand
    have hpart := isInfix_of_mem_scan htokens hmem
    refine isAtom_of_isRead (hread token hmem) hoperand
      (fun c hc => hallowed c (hpart.subset hc)) ?_
    rintro source negated rfl
    obtain ⟨_, hmem'⟩ := mem_foldSigns_of_mem hfold hmem
    obtain ⟨inside, hinside, hinsideFormed⟩ := hgroups source _ hmem'
    have hlt := length_lt_of_mem_scan htokens hmem
    have hsource := isInfix_of_group_mem_scan htokens hmem
    obtain ⟨level, hlevel, -⟩ := ih source.length (hn ▸ hlt) hinside hinsideFormed
      (fun c hc => hallowed c (hsource.subset hc)) (fun h => htriple (h.trans hsource)) rfl
    exact ⟨level, hlevel⟩
  obtain ⟨level, hlevel⟩ := exists_level_of_foldSigns hfold halternates hminus hatoms
  refine ⟨level, ?_, by rw [hlevel, htokens]⟩
  rw [← level.flatMap_tokens, hlevel, htext]

/-! ## 4. Accepted texts

Both directions are put together for whole expressions.  The language is what is read as a formed
tree; a formed tree has a value or fails as a number, and a tree that is not formed has no value. -/

mutual

theorem Operand.formed_node : ∀ operand : Operand, operand.node.Formed
  | .literal sign text => by
    rw [Operand.node, Node.Formed]
    trivial
  | .group sign level => by
    rw [Operand.node, formed_groupNode, levelFormed_liftRuns]
    exact level.levelFormed_nodes

/-- The nodes of a derivation are formed, before the lifting and therefore after it. -/
theorem Level.levelFormed_nodes : ∀ level : Level, LevelFormed level.nodes
  | .single operand => by
    rw [Level.nodes, LevelFormed, StepsFormed]
    exact ⟨operand.formed_node, trivial⟩
  | .join operand op rest => by
    rw [Level.nodes, LevelFormed, stepsFormed_operator]
    exact ⟨operand.formed_node, rest.levelFormed_nodes⟩

end

section Literals

variable {Q : List Char → Prop}

mutual

/-- The literals of the nodes are those of the text, each with its sign, and the factor of minus
one.  What holds of these holds of every literal in the tree. -/
theorem Operand.eachLiteral_node (hone : Q ['-', '1'])
    (htext : ∀ (text : LiteralText) (sign : Sign), Q (text.signed sign)) :
    ∀ operand : Operand, operand.node.EachLiteral Q
  | .literal sign text => by
    rw [Operand.node, Node.EachLiteral]
    exact htext text sign
  | .group sign level => by
    rw [Operand.node]
    exact eachLiteral_groupNode hone ((eachLiteral_liftRuns _).2 (level.eachLiteral_nodes hone htext))

theorem Level.eachLiteral_nodes (hone : Q ['-', '1'])
    (htext : ∀ (text : LiteralText) (sign : Sign), Q (text.signed sign)) :
    ∀ level : Level, EachLiteral Q level.nodes
  | .single operand => by
    rw [Level.nodes, EachLiteral, EachLiteral]
    exact ⟨operand.eachLiteral_node hone htext, trivial⟩
  | .join operand op rest => by
    rw [Level.nodes, EachLiteral, EachLiteral]
    exact ⟨operand.eachLiteral_node hone htext, trivial, rest.eachLiteral_nodes hone htext⟩

end

end Literals

/-- A text of the language is read as the tree of its derivation. -/
theorem Level.Expresses.ofTrimmed {level : Level} {cs : List Char} (h : level.Expresses cs) :
    Tree.ofTrimmed cs = .ok ⟨liftRuns level.nodes⟩ := by
  have hbuild := buildLevel_level level h.depth_le
  rw [h.toChars_eq] at hbuild
  rw [Tree.ofTrimmed, h.gate, hbuild]
  rfl

/-- Only a text of the language is read as a formed tree. -/
theorem inLanguage_of_ofTrimmed {cs : List Char} {tree : Tree} (h : Tree.ofTrimmed cs = .ok tree)
    (hformed : LevelFormed tree.level) : InLanguage cs := by
  obtain ⟨⟨⟩, hgate, h⟩ := ok_of_bind h
  obtain ⟨built, hbuilt, h⟩ := ok_of_bind h
  obtain ⟨houtline, htriple⟩ := of_gate hgate
  rw [← Except.ok.inj h] at hformed
  obtain ⟨level, hlevel, hscan⟩ :=
    exists_level_of_buildLevel hbuilt hformed houtline.isAllowed htriple
  refine ⟨level, houtline, hlevel, htriple, ?_⟩
  by_contra hdepth
  rw [← hlevel, scan_level, if_pos (Nat.lt_of_not_le hdepth)] at hscan
  cases hscan

/-- An error that is handed back for a number.  The outcome in which the program stops is not among
them. -/
def ReturnedError (e : ExpressionError) : Prop :=
  e = .numeric .invalidNumber ∨ e = .numeric .divisionByZero

/-- A literal without an exponent mark is read, or the error is handed back: it is no number, and
that is all that can be wrong with it. -/
theorem readsOr_returnedError {text : List Char} (h : ∀ c ∈ text, Numeral.isMark c = false) :
    ReadsOr ReturnedError text := by
  intro e herror
  rcases parse_cases text with ⟨x, hx, -⟩ | hinvalid | hoverflow
  · rw [hx] at herror
    cases herror
  · rw [hinvalid] at herror
    exact .inl (congrArg _ (Except.error.inj herror).symm)
  · exact absurd (parse_eq_overflow_iff.1 hoverflow) (not_hasLeastExponent h)

/-- Literals are digits and points behind a sign, so there is no exponent in them. -/
theorem LiteralText.isMark_signed (text : LiteralText) (sign : Sign) :
    ∀ c ∈ text.signed sign, Numeral.isMark c = false := by
  have hchars : ∀ c ∈ text.chars, Numeral.isMark c = false := by
    intro c hc
    rcases Bool.or_eq_true_iff.1 (text.valid c hc) with hdigit | hpoint
    · exact isMark_of_isDigit hdigit
    · rw [eq_of_beq hpoint]
      rfl
  unfold LiteralText.signed
  split
  · exact List.forall_mem_cons.2 ⟨rfl, hchars⟩
  · exact hchars

/-- **The accepted texts are those of the language.**  No text of the language is a syntax error, and
no other text has a value. -/
theorem evaluate_inLanguage (cap : Nat) (expression : String) :
    (InLanguage (Text.trim expression.toList) →
      (∃ value, evaluate cap expression = .ok value) ∨
        evaluate cap expression = .error (.numeric .invalidNumber) ∨
          evaluate cap expression = .error (.numeric .divisionByZero)) ∧
    ∀ value, evaluate cap expression = .ok value → InLanguage (Text.trim expression.toList) := by
  constructor
  · rintro ⟨level, hlevel⟩
    have hformed := (levelFormed_liftRuns _).2 level.levelFormed_nodes
    have hone : ∀ c ∈ ['-', '1'], Numeral.isMark c = false := by simp [Numeral.isMark]
    have hread : EachLiteral (ReadsOr ReturnedError) (liftRuns level.nodes) :=
      (eachLiteral_liftRuns _).2 (level.eachLiteral_nodes (readsOr_returnedError hone)
        fun text sign => readsOr_returnedError (text.isMark_signed sign))
    have hrun : (run cap expression).FailsOnly ReturnedError := by
      rw [run_of_ofTrimmed hlevel.ofTrimmed]
      exact .bind (.of_ok rfl) fun _ =>
        .bind (failsOnly_evalLevel cap (.inr rfl) _ hformed hread) fun value =>
          .bind (.of_ok rfl) fun _ => .of_ok rfl
    cases hresult : evaluate cap expression with
    | ok value => exact .inl ⟨value, rfl⟩
    | error e => exact .inr ((hrun e hresult).imp (congrArg Except.error) (congrArg Except.error))
  · intro value h
    rw [evaluate, run] at h
    obtain ⟨tree, htree, h⟩ := Traced.ok_of_bind h
    obtain ⟨-, -, h⟩ := Traced.ok_of_bind h
    obtain ⟨x, hx, -⟩ := Traced.ok_of_bind h
    cases hread : Tree.ofTrimmed (Text.trim expression.toList) with
    | error e =>
      rw [hread] at htree
      cases htree
    | ok tree' =>
      rw [hread] at htree
      obtain rfl := Except.ok.inj htree
      exact inLanguage_of_ofTrimmed hread (levelFormed_of_ok _ hx)

end Expression
end DecimalCalc
