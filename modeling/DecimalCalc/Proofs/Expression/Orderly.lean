/-
# Orderly texts

What the gate rules out and what it leaves to the later stages is said here of the text alone: which
characters stand in it, which of them are neighbours, how its parentheses nest, where its literals
begin and end.  An orderly text breaks none of these rules, and operators may still stand in it
where operands should.  It is always read into tokens, no two operands among them are neighbours,
and the texts of its groups are orderly again.

The aim is to be able to speak about texts that are wrong in one way only.  If nothing else can be
reported, the misplaced operator must be, and what stands around it decides how.  So the conditions
are chosen such that each excludes one other error: parentheses that do not match, literals that are
no numbers, divisions that could fail, operators with nothing behind them.  Each is a condition on
characters, which a reader can check without knowing any of the stages, and each is inherited by the
text of a group, so that proofs can go down into groups.

* `exists_closeGroup`: a group that is opened in a balanced text is closed;
* `exists_scan`: a balanced text is read into tokens, and its groups hold balanced texts;
* `spaced_of_scan`: no operand stands right behind another one;
* `Orderly.group`: the text of a group is orderly.
-/
import DecimalCalc.Proofs.Decimal.Spelling
import DecimalCalc.Proofs.Expression.Recognition

namespace DecimalCalc
namespace Expression

/-! ## 1. Balanced texts

Nesting is followed by a counter, as the program does it, with a limit on how far it may go.  A text
that is balanced in this sense is always taken apart, and the source of a group in it is balanced
with its own counter starting at zero. -/

/-- Behind `depth` groups that are still open, the parentheses match and do not nest too deeply.
It is computable, so texts can be tested for it. -/
def nests : Nat → List Char → Bool
  | depth, [] => depth == 0
  | depth, '(' :: cs => decide (depth < maxNestingDepth) && nests (depth + 1) cs
  | 0, ')' :: _ => false
  | depth + 1, ')' :: cs => nests depth cs
  | depth, _ :: cs => nests depth cs

theorem nests_opening {depth : Nat} {cs : List Char} :
    nests depth ('(' :: cs) = true ↔ depth < maxNestingDepth ∧ nests (depth + 1) cs = true := by
  rw [nests, Bool.and_eq_true, decide_eq_true_eq]

theorem nests_closing (depth : Nat) (cs : List Char) :
    nests (depth + 1) (')' :: cs) = nests depth cs := by
  rw [nests]

theorem nests_cons {c : Char} (hopening : c ≠ '(') (hclosing : c ≠ ')') (depth : Nat)
    (cs : List Char) : nests depth (c :: cs) = nests depth cs := by
  rw [nests]
  · exact hopening
  · exact fun _ => hclosing
  · exact fun _ _ => hclosing

/-- Anything but a parenthesis is passed over; the counter stays as it is. -/
theorem nests_append {text : List Char} (h : ∀ c ∈ text, c ≠ '(' ∧ c ≠ ')') (depth : Nat)
    (cs : List Char) : nests depth (text ++ cs) = nests depth cs := by
  induction text with
  | nil => rfl
  | cons c text ih =>
    obtain ⟨hc, htext⟩ := List.forall_mem_cons.1 h
    rw [List.cons_append, nests_cons hc.1 hc.2, ih htext]

theorem no_parenthesis_of_mem_takeWhile {cs : List Char} :
    ∀ c ∈ cs.takeWhile continuesLiteral, c ≠ '(' ∧ c ≠ ')' := fun c hc =>
  have hc := continuesLiteral_iff.1 (List.all_eq_true.1 List.all_takeWhile c hc)
  ⟨hc.1, hc.2.1⟩

/-- **A group that is opened in a balanced text is closed**, and what it holds is balanced. -/
theorem exists_closeGroup {depth outer : Nat} {cs : List Char}
    (h : nests (depth + 1 + outer) cs = true) : ∃ source rest,
      closeGroup depth cs = .ok (source, rest) ∧ nests depth source = true ∧
        nests outer rest = true := by
  fun_induction closeGroup depth cs with
  | case1 depth =>
    rw [nests, beq_iff_eq] at h
    omega
  | case2 depth cs hdeep =>
    have hdepth := (nests_opening.1 h).1
    omega
  | case3 depth cs hdeep ih =>
    obtain ⟨hdepth, h⟩ := nests_opening.1 h
    rw [show depth + 1 + outer + 1 = depth + 1 + 1 + outer by omega] at h
    obtain ⟨source, rest, hclose, hsource, hrest⟩ := ih h
    rw [hclose]
    exact ⟨'(' :: source, rest, rfl, nests_opening.2 ⟨by omega, hsource⟩, hrest⟩
  | case4 cs =>
    rw [show 0 + 1 + outer = outer + 1 by omega, nests_closing] at h
    exact ⟨[], cs, rfl, rfl, h⟩
  | case5 depth cs ih =>
    rw [show depth + 1 + 1 + outer = depth + 1 + outer + 1 by omega, nests_closing] at h
    obtain ⟨source, rest, hclose, hsource, hrest⟩ := ih h
    rw [hclose]
    exact ⟨')' :: source, rest, rfl, by rw [nests_closing, hsource], hrest⟩
  | case6 depth c cs hopening hzero hsucc ih =>
    have hclosing : c ≠ ')' := by
      cases depth with
      | zero => exact hzero rfl
      | succ depth => exact hsucc depth rfl
    rw [nests_cons hopening hclosing] at h
    obtain ⟨source, rest, hclose, hsource, hrest⟩ := ih h
    rw [hclose]
    exact ⟨c :: source, rest, rfl, by rw [nests_cons hopening hclosing, hsource], hrest⟩

/-- What holds of the groups behind the first token and of that one, if it is a group, holds of
all. -/
theorem forall_group_cons {P : List Char → Prop} {token : Token} {tokens : List Token}
    (hfirst : ∀ source negated, token = .group source negated → P source)
    (hrest : ∀ source negated, .group source negated ∈ tokens → P source) :
    ∀ source negated, .group source negated ∈ token :: tokens → P source := by
  intro source negated hmem
  rcases List.mem_cons.1 hmem with hmem | hmem
  · exact hfirst source negated hmem.symm
  · exact hrest source negated hmem

/-- **A balanced text is read into tokens**, and its groups hold balanced texts. -/
theorem exists_scan {cs : List Char} (h : nests 0 cs = true) : ∃ tokens, scan cs = .ok tokens ∧
    ∀ source negated, .group source negated ∈ tokens → nests 0 source = true := by
  fun_induction scan cs with
  | case1 =>
    refine ⟨[], rfl, ?_⟩
    rintro _ _ ⟨⟩
  | case2 cs e hclose =>
    obtain ⟨source, rest, hok, -⟩ := @exists_closeGroup 0 0 cs (nests_opening.1 h).2
    rw [hclose] at hok
    cases hok
  | case3 cs source rest hclose ih =>
    obtain ⟨source', rest', hok, hsource, hrest⟩ := @exists_closeGroup 0 0 cs (nests_opening.1 h).2
    rw [hclose] at hok
    obtain ⟨rfl, rfl⟩ := Prod.mk.inj (Except.ok.inj hok)
    obtain ⟨tokens, hscan, hgroups⟩ := ih hrest
    rw [hscan]
    refine ⟨_, rfl, forall_group_cons ?_ hgroups⟩
    rintro _ _ ⟨rfl, rfl⟩
    exact hsource
  | case4 cs =>
    rw [nests] at h
    cases h
  | case5 c cs hopening hclosing op hop ih =>
    rw [nests_cons hopening hclosing] at h
    obtain ⟨tokens, hscan, hgroups⟩ := ih h
    rw [hscan]
    exact ⟨_, rfl, forall_group_cons (by rintro _ _ ⟨⟩) hgroups⟩
  | case6 c cs hopening hclosing hop ih =>
    rw [nests_cons hopening hclosing, ← List.takeWhile_append_dropWhile (p := continuesLiteral)
      (l := cs), nests_append no_parenthesis_of_mem_takeWhile] at h
    obtain ⟨tokens, hscan, hgroups⟩ := ih h
    rw [hscan]
    exact ⟨_, rfl, forall_group_cons (by rintro _ _ ⟨⟩) hgroups⟩

-- the outermost group counts, too
example : nests 0 (List.replicate 256 '(' ++ List.replicate 256 ')') = true ∧
    nests 0 (List.replicate 257 '(' ++ List.replicate 257 ')') = false := by decide +kernel

/-! ## 2. Where literals begin and end

Literals are described as the longest stretches of characters that belong to literals, without
reading from the left.  The scanner finds the same stretches, since what ends a literal for it is no
such character in an orderly text. -/

/-- The literals of a text: what stands between its other characters. -/
def literalRuns (cs : List Char) : List (List Char) :=
  (cs.splitOnP fun c => !isLiteralPart c).filter fun run => !run.isEmpty

theorem literalRuns_nil : literalRuns [] = [] := rfl

/-- A character that belongs to no literal separates those in front of it from those behind it. -/
theorem literalRuns_append_cons {c : Char} (hc : isLiteralPart c = false)
    (before behind : List Char) :
    literalRuns (before ++ c :: behind) = literalRuns before ++ literalRuns behind := by
  rw [literalRuns, List.splitOnP_append_cons before behind (by rw [hc]; rfl), List.filter_append]
  rfl

theorem literalRuns_cons {c : Char} (hc : isLiteralPart c = false) (cs : List Char) :
    literalRuns (c :: cs) = literalRuns cs :=
  literalRuns_append_cons hc [] cs

theorem literalRuns_of_forall {text : List Char} (htext : ∀ c ∈ text, isLiteralPart c = true)
    (hne : text ≠ []) : literalRuns text = [text] := by
  rw [literalRuns, List.splitOnP_eq_singleton fun c hc => by rw [htext c hc]; rfl]
  simp [hne]

/-- A literal ends where the next character is not part of it. -/
theorem literalRuns_append {text rest : List Char} (htext : ∀ c ∈ text, isLiteralPart c = true)
    (hne : text ≠ []) (hrest : ∀ c ∈ rest.head?, isLiteralPart c = false) :
    literalRuns (text ++ rest) = text :: literalRuns rest := by
  cases rest with
  | nil => rw [List.append_nil, literalRuns_of_forall htext hne, literalRuns_nil]
  | cons c rest =>
    have hc := hrest c rfl
    rw [literalRuns_append_cons hc, literalRuns_of_forall htext hne, literalRuns_cons hc]
    rfl

/-- What is left behind a literal begins with a character that does not go on with it. -/
theorem not_continuesLiteral_of_mem_head? {cs : List Char} {c : Char}
    (h : c ∈ (cs.dropWhile continuesLiteral).head?) : continuesLiteral c = false := by
  have hdrop := List.head?_dropWhile_not continuesLiteral cs
  rw [Option.mem_def.1 h] at hdrop
  simpa using hdrop

theorem not_isLiteralPart_of_not_continuesLiteral {c : Char} (h : continuesLiteral c = false) :
    isLiteralPart c = false := by
  rw [← Bool.not_eq_true]
  intro hc
  rw [continuesLiteral_of_isLiteralPart hc] at h
  cases h

/-- The literal that is read at the start of a text, and what is left behind it. -/
theorem literal_spec {c : Char} {cs : List Char} (hopening : c ≠ '(') (hclosing : c ≠ ')')
    (hop : Operator.ofChar? c = none) (hallowed : ∀ d ∈ c :: cs, isAllowed d = true) :
    (c :: cs.takeWhile continuesLiteral) ++ cs.dropWhile continuesLiteral = c :: cs ∧
      (∀ d ∈ c :: cs.takeWhile continuesLiteral, isLiteralPart d = true) ∧
      ∀ d ∈ (cs.dropWhile continuesLiteral).head?, isLiteralPart d = false := by
  refine ⟨?_, ?_, ?_⟩
  · rw [List.cons_append, List.takeWhile_append_dropWhile]
  · refine List.forall_mem_cons.2 ⟨?_, fun d hd => ?_⟩
    · exact isLiteralPart_of_continuesLiteral (hallowed c List.mem_cons_self)
        (continuesLiteral_iff.2 ⟨hopening, hclosing, hop⟩)
    · exact isLiteralPart_of_continuesLiteral
        (hallowed d (List.mem_cons_of_mem _ ((List.takeWhile_sublist _).subset hd)))
        (List.all_eq_true.1 List.all_takeWhile d hd)
  · exact fun d hd => not_isLiteralPart_of_not_continuesLiteral (not_continuesLiteral_of_mem_head? hd)

/-- The literals that are read are those of the text, on this level and, for others, in the
groups. -/
theorem mem_literalRuns_of_mem_scan {cs : List Char} {tokens : List Token} (h : scan cs = .ok tokens)
    (hallowed : ∀ c ∈ cs, isAllowed c = true) {text : List Char} (hmem : .literal text ∈ tokens) :
    text ∈ literalRuns cs := by
  fun_induction scan cs generalizing tokens with
  | case1 =>
    obtain rfl := Except.ok.inj h
    cases hmem
  | case2 => cases h
  | case3 cs source rest hclose ih =>
    obtain ⟨tail, htail, rfl⟩ := ok_of_map h
    rw [closeGroup_eq hclose] at hallowed ⊢
    rw [literalRuns_cons rfl, literalRuns_append_cons rfl]
    rcases List.mem_cons.1 hmem with hmem | hmem
    · cases hmem
    · exact List.mem_append_right _ (ih htail (fun c hc => hallowed c (by simp [hc])) hmem)
  | case4 => cases h
  | case5 c cs hopening hclosing op hop ih =>
    obtain ⟨tail, htail, rfl⟩ := ok_of_map h
    have hc : isLiteralPart c = false := by
      rw [← Operator.symbol_of_ofChar? hop]
      exact not_isLiteralPart_of_not_continuesLiteral (not_continuesLiteral_symbol op)
    rw [literalRuns_cons hc]
    rcases List.mem_cons.1 hmem with hmem | hmem
    · cases hmem
    · exact ih htail (fun c hc => hallowed c (List.mem_cons_of_mem _ hc)) hmem
  | case6 c cs hopening hclosing hop ih =>
    obtain ⟨tail, htail, rfl⟩ := ok_of_map h
    obtain ⟨hsplit, htext, hrest⟩ := literal_spec hopening hclosing hop hallowed
    rw [← hsplit] at hallowed ⊢
    rw [literalRuns_append htext (List.cons_ne_nil _ _) hrest]
    rcases List.mem_cons.1 hmem with hmem | hmem
    · rw [Token.literal.inj hmem]
      exact List.mem_cons_self
    · exact List.mem_cons_of_mem _
        (ih htail (fun d hd => hallowed d (List.mem_append_right _ hd)) hmem)

/-! ## 3. Neighbouring tokens

Tokens are looked at as operators or operands, in order.  Two operands could be neighbours only if
their characters were, and none of the pairs of characters that would do it is allowed. -/

/-- The operator that a token is, if it is one. -/
def Token.operator? : Token → Option Operator
  | .operator op => some op
  | _ => none

/-- No operand stands right behind another one; `none` stands for an operand. -/
def Spaced (shape : List (Option Operator)) : Prop :=
  shape.IsChain fun a b => a = none → b ≠ none

/-- No operand stands right behind another one, and there is one at the end; so every operator has
something behind it, if only another operator. -/
structure WellSpaced (shape : List (Option Operator)) : Prop where
  spaced : Spaced shape
  getLast? : shape.getLast? = some none

/-- In front of a closing parenthesis or an operator no operand is read, so a literal or a group
ends before it. -/
theorem head_of_scan {cs : List Char} {tokens : List Token} (h : scan cs = .ok tokens)
    (hhead : ∀ c ∈ cs.head?, c = ')' ∨ ∃ op, Operator.ofChar? c = some op) :
    ∀ shape ∈ (tokens.map Token.operator?).head?, shape ≠ none := by
  cases cs with
  | nil =>
    rw [scan_nil] at h
    obtain rfl := Except.ok.inj h
    exact fun _ hshape => nomatch hshape
  | cons c cs =>
    rcases hhead c rfl with rfl | ⟨op, hop⟩
    · rw [scan, if_neg (by decide), if_pos rfl] at h
      cases h
    · rw [← Operator.symbol_of_ofChar? hop, scan_operator] at h
      obtain ⟨tail, -, rfl⟩ := ok_of_map h
      intro shape hshape
      rw [← Option.some.inj hshape]
      exact Option.some_ne_none op

/-- Behind an operand, and outside of it, stands a closing parenthesis or an operator. -/
theorem follows_operand {a c : Char} (ha : EndsOperand a) (hfollow : mayFollow a c = true)
    (hallowed : isAllowed c = true) (hc : isLiteralPart c = false) :
    c = ')' ∨ ∃ op, Operator.ofChar? c = some op := by
  rcases isAllowed_cases hallowed with hliteral | rfl | hclosing | hop
  · rw [hc] at hliteral
    cases hliteral
  · rcases ha with rfl | ha
    · exact absurd hfollow (by decide)
    · have hopening := (mayFollow_iff.1 hfollow).2.2.2.2.2
      rw [ha] at hopening
      cases hopening
  · exact .inl hclosing
  · exact .inr hop

/-- **No operand is read right behind another one.** -/
theorem spaced_of_scan {cs : List Char} {tokens : List Token} (h : scan cs = .ok tokens)
    (hallowed : ∀ c ∈ cs, isAllowed c = true) (hchain : cs.IsChain fun a b => mayFollow a b = true) :
    Spaced (tokens.map Token.operator?) := by
  fun_induction scan cs generalizing tokens with
  | case1 =>
    obtain rfl := Except.ok.inj h
    exact .nil
  | case2 => cases h
  | case3 cs source rest hclose ih =>
    obtain ⟨tail, htail, rfl⟩ := ok_of_map h
    rw [closeGroup_eq hclose] at hallowed hchain
    have hbehind : (')' :: rest).IsChain fun a b => mayFollow a b = true :=
      List.IsChain.infix hchain ⟨'(' :: source, [], by simp⟩
    obtain ⟨hfirst, hrest⟩ := List.isChain_cons.1 hbehind
    refine List.isChain_cons.2 ⟨fun shape hshape _ => head_of_scan htail ?_ shape hshape,
      ih htail (fun c hc => hallowed c (by simp [hc])) hrest⟩
    intro c hc
    have hdigit := (mayFollow_iff.1 (hfirst c hc)).2.2.2.2.1
    exact follows_operand (.inl rfl) (hfirst c hc)
      (hallowed c (by simp [List.mem_of_mem_head? hc])) hdigit
  | case4 => cases h
  | case5 c cs hopening hclosing op hop ih =>
    obtain ⟨tail, htail, rfl⟩ := ok_of_map h
    refine List.isChain_cons.2 ⟨fun _ _ hoperand => absurd hoperand (Option.some_ne_none op),
      ih htail (fun c hc => hallowed c (List.mem_cons_of_mem _ hc)) (List.isChain_cons.1 hchain).2⟩
  | case6 c cs hopening hclosing hop ih =>
    obtain ⟨tail, htail, rfl⟩ := ok_of_map h
    obtain ⟨hsplit, htext, hrest⟩ := literal_spec hopening hclosing hop hallowed
    rw [← hsplit] at hallowed hchain
    obtain ⟨-, hbehind, hmeet⟩ := List.isChain_append.1 hchain
    refine List.isChain_cons.2 ⟨fun shape hshape _ => head_of_scan htail ?_ shape hshape,
      ih htail (fun d hd => hallowed d (List.mem_append_right _ hd)) hbehind⟩
    intro d hd
    have hlast := List.getLast?_eq_some_getLast (List.cons_ne_nil c (cs.takeWhile continuesLiteral))
    exact follows_operand (.inr (htext _ (List.mem_of_mem_getLast? hlast))) (hmeet _ hlast d hd)
      (hallowed d (List.mem_append_right _ (List.mem_of_mem_head? hd))) (hrest d hd)

/-- A text that does not end in an operator ends in an operand, whatever stands in front. -/
theorem getLast?_of_scan {cs : List Char} {tokens : List Token} (h : scan cs = .ok tokens)
    (hne : cs ≠ []) (hlast : ∀ c ∈ cs.getLast?, Operator.ofChar? c = none) :
    (tokens.map Token.operator?).getLast? = some none := by
  have htext := (flatMap_toChars_of_scan h).1
  rcases List.eq_nil_or_concat' tokens with rfl | ⟨before, last, rfl⟩
  · exact absurd htext.symm hne
  · rw [List.map_append, List.map_singleton, List.getLast?_concat]
    cases last with
    | literal text => rfl
    | group source negated => rfl
    | operator op =>
      rw [List.flatMap_append, List.flatMap_singleton, Token.toChars] at htext
      have hop := hlast op.symbol (by rw [← htext, List.getLast?_concat]; rfl)
      rw [Operator.ofChar?_symbol] at hop
      cases hop

/-! ## 4. Orderly texts

The conditions are collected in a structure with a field for each, and shown to pass to the text of
a group.  That text is a stretch of the whole one, which settles all conditions but those on its
ends and its balance. -/

/-- The text of a level that breaks no rule except that an operator may stand in it where an operand
should, and that needs no division. -/
structure Orderly (cs : List Char) : Prop where
  ne_nil : cs ≠ []
  allowed : ∀ c ∈ cs, isAllowed c = true
  isChain : cs.IsChain fun a b => mayFollow a b = true
  no_triple_minus : ¬ ['-', '-', '-'] <:+: cs
  balanced : nests 0 cs = true
  numbers : ∀ text ∈ literalRuns cs, ∃ q, Denotes text q
  no_division : '/' ∉ cs
  no_dangling : ∀ op : Operator, ¬ [op.symbol, ')'] <:+: cs
  getLast? : ∀ c ∈ cs.getLast?, Operator.ofChar? c = none

/-- The tokens of an orderly text: operands apart, and one at the end. -/
theorem Orderly.wellSpaced {cs : List Char} (h : Orderly cs) {tokens : List Token}
    (hscan : scan cs = .ok tokens) : WellSpaced (tokens.map Token.operator?) :=
  ⟨spaced_of_scan hscan h.allowed h.isChain, getLast?_of_scan hscan h.ne_nil h.getLast?⟩

/-- **The text of a group is orderly.**  It does not end in an operator, since that would stand in
front of the closing parenthesis. -/
theorem Orderly.group {cs : List Char} (h : Orderly cs) {tokens : List Token}
    (hscan : scan cs = .ok tokens) {source : List Char} {negated : Bool}
    (hmem : .group source negated ∈ tokens) : Orderly source := by
  have hpart : '(' :: (source ++ [')']) <:+: cs := isInfix_of_mem_scan hscan hmem
  have hinside := isInfix_of_group_mem_scan hscan hmem
  have hchain := List.IsChain.infix h.isChain hpart
  refine ⟨?_, fun c hc => h.allowed c (hinside.subset hc),
    List.IsChain.infix hchain ⟨['('], [')'], rfl⟩,
    fun htriple => h.no_triple_minus (htriple.trans hinside), ?_, ?_,
    fun hdivide => h.no_division (hinside.subset hdivide),
    fun op hop => h.no_dangling op (hop.trans hinside), ?_⟩
  · rintro rfl
    exact absurd (List.isChain_cons_cons.1 hchain).1 (by decide)
  · obtain ⟨tokens', hscan', hgroups⟩ := exists_scan h.balanced
    rw [hscan] at hscan'
    obtain rfl := Except.ok.inj hscan'
    exact hgroups source negated hmem
  · intro text htext
    refine h.numbers text ?_
    obtain ⟨before, behind, rfl⟩ := hpart
    rw [List.append_assoc, List.cons_append, List.append_assoc, List.singleton_append,
      literalRuns_append_cons rfl, literalRuns_append_cons rfl]
    exact List.mem_append_right _ (List.mem_append_left _ htext)
  · intro c hc
    by_contra hop
    obtain ⟨op, hop⟩ := Option.ne_none_iff_exists'.1 hop
    obtain ⟨before, rfl⟩ := List.getLast?_eq_some_iff.1 hc
    rw [← Operator.symbol_of_ofChar? hop] at hpart
    refine h.no_dangling op (List.IsInfix.trans ⟨'(' :: before, [], ?_⟩ hpart)
    simp

end Expression
end DecimalCalc
