/-
# What folding leaves of misplaced operators

Folding takes signs away and nothing else.  What one step of it can do is said once, by `Folds`, and
every fact about what is left is read off that: operands stay apart, and where two operators are
neighbours afterwards, nothing but pairs of minus signs stood between them before.

The relation has a rule for each way in which folding goes on, and forgets how the program chooses
between them.  A proof by induction on it has five cases, where the program's own equations have
more and overlap.  Facts are stated about the shape of tokens, the list of what is an operator and
which one, since neither the text of a literal nor the source of a group plays a part.  In front of
the shape one operand may be added for what has been read before, so that the flag of folding
becomes part of the shape.

* `folds_of_foldSigns`: every folding that succeeds is made of these steps;
* `Folds.keeps`, `Folds.wellSpaced`: operands stay apart, and the last one stays the last token;
* `Folds.stranded`: where neighbouring operators come from;
* `unexpectedOperator_of_foldSigns`: how folding fails.
-/
import DecimalCalc.Proofs.Expression.Orderly

namespace DecimalCalc
namespace Expression

/-! ## 1. The steps of folding

Two minus signs cancel, a minus alone or with a plus behind it negates an operand, and any other
token is kept.  The flag says whether an operand stands in front, where a minus is no sign. -/

/-- What folding makes of tokens, behind an operand or not.  A token is kept behind an operand
whatever it is, and elsewhere unless it is a minus. -/
inductive Folds : Bool → List Token → List Token → Prop
  | nil (after : Bool) : Folds after [] []
  | cancel {tokens folded : List Token} (h : Folds false tokens folded) :
      Folds false (.operator .subtract :: .operator .subtract :: tokens) folded
  | minus {operand negated : Token} {tokens folded : List Token}
      (hnegate : operand.negate = .ok negated) (h : Folds true tokens folded) :
      Folds false (.operator .subtract :: operand :: tokens) (negated :: folded)
  | minusPlus {operand negated : Token} {tokens folded : List Token}
      (hnegate : operand.negate = .ok negated) (h : Folds true tokens folded) :
      Folds false (.operator .subtract :: .operator .add :: operand :: tokens) (negated :: folded)
  | keep {after : Bool} {token : Token} {tokens folded : List Token}
      (hkeep : after = false → token ≠ .operator .subtract)
      (h : Folds token.isOperand tokens folded) : Folds after (token :: tokens) (token :: folded)

/-- **Every folding that succeeds is made of these steps.** -/
theorem folds_of_foldSigns {after : Bool} {tokens folded : List Token}
    (h : foldSigns after tokens = .ok folded) : Folds after tokens folded := by
  fun_induction foldSigns after tokens generalizing folded with
  | case1 after =>
    obtain rfl := Except.ok.inj h
    exact .nil after
  | case2 rest ih => exact .cancel (ih h)
  | case3 => cases h
  | case4 operand rest ih =>
    obtain ⟨negated, tail, hnegate, hrest, rfl⟩ := ok_of_negate h
    exact .minusPlus hnegate (ih hrest)
  | case5 => cases h
  | case6 operand rest _ _ _ ih =>
    obtain ⟨negated, tail, hnegate, hrest, rfl⟩ := ok_of_negate h
    exact .minus hnegate (ih hrest)
  | case7 after token rest _ _ _ hlast hnext ih =>
    obtain ⟨tail, hrest, rfl⟩ := ok_of_cons h
    refine .keep ?_ (ih hrest)
    rintro rfl rfl
    cases rest with
    | nil => exact hlast rfl rfl rfl
    | cons operand rest => exact hnext operand rest rfl rfl rfl

/-- A folded token was there before, or it is one with its sign turned.  No token is made up. -/
theorem Folds.exists_of_mem {after : Bool} {tokens folded : List Token}
    (h : Folds after tokens folded) {token : Token} (hmem : token ∈ folded) :
    ∃ read ∈ tokens, token = read ∨ read.negate = .ok token := by
  induction h with
  | nil after => cases hmem
  | cancel h ih =>
    obtain ⟨read, hread, htoken⟩ := ih hmem
    exact ⟨read, by simp [hread], htoken⟩
  | minus hnegate h ih | minusPlus hnegate h ih =>
    rcases List.mem_cons.1 hmem with rfl | hmem
    · exact ⟨_, by simp, .inr hnegate⟩
    · obtain ⟨read, hread, htoken⟩ := ih hmem
      exact ⟨read, by simp [hread], htoken⟩
  | keep hkeep h ih =>
    rcases List.mem_cons.1 hmem with rfl | hmem
    · exact ⟨_, List.mem_cons_self, .inl rfl⟩
    · obtain ⟨read, hread, htoken⟩ := ih hmem
      exact ⟨read, List.mem_cons_of_mem _ hread, htoken⟩

/-! ## 2. Operands stay apart

What is asked of operands is that no two are neighbours, and in a stricter form that one of them
comes last.  Either property is about operands only, so taking operators away in front of operands
keeps it. -/

theorem Token.operator?_eq_none {token : Token} (h : token.isOperand = true) :
    token.operator? = none := by
  cases token with
  | literal text => rfl
  | operator op => cases h
  | group source negated => rfl

theorem not_wellSpaced_nil : ¬ WellSpaced [] :=
  fun h => nomatch h.getLast?

theorem not_wellSpaced_operands {shape : List (Option Operator)} :
    ¬ WellSpaced (none :: none :: shape) :=
  fun h => (List.isChain_cons_cons.1 h.spaced).1 rfl rfl

theorem wellSpaced_operator {op : Operator} {shape : List (Option Operator)} :
    WellSpaced (some op :: shape) ↔ WellSpaced shape := by
  constructor
  · rintro ⟨hspaced, hlast⟩
    refine ⟨(List.isChain_cons.1 hspaced).2, ?_⟩
    cases shape with
    | nil => cases hlast
    | cons a shape => rwa [List.getLast?_cons_cons] at hlast
  · rintro ⟨hspaced, hlast⟩
    refine ⟨List.isChain_cons.2 ⟨fun _ _ hop => (Option.some_ne_none op hop).elim, hspaced⟩, ?_⟩
    cases shape with
    | nil => cases hlast
    | cons a shape => rwa [List.getLast?_cons_cons]

theorem wellSpaced_step {op : Operator} {shape : List (Option Operator)} :
    WellSpaced (none :: some op :: shape) ↔ WellSpaced shape := by
  rw [← @wellSpaced_operator op shape]
  constructor
  · rintro ⟨hspaced, hlast⟩
    exact ⟨(List.isChain_cons_cons.1 hspaced).2, by rwa [List.getLast?_cons_cons] at hlast⟩
  · rintro ⟨hspaced, hlast⟩
    exact ⟨List.isChain_cons_cons.2 ⟨fun _ => Option.some_ne_none op, hspaced⟩,
      by rwa [List.getLast?_cons_cons]⟩

theorem spaced_operator {op : Operator} {shape : List (Option Operator)} :
    Spaced (some op :: shape) ↔ Spaced shape :=
  List.isChain_cons.trans (and_iff_right fun _ _ hop => (Option.some_ne_none op hop).elim)

theorem spaced_step {op : Operator} {shape : List (Option Operator)} :
    Spaced (none :: some op :: shape) ↔ Spaced shape := by
  rw [← @spaced_operator op shape]
  exact List.isChain_cons_cons.trans (and_iff_right fun _ => Option.some_ne_none op)

/-- The property of a shape is about its operands only, and no two of them are neighbours. -/
structure SeesOperands (P : List (Option Operator) → Prop) : Prop where
  operator : ∀ {op : Operator} {shape : List (Option Operator)}, P (some op :: shape) ↔ P shape
  step : ∀ {op : Operator} {shape : List (Option Operator)}, P (none :: some op :: shape) ↔ P shape
  operands : ∀ {shape : List (Option Operator)}, ¬ P (none :: none :: shape)

theorem seesOperands_spaced : SeesOperands Spaced :=
  ⟨spaced_operator, spaced_step, fun h => (List.isChain_cons_cons.1 h).1 rfl rfl⟩

theorem seesOperands_wellSpaced : SeesOperands WellSpaced :=
  ⟨wellSpaced_operator, wellSpaced_step, not_wellSpaced_operands⟩

/-- The shape of what is read behind an operand, that operand included. -/
def behind (after : Bool) (shape : List (Option Operator)) : List (Option Operator) :=
  if after then none :: shape else shape

section

variable {P : List (Option Operator) → Prop} (hP : SeesOperands P)
include hP

/-- One token further: it may be an operand only if none stands in front of it. -/
theorem SeesOperands.behind_cons {after : Bool} {token : Token} {shape : List (Option Operator)} :
    P (behind after (token.operator? :: shape)) ↔
      (after = true → token.isOperand = false) ∧ P (behind token.isOperand shape) := by
  cases token with
  | operator op =>
    cases after with
    | false => simp [behind, Token.operator?, Token.isOperand, hP.operator]
    | true => simp [behind, Token.operator?, Token.isOperand, hP.step]
  | literal text =>
    cases after with
    | false => simp [behind, Token.operator?, Token.isOperand]
    | true => simp [behind, Token.operator?, Token.isOperand, hP.operands]
  | group source negated =>
    cases after with
    | false => simp [behind, Token.operator?, Token.isOperand]
    | true => simp [behind, Token.operator?, Token.isOperand, hP.operands]

/-- **Folding keeps what is asked of the operands.**  The induction is on the steps of folding, and
a sign that is taken away stood in front of an operand that stays. -/
theorem Folds.keeps {after : Bool} {tokens folded : List Token} (h : Folds after tokens folded)
    (hshape : P (behind after (tokens.map Token.operator?))) :
    P (behind after (folded.map Token.operator?)) := by
  induction h with
  | nil after => exact hshape
  | cancel h ih => exact ih (hP.operator.1 (hP.operator.1 hshape))
  | minus hnegate h ih =>
    obtain ⟨hoperand, hnegated⟩ := isOperand_of_negate hnegate
    have hrest := hP.operator.1 hshape
    rw [List.map_cons, Token.operator?_eq_none hoperand] at hrest
    rw [List.map_cons, Token.operator?_eq_none hnegated]
    exact ih hrest
  | minusPlus hnegate h ih =>
    obtain ⟨hoperand, hnegated⟩ := isOperand_of_negate hnegate
    have hrest := hP.operator.1 (hP.operator.1 hshape)
    rw [List.map_cons, Token.operator?_eq_none hoperand] at hrest
    rw [List.map_cons, Token.operator?_eq_none hnegated]
    exact ih hrest
  | keep hkeep h ih =>
    obtain ⟨hafter, hrest⟩ := hP.behind_cons.1 hshape
    exact hP.behind_cons.2 ⟨hafter, ih hrest⟩

end

/-- **Operands stay apart**, and the last one stays the last token. -/
theorem Folds.wellSpaced {after : Bool} {tokens folded : List Token} (h : Folds after tokens folded)
    (hshape : WellSpaced (behind after (tokens.map Token.operator?))) :
    WellSpaced (behind after (folded.map Token.operator?)) :=
  h.keeps seesOperands_wellSpaced hshape

/-- If a token is kept, a failure comes from behind it. -/
theorem error_of_cons {token : Token} {rest : Except SyntaxError (List Token)} {e : SyntaxError}
    (h : (do return token :: (← rest)) = Except.error e) : rest = .error e := by
  cases rest with
  | error e' => exact h
  | ok tail => cases h

/-- If a token is negated, it is an operator, or the failure comes from behind it. -/
theorem error_of_negate {operand : Token} {rest : Except SyntaxError (List Token)} {e : SyntaxError}
    (h : (do let negated ← operand.negate; return negated :: (← rest)) = Except.error e) :
    e = .unexpectedOperator ∨ operand.isOperand = true ∧ rest = .error e := by
  cases operand with
  | operator op => exact .inl (Except.error.inj h).symm
  | literal text => exact .inr ⟨rfl, error_of_cons h⟩
  | group source negated => exact .inr ⟨rfl, error_of_cons h⟩

/-- **How folding fails** where operands stay apart: an operator stands where an operand should. -/
theorem unexpectedOperator_of_foldSigns {after : Bool} {tokens : List Token} {e : SyntaxError}
    (h : foldSigns after tokens = .error e)
    (hshape : WellSpaced (behind after (tokens.map Token.operator?))) : e = .unexpectedOperator := by
  fun_induction foldSigns after tokens with
  | case1 => cases h
  | case2 rest ih => exact ih h (wellSpaced_operator.1 (wellSpaced_operator.1 hshape))
  | case3 =>
    exact (not_wellSpaced_nil (wellSpaced_operator.1 (wellSpaced_operator.1 hshape))).elim
  | case4 operand rest ih =>
    rcases error_of_negate h with rfl | ⟨hoperand, h⟩
    · rfl
    · have hrest := wellSpaced_operator.1 (wellSpaced_operator.1 hshape)
      rw [List.map_cons, Token.operator?_eq_none hoperand] at hrest
      exact ih h hrest
  | case5 => exact (not_wellSpaced_nil (wellSpaced_operator.1 hshape)).elim
  | case6 operand rest _ _ _ ih =>
    rcases error_of_negate h with rfl | ⟨hoperand, h⟩
    · rfl
    · have hrest := wellSpaced_operator.1 hshape
      rw [List.map_cons, Token.operator?_eq_none hoperand] at hrest
      exact ih h hrest
  | case7 after token rest _ _ _ _ _ ih =>
    exact ih (error_of_cons h) (seesOperands_wellSpaced.behind_cons.1 hshape).2

/-! ## 3. Operators that become neighbours

Where an operator is left behind another one, folding has gone past it, and what it takes away
without leaving an operand are pairs of minus signs only.  So the two were neighbours before, up to
such pairs. -/

/-- Any number of pairs of minus signs, as the shape of tokens. -/
def minusPairs (n : Nat) : List (Option Operator) := List.replicate (2 * n) (some .subtract)

theorem minusPairs_succ (n : Nat) :
    minusPairs (n + 1) = some .subtract :: some .subtract :: minusPairs n := rfl

/-- Where an operator is left in front, only pairs of minus signs stood before it, and it is no
minus itself. -/
theorem Folds.exists_operator {after : Bool} {tokens folded : List Token}
    (h : Folds after tokens folded) (hafter : after = false) {next : Operator}
    (hnext : [some next] <+: folded.map Token.operator?) : next ≠ .subtract ∧
      ∃ n, minusPairs n ++ [some next] <+: tokens.map Token.operator? := by
  induction h with
  | nil after => cases List.prefix_nil.1 hnext
  | cancel h ih =>
    obtain ⟨hne, n, hn⟩ := ih rfl hnext
    refine ⟨hne, n + 1, ?_⟩
    rw [minusPairs_succ]
    exact List.cons_prefix_cons.2 ⟨rfl, List.cons_prefix_cons.2 ⟨rfl, hn⟩⟩
  | minus hnegate h ih | minusPlus hnegate h ih =>
    rw [List.map_cons, Token.operator?_eq_none (isOperand_of_negate hnegate).2] at hnext
    cases (List.cons_prefix_cons.1 hnext).1
  | @keep after token tokens folded hkeep h ih =>
    have htoken := (List.cons_prefix_cons.1 hnext).1
    cases token with
    | literal text => cases htoken
    | group source negated => cases htoken
    | operator op =>
      obtain rfl := Option.some.inj htoken
      refine ⟨fun hop => hkeep hafter (by rw [hop]), 0, ?_⟩
      exact List.cons_prefix_cons.2 ⟨rfl, List.nil_prefix⟩

/-- **Where neighbouring operators come from**: only pairs of minus signs stood between them. -/
theorem Folds.stranded {after : Bool} {tokens folded : List Token} (h : Folds after tokens folded)
    {op next : Operator} (hpart : [some op, some next] <:+: folded.map Token.operator?) :
    next ≠ .subtract ∧
      ∃ n, some op :: (minusPairs n ++ [some next]) <:+: tokens.map Token.operator? := by
  induction h with
  | nil after => cases List.infix_nil.1 hpart
  | cancel h ih =>
    obtain ⟨hne, n, hn⟩ := ih hpart
    exact ⟨hne, n, List.infix_cons (List.infix_cons hn)⟩
  | minus hnegate h ih =>
    rw [List.map_cons, Token.operator?_eq_none (isOperand_of_negate hnegate).2] at hpart
    rcases List.infix_cons_iff.1 hpart with hfirst | hpart
    · cases (List.cons_prefix_cons.1 hfirst).1
    · obtain ⟨hne, n, hn⟩ := ih hpart
      exact ⟨hne, n, List.infix_cons (List.infix_cons hn)⟩
  | minusPlus hnegate h ih =>
    rw [List.map_cons, Token.operator?_eq_none (isOperand_of_negate hnegate).2] at hpart
    rcases List.infix_cons_iff.1 hpart with hfirst | hpart
    · cases (List.cons_prefix_cons.1 hfirst).1
    · obtain ⟨hne, n, hn⟩ := ih hpart
      exact ⟨hne, n, List.infix_cons (List.infix_cons (List.infix_cons hn))⟩
  | @keep after token tokens folded hkeep h ih =>
    rcases List.infix_cons_iff.1 hpart with hfirst | hpart
    · obtain ⟨htoken, hfirst⟩ := List.cons_prefix_cons.1 hfirst
      have hoperator : token.isOperand = false := by
        cases token with
        | literal text => cases htoken
        | group source negated => cases htoken
        | operator op => rfl
      obtain ⟨hne, n, hn⟩ := h.exists_operator hoperator hfirst
      rw [List.map_cons, ← htoken]
      exact ⟨hne, n, (List.cons_prefix_cons.2 ⟨rfl, hn⟩).isInfix⟩
    · obtain ⟨hne, n, hn⟩ := ih hpart
      exact ⟨hne, n, List.infix_cons hn⟩

end Expression
end DecimalCalc
