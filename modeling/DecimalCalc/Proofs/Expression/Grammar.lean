/-
# The language of expressions

The language is given by what its texts are made of, without reading any of them:

    level   := operand (operator operand)*
    operand := sign? atom
    sign    := '-' | '--' | '-+'
    atom    := literal | '(' level ')'

A derivation is a `Level`, and `Level.toChars` writes its text.  The texts of the language are the
derived ones that have the outline of an expression, hold no three minus signs in a row and do not
nest too deeply; nothing is said here about what the numbers in them mean.

The grammar says what an expression is to someone who writes one; the gate, the scanner, the folding
and the order of the nodes are how the program finds out.  That both agree is proved in two
directions elsewhere.  This module contributes that a text of the language passes the gate, which
only looks at the outline and at neighbours.  The outline and the triple minus sign are conditions
of the language as they stand.  All rules about neighbours follow from the derivation: operands
begin and end with certain characters, and between two operands there is an operator.

* `Level.isChain`: in a derived text, neighbours break no rule of the gate;
* `Level.Expresses.gate`: so every text of the language passes the gate;
* `of_gate`: what the gate says about a text that passes it.
-/
import DecimalCalc.Expression.Gate
import DecimalCalc.Expression.Token
import Mathlib.Data.List.Chain

namespace DecimalCalc
namespace Expression

/-! ## 1. Derivations

Derivations are two mutual types, one for operands and one for levels, and their texts and depths
are calculated along them.  A level has at least one operand by its type, and its operators stand
between operands by the way they are written down. -/

/-- What may stand in front of an operand.  Behind an operator, the first sign of two follows that
operator, so up to three operators can stand in a row. -/
inductive Sign where
  | absent
  | minus
  | minusMinus
  | minusPlus
deriving DecidableEq, Repr

namespace Sign

def toChars : Sign → List Char
  | .absent => []
  | .minus => ['-']
  | .minusMinus => ['-', '-']
  | .minusPlus => ['-', '+']

/-- Two minus signs cancel, a plus sign counts for nothing. -/
def negative : Sign → Bool
  | .absent | .minusMinus => false
  | .minus | .minusPlus => true

end Sign

/-- The text of a literal: digits and points in any order. -/
structure LiteralText where
  chars : List Char
  ne_nil : chars ≠ []
  valid : ∀ c ∈ chars, isLiteralPart c = true

mutual

/-- A signed atom. -/
inductive Operand where
  | literal (sign : Sign) (text : LiteralText)
  | group (sign : Sign) (level : Level)

/-- Operands with operators between them. -/
inductive Level where
  | single (operand : Operand)
  | join (operand : Operand) (op : Operator) (rest : Level)

end

mutual

/-- The text of an operand: its sign, and the literal or the level in parentheses. -/
def Operand.toChars : Operand → List Char
  | .literal sign text => sign.toChars ++ text.chars
  | .group sign level => sign.toChars ++ '(' :: (level.toChars ++ [')'])

/-- The text of a level. -/
def Level.toChars : Level → List Char
  | .single operand => operand.toChars
  | .join operand op rest => operand.toChars ++ op.symbol :: rest.toChars

end

mutual

/-- How many groups are nested in an operand, its own parentheses included. -/
def Operand.depth : Operand → Nat
  | .literal _ _ => 0
  | .group _ level => level.depth + 1

/-- How many groups are nested in a level. -/
def Level.depth : Level → Nat
  | .single operand => operand.depth
  | .join operand _ rest => max operand.depth rest.depth

end

/-! ## 2. The language

A derivation alone allows more than the language has: texts that begin with two parentheses, that
nest without limit, or that have three minus signs in a row where a sign stands behind a minus.
These are excluded by conditions on the text. -/

/-- The outline of an expression: an optional parenthesis or minus sign, a digit, and, if the text
goes on, allowed characters with a digit or a closing parenthesis at the end. -/
def HasOutline (cs : List Char) : Prop :=
  ∃ opening first rest, opening ∈ [[], ['('], ['-']] ∧ cs = opening ++ first :: rest ∧
    first.isDigit = true ∧ (∀ c ∈ rest, isAllowed c = true) ∧
      ∀ c ∈ rest.getLast?, isEnding c = true

/-- The text belongs to the language, and the level derives it.  One text may have several
derivations, when a minus can be a sign or an operator. -/
structure Level.Expresses (level : Level) (cs : List Char) : Prop where
  outline : HasOutline cs
  toChars_eq : level.toChars = cs
  no_triple_minus : ¬ ['-', '-', '-'] <:+: cs
  depth_le : level.depth ≤ maxNestingDepth

/-- The language of expressions. -/
def InLanguage (cs : List Char) : Prop := ∃ level : Level, level.Expresses cs

/-- The outline is what the gate asks for first; it is stated here in terms of the characters. -/
theorem hasOutline_iff {cs : List Char} : HasOutline cs ↔ outlined cs = true := by
  have hlast : ∀ {first : Char} {rest : List Char}, first.isDigit = true →
      ((∀ c ∈ rest.getLast?, isEnding c = true) ↔
        isEnding ((first :: rest).getLast (List.cons_ne_nil _ _)) = true) := by
    intro first rest hfirst
    cases rest with
    | nil => simp [isEnding, hfirst]
    | cons c rest => simp [List.getLast?_eq_some_getLast]
  rw [outlined_iff]
  constructor
  · rintro ⟨opening, first, rest, hopening, rfl, hfirst, hrest, hend⟩
    refine ⟨first, rest, ?_, hfirst, hrest, (hlast hfirst).1 hend⟩
    simp only [List.mem_cons, List.not_mem_nil, or_false] at hopening
    rcases hopening with rfl | rfl | rfl
    · -- a digit opens nothing
      rw [List.nil_append]
      unfold skipOpening
      split
      · next h =>
        rw [(List.cons.inj h).1] at hfirst
        exact absurd hfirst (by decide)
      · next h =>
        rw [(List.cons.inj h).1] at hfirst
        exact absurd hfirst (by decide)
      · rfl
    · rfl
    · rfl
  · rintro ⟨first, rest, hskip, hfirst, hrest, hend⟩
    unfold skipOpening at hskip
    split at hskip
    · exact ⟨['('], first, rest, by simp, by rw [hskip]; rfl, hfirst, hrest, (hlast hfirst).2 hend⟩
    · exact ⟨['-'], first, rest, by simp, by rw [hskip]; rfl, hfirst, hrest, (hlast hfirst).2 hend⟩
    · exact ⟨[], first, rest, by simp, hskip, hfirst, hrest, (hlast hfirst).2 hend⟩

/-- What is to be checked of a derivation can be computed. -/
theorem Level.Expresses.of_checks {level : Level} {cs : List Char} (houtline : outlined cs = true)
    (htext : level.toChars = cs) (htriple : Text.occurs ['-', '-', '-'] cs = false)
    (hdepth : level.depth ≤ maxNestingDepth) : level.Expresses cs :=
  ⟨hasOutline_iff.2 houtline, htext, by rw [← Text.occurs_iff, htriple]; exact Bool.false_ne_true,
    hdepth⟩

/-! ## 3. Neighbours in a derived text

What may stand beside what is a relation on two characters, read off the gate's rules.
Operators may stand beside anything that an operand begins or ends with, and parentheses may
stand around it. -/

/-- A part of a literal is no operator and no parenthesis. -/
theorem ne_of_isLiteralPart {c : Char} (h : isLiteralPart c = true) :
    c ≠ '+' ∧ c ≠ '-' ∧ c ≠ '*' ∧ c ≠ '/' ∧ c ≠ '(' ∧ c ≠ ')' := by
  refine ⟨?_, ?_, ?_, ?_, ?_, ?_⟩ <;> rintro rfl <;> exact absurd h (by decide)

/-- No rule about neighbours forbids `b` behind `a`.  All rules of the gate that look at two
characters are in it. -/
def mayFollow (a b : Char) : Bool :=
  !(a == b && ['+', '*', '/'].contains a) && !(['-', '+'].contains a && ['*', '/'].contains b) &&
    !(a == ')' && b == '(') && !(a == '(' && b == ')') && !(a == ')' && isLiteralPart b) &&
      !(isLiteralPart a && b == '(')

/-- The characters that a signless operand may start with. -/
def StartsAtom (c : Char) : Prop := c = '(' ∨ isLiteralPart c = true

/-- The characters that an operand may start with. -/
def StartsOperand (c : Char) : Prop := c = '-' ∨ StartsAtom c

/-- The characters that an operand may end with. -/
def EndsOperand (c : Char) : Prop := c = ')' ∨ isLiteralPart c = true

/-- An operand may follow any operator: what starts it is forbidden behind none. -/
theorem mayFollow_operator (op : Operator) {c : Char} (h : StartsOperand c) :
    mayFollow op.symbol c = true := by
  rcases h with rfl | rfl | h
  · cases op <;> decide
  · cases op <;> decide
  · have hne := ne_of_isLiteralPart h
    have hop : isLiteralPart op.symbol = false := by cases op <;> decide
    have heq : (op.symbol == c) = false := by
      rw [beq_eq_false_iff_ne]
      rintro rfl
      rw [hop] at h
      cases h
    cases op <;> simp_all [mayFollow, Operator.symbol]

theorem operator_mayFollow {c : Char} (h : EndsOperand c) (op : Operator) :
    mayFollow c op.symbol = true := by
  rcases h with rfl | h
  · cases op <;> decide
  · have hne := ne_of_isLiteralPart h
    cases op <;> simp [mayFollow, Operator.symbol, hne]

theorem mayFollow_opening {c : Char} (h : StartsOperand c) : mayFollow '(' c = true := by
  rcases h with rfl | rfl | h
  · decide
  · decide
  · have hne := ne_of_isLiteralPart h
    have hopening : isLiteralPart '(' = false := by decide
    simp [mayFollow, hne, hopening]

theorem closing_mayFollow {c : Char} (h : EndsOperand c) : mayFollow c ')' = true := by
  rcases h with rfl | h
  · decide
  · have hne := ne_of_isLiteralPart h
    simp [mayFollow, hne]

theorem LiteralText.isChain (text : LiteralText) :
    text.chars.IsChain fun a b => mayFollow a b = true := by
  apply List.Pairwise.isChain
  apply List.pairwise_of_forall_mem_list
  intro a ha b hb
  have hane := ne_of_isLiteralPart (text.valid a ha)
  have hbne := ne_of_isLiteralPart (text.valid b hb)
  simp [mayFollow, hane, hbne]

/-- A sign may stand in front of what starts without one. -/
theorem Sign.isChain_append (sign : Sign) {cs : List Char}
    (h : cs.IsChain fun a b => mayFollow a b = true) (hstart : ∀ c ∈ cs.head?, StartsAtom c) :
    (sign.toChars ++ cs).IsChain fun a b => mayFollow a b = true := by
  have hminus : ∀ c ∈ cs.head?, mayFollow '-' c = true := fun c hc =>
    mayFollow_operator .subtract (.inr (hstart c hc))
  have hplus : ∀ c ∈ cs.head?, mayFollow '+' c = true := fun c hc =>
    mayFollow_operator .add (.inr (hstart c hc))
  cases sign with
  | absent => exact h
  | minus => exact List.isChain_cons.2 ⟨hminus, h⟩
  | minusMinus => exact List.isChain_cons_cons.2 ⟨by decide, List.isChain_cons.2 ⟨hminus, h⟩⟩
  | minusPlus => exact List.isChain_cons_cons.2 ⟨by decide, List.isChain_cons.2 ⟨hplus, h⟩⟩

theorem Sign.startsOperand (sign : Sign) {cs : List Char} (hstart : ∀ c ∈ cs.head?, StartsAtom c) :
    ∀ c ∈ (sign.toChars ++ cs).head?, StartsOperand c := by
  intro c hc
  cases sign with
  | absent => exact .inr (hstart c hc)
  | minus => exact .inl (Option.some.inj hc).symm
  | minusMinus => exact .inl (Option.some.inj hc).symm
  | minusPlus => exact .inl (Option.some.inj hc).symm

theorem LiteralText.startsAtom (text : LiteralText) : ∀ c ∈ text.chars.head?, StartsAtom c :=
  fun c hc => .inr (text.valid c (List.mem_of_mem_head? hc))

theorem Operand.toChars_ne_nil (operand : Operand) : operand.toChars ≠ [] := by
  cases operand with
  | literal sign text => simp [Operand.toChars, text.ne_nil]
  | group sign level => simp [Operand.toChars]

/-- An operand starts with a minus sign, a parenthesis or a literal. -/
theorem Operand.startsOperand (operand : Operand) :
    ∀ c ∈ operand.toChars.head?, StartsOperand c := by
  cases operand with
  | literal sign text =>
    rw [Operand.toChars]
    exact sign.startsOperand text.startsAtom
  | group sign level =>
    rw [Operand.toChars]
    exact sign.startsOperand fun c hc => .inl (Option.some.inj hc).symm

theorem Operand.endsOperand (operand : Operand) :
    ∀ c ∈ operand.toChars.getLast?, EndsOperand c := by
  intro c hc
  cases operand with
  | literal sign text =>
    rw [Operand.toChars, List.getLast?_append_of_ne_nil _ text.ne_nil] at hc
    exact .inr (text.valid c (List.mem_of_mem_getLast? hc))
  | group sign level =>
    rw [Operand.toChars, ← List.cons_append, ← List.append_assoc, List.getLast?_concat] at hc
    exact .inl (Option.some.inj hc).symm

theorem Level.startsOperand (level : Level) : ∀ c ∈ level.toChars.head?, StartsOperand c := by
  cases level with
  | single operand => exact operand.startsOperand
  | join operand op rest =>
    rw [Level.toChars, List.head?_append_of_ne_nil _ operand.toChars_ne_nil]
    exact operand.startsOperand

theorem Level.toChars_ne_nil (level : Level) : level.toChars ≠ [] := by
  cases level with
  | single operand => exact operand.toChars_ne_nil
  | join operand op rest => simp [Level.toChars]

theorem Level.endsOperand : ∀ level : Level, ∀ c ∈ level.toChars.getLast?, EndsOperand c
  | .single operand => operand.endsOperand
  | .join operand op rest => by
    have hlast : (operand.toChars ++ op.symbol :: rest.toChars).getLast? = rest.toChars.getLast? := by
      rw [List.append_cons, List.getLast?_append_of_ne_nil _ rest.toChars_ne_nil]
    rw [Level.toChars, hlast]
    exact rest.endsOperand

mutual

/-- Inside an operand neighbours break no rule: in a literal, behind a sign, and at both
parentheses. -/
theorem Operand.isChain : ∀ operand : Operand,
    operand.toChars.IsChain fun a b => mayFollow a b = true
  | .literal sign text => sign.isChain_append text.isChain text.startsAtom
  | .group sign level => by
    have hclosed : (level.toChars ++ [')']).IsChain fun a b => mayFollow a b = true := by
      refine level.isChain.append (List.isChain_singleton _) ?_
      intro a ha b hb
      rw [← Option.some.inj hb]
      exact closing_mayFollow (level.endsOperand a ha)
    have hopened : ('(' :: (level.toChars ++ [')'])).IsChain fun a b => mayFollow a b = true := by
      refine List.isChain_cons.2 ⟨?_, hclosed⟩
      intro b hb
      rw [List.head?_append_of_ne_nil _ level.toChars_ne_nil] at hb
      exact mayFollow_opening (level.startsOperand b hb)
    exact sign.isChain_append hopened fun c hc => .inl (Option.some.inj hc).symm

/-- **In a derived text, neighbours break no rule.** -/
theorem Level.isChain : ∀ level : Level, level.toChars.IsChain fun a b => mayFollow a b = true
  | .single operand => operand.isChain
  | .join operand op rest => by
    have hrest : (op.symbol :: rest.toChars).IsChain fun a b => mayFollow a b = true :=
      List.isChain_cons.2 ⟨fun b hb => mayFollow_operator op (rest.startsOperand b hb), rest.isChain⟩
    refine operand.isChain.append hrest ?_
    intro a ha b hb
    rw [← Option.some.inj hb]
    exact operator_mayFollow (operand.endsOperand a ha) op

end

/-! ## 4. The gate

A rule of the gate that looks for two neighbours is kept if they may all follow each other.  The
remaining rules are the conditions that the language makes on the text itself. -/

/-- If no neighbours are of a kind, the search for such neighbours fails. -/
theorem adjacent_eq_false {p : Char → Char → Bool} : ∀ {cs : List Char},
    (cs.IsChain fun a b => p a b = false) → Text.adjacent p cs = false
  | [], _ => rfl
  | [_], _ => rfl
  | a :: b :: cs, h => by
    obtain ⟨hab, h⟩ := List.isChain_cons_cons.1 h
    rw [Text.adjacent, hab, adjacent_eq_false h]
    rfl

theorem mayFollow_iff {a b : Char} : mayFollow a b = true ↔
    (a == b && ['+', '*', '/'].contains a) = false ∧
    (['-', '+'].contains a && ['*', '/'].contains b) = false ∧
    (a == ')' && b == '(') = false ∧ (a == '(' && b == ')') = false ∧
    (a == ')' && isLiteralPart b) = false ∧ (isLiteralPart a && b == '(') = false := by
  simp only [mayFollow, Bool.and_eq_true, Bool.not_eq_true', and_assoc]

/-- **Every text of the language passes the gate.** -/
theorem Level.Expresses.gate {level : Level} {cs : List Char} (h : level.Expresses cs) :
    gate cs = .ok () := by
  have hchain := level.isChain
  rw [h.toChars_eq] at hchain
  have hadjacent : ∀ {p : Char → Char → Bool},
      (∀ a b, mayFollow a b = true → p a b = false) → Text.adjacent p cs = false :=
    fun hp => adjacent_eq_false (hchain.imp hp)
  have htriple : Text.occurs ['-', '-', '-'] cs = false := by
    rw [← Bool.not_eq_true, Text.occurs_iff]
    exact h.no_triple_minus
  rw [gate_eq_ok_iff]
  intro rule hrule
  simp only [rules, List.mem_cons, List.not_mem_nil, or_false] at hrule
  rcases hrule with rfl | rfl | rfl | rfl | rfl | rfl | rfl
  · simp only [hasOutline_iff.1 h.outline, Bool.not_true]
  · simp only [hasDuplicateOperator, htriple, Bool.false_or]
    exact hadjacent fun a b hab => (mayFollow_iff.1 hab).1
  · exact hadjacent fun a b hab => (mayFollow_iff.1 hab).2.1
  · exact hadjacent fun a b hab => (mayFollow_iff.1 hab).2.2.1
  · exact hadjacent fun a b hab => (mayFollow_iff.1 hab).2.2.2.1
  · exact hadjacent fun a b hab => (mayFollow_iff.1 hab).2.2.2.2.1
  · exact hadjacent fun a b hab => (mayFollow_iff.1 hab).2.2.2.2.2

/-- A text that passes the gate has the outline of an expression, and no three minus signs in a
row.  These two are what membership asks besides a derivation. -/
theorem of_gate {cs : List Char} (h : gate cs = .ok ()) :
    HasOutline cs ∧ ¬ ['-', '-', '-'] <:+: cs := by
  rw [gate_eq_ok_iff] at h
  have houtline := h (.disallowedCharacter, fun cs => !outlined cs) (by simp [rules])
  have hduplicate : hasDuplicateOperator cs = false :=
    h (.duplicateOperator, hasDuplicateOperator) (by simp [rules])
  rw [hasDuplicateOperator, Bool.or_eq_false_iff] at hduplicate
  refine ⟨hasOutline_iff.2 (by simpa using houtline), ?_⟩
  rw [← Text.occurs_iff, hduplicate.1]
  exact Bool.false_ne_true

/-- A text with the outline of an expression holds allowed characters only. -/
theorem HasOutline.isAllowed {cs : List Char} (h : HasOutline cs) :
    ∀ c ∈ cs, isAllowed c = true := by
  obtain ⟨opening, first, rest, hopening, rfl, hfirst, hrest, -⟩ := h
  intro c hc
  rcases List.mem_append.1 hc with hc | hc
  · simp only [List.mem_cons, List.not_mem_nil, or_false] at hopening
    rcases hopening with rfl | rfl | rfl
    · cases hc
    · rw [List.mem_singleton.1 hc]
      decide
    · rw [List.mem_singleton.1 hc]
      decide
  · rcases List.mem_cons.1 hc with rfl | hc
    · simp [Expression.isAllowed, hfirst]
    · exact hrest c hc

end Expression
end DecimalCalc
