/-
# The gate

Before an expression is taken apart, its text has to pass a list of rules about single characters
and neighbouring ones.  They are asked in order and the first one broken is reported.

The gate knows nothing of numbers or of nesting.  It sees to it that the text holds no foreign
characters, begins and ends like an expression, and has no two neighbours that could not stand
beside each other anywhere.  Much passes that is no expression: operators in a row that are not
caught by a rule, parentheses that do not match, literals with two points.  These are reported
later, by the step that meets them.  What the gate promises to the later steps is mostly about
neighbours: after it, a group has something in it, and groups and literals never touch.

* `gate_eq_ok_iff`: a text passes when it breaks no rule;
* `outlined_iff`: which texts have the outline of an expression.
-/
import DecimalCalc.Expression.Error
import DecimalCalc.Text.Search

namespace DecimalCalc
namespace Expression

/-! ## 1. The outline

The outline is a matter of the first characters, of the last one, and of the alphabet in between.
An opening parenthesis or a minus sign may come first, but not both, so an expression that begins
with two parentheses is refused here. -/

/-- A character that may stand inside an expression: the digits, the point, the operators and the
parentheses.  Blanks and the letters of an exponent are not among them. -/
def isAllowed (c : Char) : Bool := c.isDigit || ['.', '+', '-', '*', '/', '(', ')'].contains c

/-- A character that may end an expression.  A point may not, although a number text can end in
one. -/
def isEnding (c : Char) : Bool := c.isDigit || c == ')'

/-- Passes over one parenthesis or minus sign at the start.  What follows has to begin with a
digit. -/
def skipOpening : List Char → List Char
  | '(' :: cs => cs
  | '-' :: cs => cs
  | cs => cs

/-- The outline of an expression: after an optional parenthesis or minus sign a digit, then only
allowed characters, with a digit or a closing parenthesis at the end. -/
def outlined (cs : List Char) : Bool :=
  match skipOpening cs with
  | [] => false
  | first :: rest =>
    first.isDigit && rest.all isAllowed && isEnding ((first :: rest).getLast (List.cons_ne_nil _ _))

/-- The outline in terms of its characters.  Proofs about texts that pass use it instead of opening
the match. -/
theorem outlined_iff {cs : List Char} :
    outlined cs = true ↔ ∃ first rest, skipOpening cs = first :: rest ∧ first.isDigit = true ∧
      (∀ c ∈ rest, isAllowed c = true) ∧
        isEnding ((first :: rest).getLast (List.cons_ne_nil _ _)) = true := by
  unfold outlined
  split
  · next h => simp [h]
  · next first rest h =>
    rw [h]
    simp [and_assoc]

/-! ## 2. The rules

Each rule is an error and the condition that breaks it.  All of them but the first look for a place
in the text, most of them for two neighbouring characters of certain kinds. -/

/-- A character of a literal, as the gate sees it: no sign and no exponent. -/
def isLiteralPart (c : Char) : Bool := c.isDigit || c == '.'

/-- Three minus signs, or two equal operators of another kind, in a row.  Two minus signs may
follow each other, since the second one can be a sign. -/
def hasDuplicateOperator (cs : List Char) : Bool :=
  Text.occurs ['-', '-', '-'] cs || Text.adjacent (fun a b => a == b && ['+', '*', '/'].contains a) cs

/-- An additive operator directly before a multiplicative one.  The other way round the additive
one can be a sign. -/
def hasIllegalSequence (cs : List Char) : Bool :=
  Text.adjacent (fun a b => ['-', '+'].contains a && ['*', '/'].contains b) cs

/-- What breaks each rule, in the order in which the rules are asked.  A text that breaks several
is reported for the first. -/
def rules : List (SyntaxError × (List Char → Bool)) :=
  [(.disallowedCharacter, fun cs => !outlined cs),
   (.duplicateOperator, hasDuplicateOperator),
   (.illegalOperatorSequence, hasIllegalSequence),
   (.adjacentParentheses, Text.adjacent fun a b => a == ')' && b == '('),
   (.emptyParentheses, Text.adjacent fun a b => a == '(' && b == ')'),
   (.digitAfterParenthesis, Text.adjacent fun a b => a == ')' && isLiteralPart b),
   (.parenthesisAfterDigit, Text.adjacent fun a b => isLiteralPart a && b == '(')]

/-- Reports the first broken rule, and nothing about the others. -/
def gate (cs : List Char) : Except SyntaxError Unit :=
  match rules.find? fun rule => rule.2 cs with
  | some rule => .error rule.1
  | none => .ok ()

theorem gate_eq_ok_iff {cs : List Char} :
    gate cs = .ok () ↔ ∀ rule ∈ rules, rule.2 cs = false := by
  unfold gate
  split
  · next rule h =>
    have := List.mem_of_find?_eq_some h
    have := List.find?_some h
    simp only [reduceCtorEq, false_iff]
    intro hall
    simp_all
  · next h => simpa using h

end Expression
end DecimalCalc
