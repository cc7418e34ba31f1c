/-
# Numbers as operands

A canonical number may stand in an expression the way it is written: its minus sign is the sign of a
literal, and its digits are the literal.  A further sign may stand in front of it as long as it has
none of its own.

Texts in which a number takes the place of something else are put together here.  For such a text to
belong to the language its outline has to be right at both ends, its characters have to be allowed,
and the number has to read as an operand at its place.  Canonical texts make all of this easy: they
are digits and perhaps a point, with at most one sign in front.  On the other side an evaluation
ends in a canonical number, so its value can be put back into a text, and this is how replacing a
group by its value is made sense of.

* `Decimal.Canonical.magnitude`: the digits of a number as a literal;
* `hasOutline_iff_ends`: the outline of an expression, told by both ends of the text;
* `hasOutline_toChars`: canonical texts have it;
* `exists_literal`: a sign and a canonical text are the text of a literal, which has their value;
* `result_evalLevel_pair`: what a level of two operands finds;
* `Level.Expresses.evaluate_eq`, `exists_expresses`: how a text of the language is evaluated, and
  that only such a text has a value.
-/
import DecimalCalc.Proofs.Expression.Performed
import DecimalCalc.Proofs.NumberText.Canonicalize

namespace DecimalCalc

open Digits

/-! ## 1. Canonical texts

A number is written as its sign and its magnitude, and the magnitude begins and ends with a digit,
since a fraction that is written has digits.  That is what a literal of the language looks like. -/

namespace Decimal

/-- A number is written as its sign and its magnitude. -/
theorem toChars_eq_signChars (x : Decimal) : x.toChars = signChars x.negative ++ x.abs.toChars := by
  rw [toChars, toChars, abs, List.append_assoc]
  rfl

namespace Canonical

variable {x : Decimal} (hx : x.Canonical)
include hx

theorem exists_digit_abs : ∃ first rest, x.abs.toChars = first :: rest ∧ first.isDigit = true := by
  obtain ⟨d, ds, hinteger⟩ := List.exists_cons_of_ne_nil hx.integer_ne_nil
  refine ⟨charOf d, Digits.toChars ds ++ pointChars x.fraction.toChars, ?_, ?_⟩
  · cases hfraction : x.fraction <;>
      simp [toChars, abs, hinteger, hfraction, Digits.toChars, pointChars]
  · exact isDigit_charOf (hx.integer_valid d (by simp [hinteger]))

/-- Digits and a point are all there is in a magnitude. -/
theorem isLiteralPart_of_mem_abs {c : Char} (hc : c ∈ x.abs.toChars) :
    Expression.isLiteralPart c = true := by
  have hdigit : ∀ {ds : Digits}, ds.Valid → c ∈ ds.toChars → Expression.isLiteralPart c = true := by
    intro ds hds hmem
    rw [Expression.isLiteralPart, isDigit_of_mem_toChars hds hmem, Bool.true_or]
  rw [toChars, abs] at hc
  simp only [Bool.false_eq_true, if_false, List.nil_append] at hc
  rcases List.mem_append.1 hc with hc | hc
  · exact hdigit hx.integer_valid hc
  · split at hc
    · cases hc
    · rcases List.mem_cons.1 hc with rfl | hc
      · rfl
      · exact hdigit hx.fraction_valid hc

theorem isDigit_of_getLast_abs : ∀ c ∈ x.abs.toChars.getLast?, c.isDigit = true := by
  intro c hc
  have hne : x.integer.toChars ≠ [] := by simpa [Digits.toChars] using hx.integer_ne_nil
  cases hfraction : x.fraction with
  | nil =>
    have htext : x.abs.toChars = x.integer.toChars := by simp [toChars, abs, hfraction]
    rw [htext] at hc
    exact isDigit_of_mem_toChars hx.integer_valid (List.mem_of_mem_getLast? hc)
  | cons d ds =>
    have htext : x.abs.toChars = x.integer.toChars ++ '.' :: x.fraction.toChars := by
      simp [toChars, abs, hfraction]
    have hlast : x.abs.toChars.getLast? = x.fraction.toChars.getLast? := by
      rw [htext, List.append_cons, List.getLast?_append_of_ne_nil]
      simp [hfraction, Digits.toChars]
    rw [hlast] at hc
    exact isDigit_of_mem_toChars hx.fraction_valid (List.mem_of_mem_getLast? hc)

/-- The number without its sign, as a literal. -/
def magnitude : Expression.LiteralText where
  chars := x.abs.toChars
  ne_nil := by
    obtain ⟨first, rest, htext, -⟩ := hx.exists_digit_abs
    rw [htext]
    exact List.cons_ne_nil _ _
  valid := fun _ hc => hx.isLiteralPart_of_mem_abs hc

/-- The text of the magnitude denotes the magnitude of the value. -/
theorem denotes_abs : Denotes x.abs.toChars |x.value| := by
  have habs := denotes_toString (abs_canonical hx)
  rwa [Decimal.toString, String.toList_ofList, value_abs] at habs

end Canonical
end Decimal

namespace Expression

/-! ## 2. The outline

The outline is given by a match that looks at the first characters and at the last one.  Texts that
are put together from parts are easier to deal with by their two ends, one of which each part brings
along. -/

/-- The text starts with a digit, which one parenthesis or minus sign may stand in front of. -/
def StartsExpression (cs : List Char) : Prop :=
  ∃ opening first, opening ∈ [[], ['('], ['-']] ∧ first.isDigit = true ∧ opening ++ [first] <+: cs

/-- **The outline is told by both ends** of a text of allowed characters. -/
theorem hasOutline_iff_ends {cs : List Char} : HasOutline cs ↔ StartsExpression cs ∧
    (∀ c ∈ cs, isAllowed c = true) ∧ ∀ c ∈ cs.getLast?, isEnding c = true := by
  constructor
  · intro h
    refine ⟨?_, h.isAllowed, ?_⟩
    · obtain ⟨opening, first, rest, hopening, rfl, hfirst, -, -⟩ := h
      exact ⟨opening, first, hopening, hfirst, rest, by simp⟩
    · obtain ⟨opening, first, rest, -, rfl, hfirst, -, hend⟩ := h
      intro c hc
      rw [List.getLast?_append_of_ne_nil _ (List.cons_ne_nil _ _), List.getLast?_cons] at hc
      cases hlast : rest.getLast? with
      | none =>
        rw [hlast] at hc
        rw [← Option.some.inj hc]
        simp [isEnding, hfirst]
      | some d =>
        rw [hlast] at hc
        exact hend c (hlast.trans hc)
  · rintro ⟨⟨opening, first, hopening, hfirst, rest, rfl⟩, hallowed, hend⟩
    refine ⟨opening, first, rest, hopening, by simp, hfirst, fun c hc => ?_, fun c hc => ?_⟩
    · exact hallowed c (List.mem_append_right _ hc)
    · refine hend c ?_
      rw [List.getLast?_append_of_ne_nil _ (List.ne_nil_of_mem (List.mem_of_mem_getLast? hc))]
      exact hc

theorem HasOutline.ne_nil {cs : List Char} (h : HasOutline cs) : cs ≠ [] := by
  obtain ⟨opening, first, rest, -, rfl, -⟩ := h
  simp

/-- How a text starts does not depend on what follows. -/
theorem StartsExpression.append {cs : List Char} (h : StartsExpression cs) (ds : List Char) :
    StartsExpression (cs ++ ds) := by
  obtain ⟨opening, first, hopening, hfirst, hprefix⟩ := h
  exact ⟨opening, first, hopening, hfirst, hprefix.trans (List.prefix_append cs ds)⟩

theorem isAllowed_of_isLiteralPart {c : Char} (h : isLiteralPart c = true) : isAllowed c = true := by
  rw [isLiteralPart, Bool.or_eq_true, beq_iff_eq] at h
  rcases h with h | rfl
  · rw [isAllowed, h, Bool.true_or]
  · rfl

theorem isBlank_of_isAllowed {c : Char} (h : isAllowed c = true) : Text.isBlank c = false := by
  rcases isAllowed_cases h with hc | rfl | rfl | ⟨op, hop⟩
  · rw [isLiteralPart, Bool.or_eq_true, beq_iff_eq] at hc
    rcases hc with hc | rfl
    · exact isBlank_of_isDigit hc
    · decide
  · decide
  · decide
  · rw [← Operator.symbol_of_ofChar? hop]
    cases op <;> decide

theorem hasOutline_toChars {x : Decimal} (hx : x.Canonical) : HasOutline x.toChars := by
  obtain ⟨first, rest, htext, hfirst⟩ := hx.exists_digit_abs
  rw [hasOutline_iff_ends, x.toChars_eq_signChars]
  refine ⟨⟨signChars x.negative, first, ?_, hfirst, rest, by simp [htext]⟩, ?_, ?_⟩
  · cases x.negative <;> simp [signChars]
  · refine List.forall_mem_append.2 ⟨?_, fun c hc => ?_⟩
    · cases x.negative <;> simp [signChars, isAllowed]
    · exact isAllowed_of_isLiteralPart (hx.isLiteralPart_of_mem_abs hc)
  · intro c hc
    rw [List.getLast?_append_of_ne_nil _ (by rw [htext]; exact List.cons_ne_nil _ _)] at hc
    rw [isEnding, hx.isDigit_of_getLast_abs c hc, Bool.true_or]

/-! ## 3. Numbers behind a sign

A sign in front of a negative number would stand in front of another sign.  Where the number has
none, the sign becomes the literal's own, and its effect on the value is that of a sign. -/

/-- What occurs around a text it has nothing in common with, occurs in front of it or behind it.
Patterns of operators are looked for in this way around a number. -/
theorem infix_of_disjoint {pattern cs mid ds : List Char} (hmid : mid ≠ [])
    (hdisjoint : ∀ c ∈ mid, c ∉ pattern) (h : pattern <:+: cs ++ mid ++ ds) :
    pattern <:+: cs ∨ pattern <:+: ds := by
  have hnil : ∀ {part : List Char}, (∀ c ∈ part, c ∈ mid) → (∀ c ∈ part, c ∈ pattern) → part = [] :=
    fun hpart hpattern => List.eq_nil_iff_forall_not_mem.2 fun c hc =>
      hdisjoint c (hpart c hc) (hpattern c hc)
  rcases List.infix_append_iff.1 h with h | h | ⟨left, right, rfl, hleft, hright⟩
  · rcases List.infix_append_iff.1 h with h | h | ⟨left, right, rfl, hleft, hright⟩
    · exact .inl h
    · rw [hnil (fun c hc => h.subset hc) fun c hc => hc]
      exact .inl List.nil_infix
    · rw [hnil (fun c hc => hright.subset hc) fun c hc => List.mem_append_right _ hc, List.append_nil]
      exact .inl hleft.isInfix
  · exact .inr h
  · have hleftNil : left = [] := by
      obtain ⟨cut, hcut⟩ := hleft
      by_contra hne
      have hlast : left.getLast? = mid.getLast? := by
        rw [← List.getLast?_append_of_ne_nil cut hne, hcut, List.getLast?_append_of_ne_nil cs hmid]
      rw [List.getLast?_eq_some_getLast hmid] at hlast
      exact hdisjoint _ (List.getLast_mem hmid)
        (List.mem_append_left _ (List.mem_of_mem_getLast? hlast))
    rw [hleftNil, List.nil_append]
    exact .inr hright.isInfix

/-- **A sign and a canonical text are the text of a literal**, which denotes their value, unless the
number has a sign of its own. -/
theorem exists_literal {x : Decimal} (hx : x.Canonical) {sign : Sign}
    (h : 0 ≤ x.value ∨ sign = .absent) : ∃ (sign' : Sign) (text : LiteralText),
      (Operand.literal sign' text).toChars = sign.toChars ++ x.toChars ∧
        Denotes (text.signed sign') (if sign.negative then -x.value else x.value) := by
  have hdenotes : Denotes hx.magnitude.chars |x.value| := hx.denotes_abs
  by_cases hnegative : x.negative = true
  · have hlt := hx.negative_iff.1 hnegative
    obtain rfl : sign = .absent := h.resolve_left (not_le.2 hlt)
    refine ⟨.minus, hx.magnitude, ?_, ?_⟩
    · rw [x.toChars_eq_signChars, hnegative]
      rfl
    · have hsigned := hx.magnitude.denotes_signed hdenotes .minus
      rw [abs_of_neg hlt] at hsigned
      simpa [Sign.negative] using hsigned
  · have hnonneg : 0 ≤ x.value := not_lt.1 fun hlt => hnegative (hx.negative_iff.2 hlt)
    rw [Bool.not_eq_true] at hnegative
    refine ⟨sign, hx.magnitude, ?_, ?_⟩
    · rw [x.toChars_eq_signChars, hnegative]
      rfl
    · have hsigned := hx.magnitude.denotes_signed hdenotes sign
      rwa [abs_of_nonneg hnonneg] at hsigned

/-- A literal that denotes the value of a canonical number is evaluated to the number, with nothing
left behind. -/
theorem evalNode_of_denotes {cap : Nat} {text : List Char} {x : Decimal} (hx : x.Canonical)
    (h : Denotes text x.value) : evalNode cap (.literal text) = pure x := by
  obtain ⟨y, hy, hcanonical, hvalue⟩ := denotes_iff.1 h
  rw [evalNode, hy, hcanonical.ext_value hx hvalue]
  rfl

/-! ## 4. Two numbers

A level of two operands evaluates both and carries out one operation; there is no order to choose.
Its result is that of the operation on the numbers. -/

theorem executionOrder_singleton (step : Step) : executionOrder [step] = [step] := by
  cases hop : step.op <;> simp [executionOrder, hop, Operator.rank]

/-- An operation finds what it is on numbers; the events and the record do not count for the
result. -/
theorem result_apply (cap : Nat) (op : Operator) (x y : Decimal) : (apply cap op x y).result =
    ((operate cap op x y).map Prod.fst).mapError .numeric := by
  cases hoperate : operate cap op x y with
  | error e => rw [apply_of_error hoperate]; rfl
  | ok found => rw [apply_of_ok hoperate]; rfl

/-- **A level of two operands** finds what their operation finds. -/
theorem result_evalLevel_pair {cap : Nat} {node node' : Node} {x y : Decimal} (op : Operator)
    (hnode : (evalNode cap node).result = .ok x) (hnode' : (evalNode cap node').result = .ok y) :
    (evalLevel cap [node, .operator op, node']).result =
      ((operate cap op x y).map Prod.fst).mapError .numeric := by
  have hsteps : (evalSteps cap [.operator op, node']).result = .ok [⟨op, y⟩] := by
    rw [evalSteps, Traced.result_bind, hnode', evalSteps]
    rfl
  have hrun : (runSteps cap x [⟨op, y⟩]).result = (apply cap op x y).result := by
    rw [runSteps_cons]
    exact congrArg Traced.result (bind_pure (apply cap op x y))
  rw [evalLevel_cons, Traced.bind_of_ok hnode, Traced.bind_of_ok hsteps, executionOrder_singleton,
    hrun, result_apply]

/-! ## 5. Texts with a value

The language and the evaluation are connected in both directions.  A text of the language is
evaluated as its level is, and a text with a value is one of the language. -/

/-- **A text of the language is evaluated as its level is**, lifted as it is in the tree. -/
theorem Level.Expresses.evaluate_eq {cap : Nat} {expression : String} {level : Level}
    (h : level.Expresses (Text.trim expression.toList)) : evaluate cap expression =
      (evalLevel cap (liftRuns level.nodes)).result.map Decimal.toString := by
  rw [evaluate, run_of_ofTrimmed h.ofTrimmed, Traced.bind_of_ok (a := ()) rfl]
  cases hresult : (evalLevel cap (liftRuns level.nodes)).result with
  | error e => rw [Traced.bind_of_error hresult]; rfl
  | ok x => rw [Traced.bind_of_ok hresult]; rfl

/-- Whatever the shape of a level, a value that it has is canonical. -/
theorem canonical_of_evalLevel {cap : Nat} {level : List Node} {x : Decimal}
    (h : (evalLevel cap level).result = .ok x) : x.Canonical := by
  obtain ⟨ps, -, -, hfinishes⟩ := @executes_evalLevel cap level
  rw [h] at hfinishes
  exact (hfinishes x rfl).canonical

/-- **Only a text of the language has a value**, and it is that of its level. -/
theorem exists_expresses {cap : Nat} {expression value : String}
    (h : evaluate cap expression = .ok value) : ∃ (level : Level) (x : Decimal),
      level.Expresses (Text.trim expression.toList) ∧ x.Canonical ∧
        (evalLevel cap (liftRuns level.nodes)).result = .ok x ∧ value = x.toString := by
  have hlanguage : InLanguage (Text.trim expression.toList) := by
    cases hread : Tree.ofTrimmed (Text.trim expression.toList) with
    | error e =>
      rw [evaluate, run, hread] at h
      cases h
    | ok tree =>
      rw [evaluate, run_of_ofTrimmed hread] at h
      obtain ⟨-, -, h⟩ := Traced.ok_of_bind h
      obtain ⟨x, hx, -⟩ := Traced.ok_of_bind h
      exact inLanguage_of_ofTrimmed hread (levelFormed_of_ok _ hx)
  obtain ⟨level, hlevel⟩ := hlanguage
  rw [hlevel.evaluate_eq] at h
  cases hresult : (evalLevel cap (liftRuns level.nodes)).result with
  | error e =>
    rw [hresult] at h
    cases h
  | ok x =>
    rw [hresult] at h
    exact ⟨level, x, hlevel, canonical_of_evalLevel hresult, hresult, (Except.ok.inj h).symm⟩

end Expression
end DecimalCalc
