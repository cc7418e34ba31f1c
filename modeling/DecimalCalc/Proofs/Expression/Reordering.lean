/-
# What a run depends on

A run is evaluated in two stages: its factors are multiplied, which is exact, and the product is
divided by the divisors, one after the other, which may cut digits off.  Where a multiplication
stands makes no difference to either stage.  The order of the factors is lost in their product; the
order of the divisors is kept.

So the result of a run is a function of the values of its factors, as a collection, and of the
values of its divisors, as a sequence, and the module makes this a theorem about texts.  A run is
given with both lists of values; the values of operands are those of their terms, so an operand may
be a group with a calculation in it.  Divisions one after the other are written with the operation
on number texts, and the result of the expression is what they come to.  Everything else, that
factors may be permuted or a multiplication moved, follows because the description does not mention
it.

* `exactSteps_of_multiply`, `result_runSteps_divide`: what the steps of each stage come to;
* `foldlM_divide_of_zero`, `exists_foldlM_divide`: when a sequence of divisions ends in a value;
* `Level.IsRun.exists_product`: a run is the product of its factors, divided by its divisors;
* `Level.IsRunOf.evaluate_eq`: so an expression is, on texts;
* `run_depends_on_factors_and_divisors`: and nothing else matters.
-/
import DecimalCalc.Proofs.Expression.FactorsFirst
import DecimalCalc.Proofs.Expression.Numbers
import DecimalCalc.Proofs.NumberText.Division
import Mathlib.Data.List.Perm.Basic

namespace DecimalCalc

/-! ## 1. Divisions one after the other

A sequence of divisions fails if one divisor is zero, since the ones before it have values
whatever they are.  Without a zero it ends in a value, which may have been cut off on the way
several times. -/

section

variable {cap : Nat} {x : Decimal} {divisors : List Decimal}

/-- A zero among the divisors is found, wherever it stands. -/
theorem Decimal.foldlM_divide_of_zero (hzero : ∃ y ∈ divisors, y.value = 0) :
    divisors.foldlM (divide cap) x = .error .divisionByZero := by
  induction divisors generalizing x with
  | nil =>
    obtain ⟨y, hy, -⟩ := hzero
    cases hy
  | cons y divisors ih =>
    rw [List.foldlM_cons]
    by_cases hy : y.value = 0
    · rw [divide_zero hy]
      rfl
    · obtain ⟨q, hq⟩ := exists_divide (x := x) hy cap
      obtain ⟨z, hz, hvalue⟩ := hzero
      rcases List.mem_cons.1 hz with rfl | hz
      · exact absurd hvalue hy
      · rw [hq]
        exact ih ⟨z, hz, hvalue⟩

/-- A sequence of divisions by anything but zero ends in a value. -/
theorem Decimal.exists_foldlM_divide (hne : ∀ y ∈ divisors, y.value ≠ 0) :
    ∃ q, divisors.foldlM (divide cap) x = .ok q := by
  induction divisors generalizing x with
  | nil => exact ⟨x, rfl⟩
  | cons y divisors ih =>
    obtain ⟨hy, hne⟩ := List.forall_mem_cons.1 hne
    obtain ⟨q, hq⟩ := exists_divide (x := x) hy cap
    rw [List.foldlM_cons, hq]
    exact ih hne

/-- **Texts are divided as their numbers are.**  The texts of the divisors may be any that denote
their values. -/
theorem NumberText.foldlM_divide_eq {texts : List String} (hx : x.Canonical)
    (hdivisors : ∀ y ∈ divisors, y.Canonical)
    (h : List.Forall₂ (fun text q => Denotes text.toList q) texts (divisors.map Decimal.value)) :
    texts.foldlM (NumberText.divide cap) x.toString =
      (divisors.foldlM (Decimal.divide cap) x).map Decimal.toString := by
  induction divisors generalizing texts x with
  | nil =>
    cases h
    rfl
  | cons y divisors ih =>
    obtain ⟨hy, hdivisors⟩ := List.forall_mem_cons.1 hdivisors
    cases h with
    | cons htext hrest =>
      obtain ⟨u, v, hboth, hu, hv, huv, hvv⟩ := both_of_denotes (denotes_toString hx) htext
      rw [hu.ext_value hx huv, hv.ext_value hy hvv] at hboth
      rw [List.foldlM_cons, List.foldlM_cons]
      by_cases hzero : y.value = 0
      · rw [Decimal.divide_zero hzero, NumberText.divide, hboth]
        simp only [bind, Except.bind, Decimal.divide_zero hzero]
        rfl
      · obtain ⟨q, hq⟩ := Decimal.exists_divide (x := x) hzero cap
        rw [hq, divide_of_both hboth hq]
        exact ih (Decimal.divide_canonical hx hy hq) hdivisors hrest

end

namespace Expression

variable {cap : Nat}

/-! ## 2. Steps of one kind

All steps of a stage have one operator.  The multiplications are exact, so they come to a
product of rational numbers, in which no order is left; the divisions are a fold of the division
of decimals. -/

/-- **Multiplications come to the product**, in which the order of the factors is lost. -/
theorem exactSteps_of_multiply {steps : List Step} (h : ∀ step ∈ steps, step.op = .multiply) (a : Rat) :
    exactSteps a steps = (a :: steps.map (·.operand.value)).prod := by
  induction steps generalizing a with
  | nil => exact (List.prod_singleton).symm
  | cons step steps ih =>
    obtain ⟨hop, h⟩ := List.forall_mem_cons.1 h
    rw [exactSteps_cons, ih h, hop, Operator.exact, List.map_cons, List.prod_cons, List.prod_cons,
      List.prod_cons, mul_assoc]

/-- Multiplications always have a value, and it is the canonical decimal of the product. -/
theorem exists_runSteps_of_multiply {x : Decimal} {steps : List Step} (hx : x.Canonical)
    (hsteps : ∀ step ∈ steps, step.operand.Canonical) (h : ∀ step ∈ steps, step.op = .multiply) :
    ∃ product : Decimal, (runSteps cap x steps).result = .ok product ∧ product.Canonical ∧
      product.value = (x.value :: steps.map (·.operand.value)).prod := by
  have hfit : StepsFit cap x.value (steps ++ []) :=
    stepsFit_append (fun step hstep hop => nomatch (h step hstep).symm.trans hop) trivial
  rw [List.append_nil] at hfit
  obtain ⟨-, product, hproduct, hcanonical, hvalue⟩ := findsExactly_runSteps hx hsteps hfit
  rw [exactSteps_of_multiply h] at hvalue
  exact ⟨product, hproduct, hcanonical, hvalue⟩

theorem result_apply_divide (x y : Decimal) :
    (apply cap .divide x y).result = (Decimal.divide cap x y).mapError .numeric := by
  rw [result_apply, operate, Decimal.divideWithRemainder]
  cases Decimal.divide cap x y <;> rfl

/-- **Divisions are carried out one after the other.** -/
theorem result_runSteps_divide {x : Decimal} {steps : List Step}
    (h : ∀ step ∈ steps, step.op = .divide) : (runSteps cap x steps).result =
      ((steps.map (·.operand)).foldlM (Decimal.divide cap) x).mapError .numeric := by
  induction steps generalizing x with
  | nil => rfl
  | cons step steps ih =>
    obtain ⟨hop, h⟩ := List.forall_mem_cons.1 h
    rw [runSteps_cons, Traced.result_bind, hop, result_apply_divide, List.map_cons, List.foldlM_cons]
    cases Decimal.divide cap x step.operand with
    | error e => rfl
    | ok q => exact ih h

/-! ## 3. The factors of a run

The operands of a run are sorted by the operator in front of them, with the first one among the
factors.  Their values are kept in two lists, and what happens to operands happens to their
values. -/

/-- The operands that are multiplied: the first one, and those behind a `*`. -/
def Level.factors (level : Level) : List Operand :=
  level.operands.first :: (level.operands.rest.filter (·.1 == .multiply)).map (·.2)

/-- The operands have the values, one by one. -/
def HaveValues (operands : List Operand) (values : List Rat) : Prop :=
  List.Forall₂ (fun operand q => operand.term.HasValue q) operands values

/-- The level is a run, and these are the values of its factors and of its divisors.  The values
determine each other's order only within either list. -/
structure Level.IsRunOf (level : Level) (factors divisors : List Rat) : Prop where
  isRun : level.IsRun
  factors_values : HaveValues level.factors factors
  divisors_values : HaveValues level.divisors divisors

theorem HaveValues.values_eq {operands : List Operand} {values : List Rat} {steps : List Step}
    (h : HaveValues operands values)
    (hsteps : List.Forall₂ (fun step operand => Term.Evaluates operand.term step.operand) steps operands) :
    steps.map (·.operand.value) = values := by
  induction hsteps generalizing values with
  | nil =>
    cases h
    rfl
  | cons hstep _ ih =>
    cases h with
    | cons hvalue hrest => rw [List.map_cons, ih hrest, hstep.2.unique hvalue]

theorem HaveValues.exists_value {operands : List Operand} {values : List Rat}
    (h : HaveValues operands values) {operand : Operand} (hmem : operand ∈ operands) :
    ∃ q, operand.term.HasValue q := by
  obtain ⟨q, -, hq⟩ := exists_of_mem_left h hmem
  exact ⟨q, hq⟩

theorem HaveValues.exists_perm {operands operands' : List Operand} {values : List Rat}
    (h : HaveValues operands values) (hperm : operands'.Perm operands) :
    ∃ values', HaveValues operands' values' ∧ values'.Perm values :=
  List.perm_comp_forall₂ hperm h

/-- The operands of a run are its factors and its divisors. -/
theorem Level.IsRun.mem_factors_or_divisors {level : Level} (hrun : level.IsRun) {p : Operator × Operand}
    (hp : p ∈ level.operands.rest) : p.2 ∈ level.factors ∨ p.2 ∈ level.divisors := by
  have hop := hrun.multiplicative p hp
  obtain ⟨op, operand⟩ := p
  cases op with
  | add | subtract => cases hop
  | multiply =>
    exact .inl (List.mem_cons_of_mem _ (List.mem_map.2 ⟨_, List.mem_filter.2 ⟨hp, rfl⟩, rfl⟩))
  | divide => exact .inr (List.mem_map.2 ⟨_, List.mem_filter.2 ⟨hp, rfl⟩, rfl⟩)

/-- Operands with values have literals that are numbers. -/
theorem Level.IsRunOf.denotes {level : Level} {factors divisors : List Rat}
    (h : level.IsRunOf factors divisors) : ∀ text ∈ level.literals, ∃ q, Denotes text.chars q := by
  refine Level.forall_mem_literals.2 ⟨?_, fun p hp => ?_⟩
  · obtain ⟨q, hq⟩ := h.factors_values.exists_value List.mem_cons_self
    exact Operand.denotes_of_hasValue h.isRun.first_literal hq
  · obtain ⟨q, hq⟩ : ∃ q, p.2.term.HasValue q := by
      rcases h.isRun.mem_factors_or_divisors hp with hmem | hmem
      · exact h.factors_values.exists_value hmem
      · exact h.divisors_values.exists_value hmem
    exact Operand.denotes_of_hasValue (h.isRun.rest_literal p hp) hq

/-- **A run is the product of its factors, divided by its divisors** one after the other. -/
theorem Level.IsRunOf.exists_product {level : Level} {factors divisors : List Rat}
    (h : level.IsRunOf factors divisors) : ∃ (product : Decimal) (ys : List Decimal),
      product.Canonical ∧ product.value = factors.prod ∧ (∀ y ∈ ys, y.Canonical) ∧
      ys.map Decimal.value = divisors ∧ (evalLevel cap (liftRuns level.nodes)).result =
        (ys.foldlM (Decimal.divide cap) product).mapError .numeric := by
  obtain ⟨x, steps, heval, hfirst, hall⟩ := @Level.IsRun.exists_steps cap _ h.isRun h.denotes
  have hcanonical := canonical_of_forall₂ hall
  have hop := multiplicative_of_forall₂ hall h.isRun.multiplicative
  have hkind : ∀ op, ∀ step ∈ steps.filter (·.op == op), step.op = op :=
    fun op step hstep => eq_of_beq (List.mem_filter.1 hstep).2
  -- the values of the steps of each kind are those of the operands
  have hfactors : ((⟨.multiply, x⟩ : Step) :: steps.filter (·.op == .multiply)).map (·.operand.value) =
      factors :=
    h.factors_values.values_eq (.cons hfirst (forall₂_behind .multiply hall))
  have hdivisors := h.divisors_values.values_eq (forall₂_behind .divide hall)
  obtain ⟨product, hproduct, hproductCanonical, hvalue⟩ :=
    @exists_runSteps_of_multiply cap x (steps.filter (·.op == .multiply)) hfirst.1
      (fun step hstep => hcanonical step (List.mem_of_mem_filter hstep)) (hkind .multiply)
  refine ⟨product, (steps.filter (·.op == .divide)).map (·.operand), hproductCanonical,
    hvalue.trans (congrArg List.prod hfactors), ?_, ?_, ?_⟩
  · intro y hy
    obtain ⟨step, hstep, rfl⟩ := List.mem_map.1 hy
    exact hcanonical step (List.mem_of_mem_filter hstep)
  · rw [List.map_map]
    exact hdivisors
  · rw [heval, executionOrder_of_multiplicative hop, runSteps_append, Traced.result_bind, hproduct]
    exact result_runSteps_divide (hkind .divide)

/-- For each divisor there is a text that denotes it. -/
theorem Level.IsRunOf.exists_texts {level : Level} {factors divisors : List Rat}
    (h : level.IsRunOf factors divisors) : ∃ texts : List String,
      List.Forall₂ (fun text q => Denotes text.toList q) texts divisors := by
  obtain ⟨-, ys, -, -, hys, rfl, -⟩ := @Level.IsRunOf.exists_product 0 _ _ _ h
  refine ⟨ys.map Decimal.toString, ?_⟩
  rw [List.forall₂_map_left_iff, List.forall₂_map_right_iff, List.forall₂_same]
  exact fun y hy => denotes_toString (hys y hy)

/-! ## 4. Expressions

The description of a run is carried over to expressions, and its consequences are drawn: with the
same values in another arrangement, the result is the same, or the failure is. -/

/-- The quotient by one divisor after the other, as texts. -/
def divideAll (cap : Nat) (product : String) (divisors : List String) : Except ExpressionError String :=
  (divisors.foldlM (NumberText.divide cap) product).mapError .numeric

/-- An expression that is a run, in terms of the values of its operands.  The texts of the divisors
stand for any spelling. -/
theorem Level.IsRunOf.evaluate_eq {expression : String} {level : Level} {factors divisors : List Rat}
    (hrun : level.IsRunOf factors divisors) (h : level.Expresses (Text.trim expression.toList)) :
    ∃ product : Decimal, product.Canonical ∧ product.value = factors.prod ∧
      (∀ texts : List String, List.Forall₂ (fun text q => Denotes text.toList q) texts divisors →
        evaluate cap expression = divideAll cap product.toString texts) ∧
      (0 ∉ divisors → ∃ result, evaluate cap expression = .ok result) ∧
      (0 ∈ divisors → evaluate cap expression = .error (.numeric .divisionByZero)) := by
  obtain ⟨product, ys, hproduct, hvalue, hys, rfl, heval⟩ := @Level.IsRunOf.exists_product cap _ _ _ hrun
  refine ⟨product, hproduct, hvalue, fun texts htexts => ?_, fun hne => ?_, fun hzero => ?_⟩
  · rw [h.evaluate_eq, heval, divideAll, NumberText.foldlM_divide_eq hproduct hys htexts]
    cases ys.foldlM (Decimal.divide cap) product <;> rfl
  · obtain ⟨q, hq⟩ := @Decimal.exists_foldlM_divide cap product ys fun y hy hzero =>
      hne (hzero ▸ List.mem_map_of_mem hy)
    exact ⟨q.toString, by rw [h.evaluate_eq, heval, hq]; rfl⟩
  · obtain ⟨y, hy, hzero⟩ := List.mem_map.1 hzero
    rw [h.evaluate_eq, heval, Decimal.foldlM_divide_of_zero ⟨y, hy, hzero⟩]
    rfl

/-- **The values decide**: runs with the same factors, in any order, and the same divisors have the same result. -/
theorem Level.IsRunOf.evaluate_congr {expression expression' : String} {level level' : Level}
    {factors factors' divisors : List Rat} (hrun : level.IsRunOf factors divisors)
    (h : level.Expresses (Text.trim expression.toList)) (hrun' : level'.IsRunOf factors' divisors)
    (h' : level'.Expresses (Text.trim expression'.toList)) (hperm : factors'.Perm factors) :
    evaluate cap expression' = evaluate cap expression := by
  obtain ⟨texts, htexts⟩ := hrun.exists_texts
  obtain ⟨product, hproduct, hvalue, hevaluate, -⟩ := @Level.IsRunOf.evaluate_eq cap _ _ _ _ hrun h
  obtain ⟨product', hproduct', hvalue', hevaluate', -⟩ :=
    @Level.IsRunOf.evaluate_eq cap _ _ _ _ hrun' h'
  have hsame : product' = product :=
    hproduct'.ext_value hproduct (by rw [hvalue', hvalue, hperm.prod_eq])
  rw [hevaluate' texts htexts, hevaluate texts htexts, hsame]

/-- Operands that change places are a run of the same values, as long as the divisors keep theirs. -/
theorem Level.IsRunOf.exists_rearranged {level level' : Level} {factors divisors : List Rat}
    (hrun : level.IsRunOf factors divisors) (hrun' : level'.IsRun)
    (hfactors : level'.factors.Perm level.factors) (hdivisors : level'.divisors = level.divisors) :
    ∃ factors', level'.IsRunOf factors' divisors ∧ factors'.Perm factors := by
  obtain ⟨factors', hvalues, hperm⟩ := hrun.factors_values.exists_perm hfactors
  exact ⟨factors', ⟨hrun', hvalues, hdivisors.symm ▸ hrun.divisors_values⟩, hperm⟩

/-- One multiplication may be moved to any other place of the run, since neither the factors nor
the order of the divisors changes. -/
theorem Level.IsRunOf.exists_moved {level level' : Level} {factors divisors : List Rat}
    (hrun : level.IsRunOf factors divisors) {x : Operand} {front behind front' behind' : List (Operator × Operand)}
    (hlevel : level.operands.rest = front ++ (.multiply, x) :: behind)
    (hlevel' : level'.operands = ⟨level.operands.first, front' ++ (.multiply, x) :: behind'⟩)
    (hsame : front' ++ behind' = front ++ behind) :
    ∃ factors', level'.IsRunOf factors' divisors ∧ factors'.Perm factors := by
  have hrest : level'.operands.rest.Perm level.operands.rest := by
    rw [hlevel', hlevel]
    refine List.perm_middle.trans ?_
    rw [hsame]
    exact List.perm_middle.symm
  have hfirst : level'.operands.first = level.operands.first := by rw [hlevel']
  refine hrun.exists_rearranged ⟨?_, fun p hp => ?_, fun p hp => ?_⟩ ?_ ?_
  · rw [hfirst]
    exact hrun.isRun.first_literal
  · exact hrun.isRun.rest_literal p (hrest.mem_iff.1 hp)
  · exact hrun.isRun.multiplicative p (hrest.mem_iff.1 hp)
  · rw [Level.factors, Level.factors, hfirst]
    exact ((hrest.filter _).map _).cons _
  · have hdivisors : ∀ before after : List (Operator × Operand),
        (before ++ (Operator.multiply, x) :: after).filter (·.1 == .divide) =
          (before ++ after).filter (·.1 == .divide) := fun before after => by
      rw [List.filter_append, List.filter_append, List.filter_cons_of_neg Bool.false_ne_true]
    rw [Level.divisors, Level.divisors, hlevel, hlevel', hdivisors, hdivisors, hsame]

/-- **A run depends only on its factors and the sequence of its divisors.**  It is the exact product of its factors,
divided by one divisor after the other in the order of the text, wherever the factors stand; and it has no result
only if a divisor is zero.  So runs with the same factors, in any order, and with the same divisors have the same
result, and to move one multiplication changes nothing, also where the quotients are cut off. -/
theorem run_depends_on_factors_and_divisors (cap : Nat) {expression : String} {level : Level}
    {factors divisors : List Rat} (h : level.Expresses (Text.trim expression.toList))
    (hrun : level.IsRunOf factors divisors) :
    (∃ product : Decimal, product.Canonical ∧ product.value = factors.prod ∧
      (∀ texts : List String, List.Forall₂ (fun text q => Denotes text.toList q) texts divisors →
        evaluate cap expression = divideAll cap product.toString texts) ∧
      (0 ∉ divisors → ∃ result, evaluate cap expression = .ok result) ∧
      (0 ∈ divisors → evaluate cap expression = .error (.numeric .divisionByZero))) ∧
    (∀ (expression' : String) (level' : Level) (factors' : List Rat),
      level'.Expresses (Text.trim expression'.toList) → level'.IsRunOf factors' divisors →
      factors'.Perm factors → evaluate cap expression' = evaluate cap expression) ∧
    ∀ (expression' : String) (level' : Level) (x : Operand)
      (front behind front' behind' : List (Operator × Operand)),
      level'.Expresses (Text.trim expression'.toList) →
      level.operands.rest = front ++ (.multiply, x) :: behind →
      level'.operands = ⟨level.operands.first, front' ++ (.multiply, x) :: behind'⟩ →
      front' ++ behind' = front ++ behind → evaluate cap expression' = evaluate cap expression := by
  refine ⟨hrun.evaluate_eq h, ?_, ?_⟩
  · intro expression' level' factors' h' hrun' hperm
    exact hrun.evaluate_congr h hrun' h' hperm
  · intro expression' level' x front behind front' behind' h' hlevel hlevel' hsame
    obtain ⟨factors', hrun', hperm⟩ := hrun.exists_moved hlevel hlevel' hsame
    exact hrun.evaluate_congr h hrun' h' hperm

/-- The derivation of `5/3*-7/6`. -/
def factorBetween : Level :=
  .join (digitOperand .absent 5) .divide (.join (digitOperand .absent 3) .multiply
    (.join (digitOperand .minus 7) .divide (.single (digitOperand .absent 6))))

/-- The derivation of `-7*5/3/6`. -/
def factorInFront : Level :=
  .join (digitOperand .minus 7) .multiply (.join (digitOperand .absent 5) .divide
    (.join (digitOperand .absent 3) .divide (.single (digitOperand .absent 6))))

/-- The derivation of `5/3/6*-7`. -/
def factorBehind : Level :=
  .join (digitOperand .absent 5) .divide (.join (digitOperand .absent 3) .divide
    (.join (digitOperand .absent 6) .multiply (.single (digitOperand .minus 7))))

theorem isRunOf_factorBetween : factorBetween.IsRunOf [5, -7] [3, 6] := by
  have hfive : Denotes ['5'] 5 := @denotes_of_ofString "5" _ (by decide +kernel)
  have hseven : Denotes ['7'] 7 := @denotes_of_ofString "7" _ (by decide +kernel)
  have hthree : Denotes ['3'] 3 := @denotes_of_ofString "3" _ (by decide +kernel)
  have hsix : Denotes ['6'] 6 := @denotes_of_ofString "6" _ (by decide +kernel)
  exact ⟨⟨trivial, by simp [factorBetween, Level.operands, digitOperand, Operand.IsLiteral],
    by simp [factorBetween, Level.operands, Operator.isAdditive]⟩,
    .cons (.literal hfive) (.cons (.negate (.literal hseven)) .nil),
    .cons (.literal hthree) (.cons (.literal hsix) .nil)⟩

/-- The second factor stands between the divisors, in front of the first one, and behind everything; a
quotient in the order of the text would be cut off before the multiplication. -/
theorem run_depends_on_factors_and_divisors_between :
    evaluate 2 "5/3*-7/6" = .ok "-1.94" ∧ evaluate 2 "-7*5/3/6" = .ok "-1.94" ∧
      evaluate 2 "5/3/6*-7" = .ok "-1.94" ∧
      ∃ product : Decimal, product.value = [(5 : Rat), -7].prod ∧
        evaluate 2 "5/3*-7/6" = divideAll 2 product.toString ["3", "6"] := by
  have hbetween : factorBetween.Expresses (Text.trim "5/3*-7/6".toList) :=
    .of_checks (by decide) (by decide) (by decide) (by decide)
  have hfront : factorInFront.Expresses (Text.trim "-7*5/3/6".toList) :=
    .of_checks (by decide) (by decide) (by decide) (by decide)
  have hbehind : factorBehind.Expresses (Text.trim "5/3/6*-7".toList) :=
    .of_checks (by decide) (by decide) (by decide) (by decide)
  have hfrontIsRun : factorInFront.IsRun :=
    ⟨trivial, by simp [factorInFront, Level.operands, digitOperand, Operand.IsLiteral],
      by simp [factorInFront, Level.operands, Operator.isAdditive]⟩
  obtain ⟨factors, hfrontRun, hperm⟩ :=
    isRunOf_factorBetween.exists_rearranged hfrontIsRun (.swap _ _ _) rfl
  obtain ⟨⟨product, -, hvalue, hdivided, -⟩, hpermuted, hmoved⟩ :=
    run_depends_on_factors_and_divisors 2 hbetween isRunOf_factorBetween
  have hresult : evaluate 2 "5/3*-7/6" = .ok "-1.94" := by decide +kernel
  refine ⟨hresult, ?_, ?_, product, hvalue, hdivided _ ?_⟩
  · rw [hpermuted _ _ _ hfront hfrontRun hperm, hresult]
  · rw [hmoved _ factorBehind (digitOperand .minus 7) [(.divide, digitOperand .absent 3)]
      [(.divide, digitOperand .absent 6)]
      [(.divide, digitOperand .absent 3), (.divide, digitOperand .absent 6)] [] hbehind rfl rfl rfl,
      hresult]
  · exact .cons (denotes_of_ofString (by decide +kernel)) (.cons (denotes_of_ofString (by decide +kernel)) .nil)

end Expression
end DecimalCalc
