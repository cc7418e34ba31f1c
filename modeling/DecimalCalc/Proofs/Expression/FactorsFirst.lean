/-
# Runs of factors and divisors

Literals joined by `*` and `/` make up a run.  Wherever its multiplications stand, they go before
its divisions.  So every quotient on the way is the value of the run times the divisors that are
still to come.  If these are integers and the value ends within the cap, every quotient does, and
nothing is cut off; the first divisor need not be an integer, as it is never among those still to
come.

This is what the order of execution is for.  In the order of the text a quotient that does not end
could be multiplied up, and the digits that were cut off would be missing in the result.  The
condition that makes all steps exact is stated for a list of steps in the order in which they are
carried out, and goes backwards from the value: a number that ends within the cap still does when it
is multiplied by an integer.  It is then transported to the order of execution of a run, and to the
text of an expression.

* `findsExactly_runSteps`: steps are exact if the quotients on the way end within the cap;
* `stepsFit_of_divides`: they do if the last one does and integers follow;
* `Level.IsRun.exists_steps`: a run of numbers is evaluated step by step;
* `Level.exists_findsExactly`: so it finds its value;
* `run_evaluated_exactly`: and so does an expression that is one.
-/
import DecimalCalc.Proofs.Expression.Exactness

namespace DecimalCalc

/-! ## 1. Quotients that end within the cap

A number ends within the cap if so many digits behind the point are enough for it.  Cutting such a
quotient off changes nothing, so multiplying back gives the dividend, whether the divisor is a power
of ten or not. -/

/-- The number has at most `cap` digits behind the point: moving the point that far makes it
whole. -/
def EndsWithin (cap : Nat) (q : Rat) : Prop := ∃ m : Int, q * 10 ^ cap = m

/-- Multiplying by an integer adds no digits behind the point. -/
theorem EndsWithin.mul_int {cap : Nat} {q : Rat} (h : EndsWithin cap q) (n : Int) :
    EndsWithin cap (q * n) := by
  obtain ⟨m, hm⟩ := h
  refine ⟨m * n, ?_⟩
  rw [mul_right_comm, hm, Int.cast_mul]

/-- **A quotient that ends within the cap is exact.** -/
theorem Decimal.divide_mul_of_endsWithin {cap : Nat} {x y q : Decimal} (hx : x.Canonical)
    (hy : y.Canonical) (h : divide cap x y = .ok q) (hends : EndsWithin cap (x.value / y.value)) :
    q.value * y.value = x.value := by
  have hne := (divide_cases h).1
  by_cases hpow : IsPowerOfTen y.value
  · obtain ⟨k, hk⟩ := hpow
    rw [value_divide_of_pow hy h hk, div_mul_cancel₀ _ hne]
  · obtain ⟨m, hm⟩ := hends
    have hmagnitude : |x.value| / |y.value| * 10 ^ cap = (m.natAbs : Rat) := by
      have habs := congrArg (|·|) hm
      rw [abs_mul, abs_div, abs_of_nonneg (by positivity : (0 : Rat) ≤ 10 ^ cap)] at habs
      rw [habs, Nat.cast_natAbs, Int.cast_abs]
    rw [← remainder_eq_zero_iff hx hy h, abs_value_divide hx hy h hpow, cutOff_eq_self hmagnitude,
      div_mul_cancel₀ _ (abs_ne_zero.2 hne), sub_self]

namespace Expression

variable {cap : Nat}

/-! ## 2. Steps that are exact

A step fits if it is no division, or if its quotient exists and ends within the cap.  Steps are
asked to fit one after the other, each at the exact value that the steps in front of it find. -/

/-- The computation ends in the value, and nothing is cut off on the way.  The value is found as a
canonical decimal. -/
def Traced.FindsExactly (x : Traced Decimal) (v : Rat) : Prop :=
  x.Untruncated ∧ ∃ z : Decimal, x.result = .ok z ∧ z.Canonical ∧ z.value = v

/-- If the step is a division of `a`, its quotient exists and ends within the cap. -/
def Step.Fits (cap : Nat) (a : Rat) (step : Step) : Prop :=
  step.op = .divide → step.operand.value ≠ 0 ∧ EndsWithin cap (a / step.operand.value)

/-- Every step fits what the steps in front of it find. -/
def StepsFit (cap : Nat) : Rat → List Step → Prop
  | _, [] => True
  | a, step :: steps =>
    step.Fits cap a ∧ StepsFit cap (step.op.exact a step.operand.value) steps

theorem exactSteps_cons (a : Rat) (step : Step) (steps : List Step) :
    exactSteps a (step :: steps) = exactSteps (step.op.exact a step.operand.value) steps := rfl

/-- One step that fits is exact, and its result is what it should be. -/
theorem findsExactly_apply {x : Decimal} {step : Step} (hx : x.Canonical)
    (hstep : step.operand.Canonical) (hfits : step.Fits cap x.value) :
    (apply cap step.op x step.operand).FindsExactly (step.op.exact x.value step.operand.value) := by
  obtain ⟨op, y⟩ := step
  by_cases hop : op = .divide
  · subst hop
    obtain ⟨hne, hends⟩ := hfits rfl
    obtain ⟨q, hq⟩ := Decimal.exists_divide (x := x) hne cap
    have hcanonical := Decimal.divide_canonical hx hstep hq
    have hexact := Decimal.divide_mul_of_endsWithin hx hstep hq hends
    have hzero : (x.abs - q.abs * y.abs).isZero = true := by
      rw [Decimal.isZero_iff, Decimal.value_remainder hx hstep hcanonical,
        Decimal.remainder_eq_zero_iff hx hstep hq, hexact]
    have hoperate : operate cap .divide x y = .ok (q, none) := by
      simp [operate, Decimal.divideWithRemainder, hq, Except.map, bind, Except.bind, hzero, pure,
        Except.pure]
    rw [apply_of_ok hoperate]
    refine ⟨by simp [Traced.Untruncated, Event.isTruncation], q, rfl, hcanonical, ?_⟩
    rw [Operator.exact, ← hexact, mul_div_cancel_right₀ _ hne]
  · obtain ⟨z, hok, hz, hvalue⟩ := @operate_of_ne_divide cap op x y hx hstep hop
    rw [apply_of_ok hok]
    exact ⟨by simp [Traced.Untruncated, Event.isTruncation], z, rfl, hz, hvalue⟩

/-- **Steps that fit are exact**, and none of them is cut off. -/
theorem findsExactly_runSteps {x : Decimal} {steps : List Step} (hx : x.Canonical)
    (hsteps : ∀ step ∈ steps, step.operand.Canonical) (hfit : StepsFit cap x.value steps) :
    (runSteps cap x steps).FindsExactly (exactSteps x.value steps) := by
  induction steps generalizing x with
  | nil => exact ⟨List.forall_mem_nil _, x, rfl, hx, rfl⟩
  | cons step steps ih =>
    obtain ⟨hstep, hsteps⟩ := List.forall_mem_cons.1 hsteps
    obtain ⟨hfirst, hrest⟩ := hfit
    obtain ⟨hquiet, y, hy, hcanonical, hvalue⟩ := findsExactly_apply hx hstep hfirst
    rw [← hvalue] at hrest
    obtain ⟨hquiet', hfound⟩ := ih hcanonical hsteps hrest
    rw [runSteps_cons, Traced.bind_of_ok hy, exactSteps_cons, ← hvalue]
    exact ⟨List.forall_mem_append.2 ⟨hquiet, hquiet'⟩, hfound⟩

/-! ## 3. Divisions behind multiplications

In a run the divisions come last.  Going back from the value of the run, each quotient is the next
one times its divisor; so all of them end within the cap if the last does and those divisors are
integers. -/

/-- Division by integers loses no digits, so what is divided ends where the last quotient does. -/
theorem endsWithin_of_exactSteps {a : Rat} {steps : List Step}
    (hdivide : ∀ step ∈ steps, step.op = .divide ∧ step.operand.value ≠ 0)
    (hinteger : ∀ step ∈ steps, ∃ n : Int, step.operand.value = n)
    (h : EndsWithin cap (exactSteps a steps)) : EndsWithin cap a := by
  induction steps generalizing a with
  | nil => exact h
  | cons step steps ih =>
    obtain ⟨⟨hop, hne⟩, hdivide⟩ := List.forall_mem_cons.1 hdivide
    obtain ⟨⟨n, hn⟩, hinteger⟩ := List.forall_mem_cons.1 hinteger
    rw [exactSteps_cons, hop, Operator.exact] at h
    have hquotient := (ih hdivide hinteger h).mul_int n
    rwa [← hn, div_mul_cancel₀ _ hne] at hquotient

/-- **Every quotient on the way ends within the cap** if the last one does and the divisors behind the
first are integers. -/
theorem stepsFit_of_divides {a : Rat} {steps : List Step}
    (hdivide : ∀ step ∈ steps, step.op = .divide ∧ step.operand.value ≠ 0)
    (hinteger : ∀ step ∈ steps.tail, ∃ n : Int, step.operand.value = n)
    (h : EndsWithin cap (exactSteps a steps)) : StepsFit cap a steps := by
  induction steps generalizing a with
  | nil => trivial
  | cons step steps ih =>
    obtain ⟨⟨hop, hne⟩, hdivide⟩ := List.forall_mem_cons.1 hdivide
    rw [exactSteps_cons] at h
    refine ⟨fun _ => ⟨hne, ?_⟩, ih hdivide (fun s hs => hinteger s (List.mem_of_mem_tail hs)) h⟩
    rw [hop] at h
    exact endsWithin_of_exactSteps hdivide hinteger h

/-- Multiplications fit whatever comes, so steps behind them fit if they do at the product. -/
theorem stepsFit_append {a : Rat} {before behind : List Step}
    (hbefore : ∀ step ∈ before, step.op ≠ .divide)
    (hbehind : StepsFit cap (exactSteps a before) behind) : StepsFit cap a (before ++ behind) := by
  induction before generalizing a with
  | nil => exact hbehind
  | cons step before ih =>
    obtain ⟨hop, hbefore⟩ := List.forall_mem_cons.1 hbefore
    exact ⟨fun h => absurd h hop, ih hbefore hbehind⟩

/-- In a multiplicative level the multiplications go first, each kind in the order of the text. -/
theorem executionOrder_of_multiplicative {steps : List Step}
    (h : ∀ step ∈ steps, step.op.isAdditive = false) :
    executionOrder steps =
      steps.filter (·.op == .multiply) ++ steps.filter (·.op == .divide) := by
  have hadditive : steps.filter (·.op.rank == 0) = [] := by
    refine List.filter_eq_nil_iff.2 fun step hstep => ?_
    have hop := h step hstep
    cases hcase : step.op <;> simp_all [Operator.rank, Operator.isAdditive]
  have hmultiply : (fun step : Step => step.op.rank == 1) = fun step => step.op == .multiply := by
    funext step
    cases step.op <;> rfl
  have hdivide : (fun step : Step => step.op.rank == 2) = fun step => step.op == .divide := by
    funext step
    cases step.op <;> rfl
  simp only [executionOrder, List.flatMap_cons, List.flatMap_nil, List.append_nil, hadditive,
    hmultiply, hdivide, List.nil_append]

/-- A run fits in the order of execution if its value ends within the cap.  The value is the same
in either order. -/
theorem stepsFit_executionOrder {a : Rat} {steps : List Step}
    (hop : ∀ step ∈ steps, step.op.isAdditive = false)
    (hzero : ∀ step ∈ steps.filter (·.op == .divide), step.operand.value ≠ 0)
    (hinteger : ∀ step ∈ (steps.filter (·.op == .divide)).tail, ∃ n : Int, step.operand.value = n)
    (h : EndsWithin cap (exactSteps a steps)) : StepsFit cap a (executionOrder steps) := by
  rw [← exactSteps_executionOrder hop] at h
  rw [executionOrder_of_multiplicative hop] at h ⊢
  refine stepsFit_append (fun step hstep hdivide => ?_) (stepsFit_of_divides ?_ hinteger ?_)
  · have hmultiply := (List.mem_filter.1 hstep).2
    rw [hdivide] at hmultiply
    cases hmultiply
  · exact fun step hstep => ⟨eq_of_beq (List.mem_filter.1 hstep).2, hzero step hstep⟩
  · rwa [exactSteps, List.foldl_append] at h

/-! ## 4. Runs of literals

The operands of a run are literals, so they are gathered as numbers and nothing happens before the
steps.  The steps of one kind correspond to the operands behind that operator, in the order of the
text. -/

/-- The operand is a literal behind its sign. -/
def Operand.IsLiteral : Operand → Prop
  | .literal _ _ => True
  | .group _ _ => False

/-- The level is a run: literals joined by `*` and `/`.  A single literal is a run too. -/
structure Level.IsRun (level : Level) : Prop where
  first_literal : level.operands.first.IsLiteral
  rest_literal : ∀ p ∈ level.operands.rest, p.2.IsLiteral
  multiplicative : ∀ p ∈ level.operands.rest, p.1.isAdditive = false

/-- The operands behind a `/`, in the order of the text. -/
def Level.divisors (level : Level) : List Operand :=
  (level.operands.rest.filter (·.1 == .divide)).map (·.2)

/-- What holds of all literals of a level holds of those of its operands. -/
theorem Level.forall_mem_literals {P : LiteralText → Prop} {level : Level} :
    (∀ text ∈ level.literals, P text) ↔ (∀ text ∈ level.operands.first.literals, P text) ∧
      ∀ p ∈ level.operands.rest, ∀ text ∈ p.2.literals, P text := by
  cases level with
  | single operand => simp [Level.literals, Level.operands]
  | join operand op rest =>
    simp [Level.literals, Level.operands, or_imp, forall_and, @forall_mem_literals P rest]

section

variable {α : Type} {node : α → Node} {term : α → Term}

/-- Operands that are numbers already are gathered without a trace. -/
theorem exists_evalSteps_eq_pure {rest : List (Operator × α)}
    (h : ∀ p ∈ rest, ∃ x, evalNode cap (node p.2) = pure x ∧ (term p.2).Evaluates x) :
    ∃ steps, evalSteps cap (stepNodes node rest) = pure steps ∧
      List.Forall₂ (fun step p => step.op = p.1 ∧ (term p.2).Evaluates step.operand) steps rest := by
  induction rest with
  | nil => exact ⟨[], by rw [stepNodes, List.flatMap_nil, evalSteps], .nil⟩
  | cons p rest ih =>
    obtain ⟨⟨x, hx, hterm⟩, hrest⟩ := List.forall_mem_cons.1 h
    obtain ⟨steps, hsteps, hall⟩ := ih hrest
    refine ⟨⟨p.1, x⟩ :: steps, ?_, .cons ⟨rfl, hterm⟩ hall⟩
    rw [stepNodes_cons, evalSteps, hx, hsteps, pure_bind, pure_bind]

end

/-- A literal that is a number is evaluated to it, with nothing told. -/
theorem Operand.exists_evalNode_eq_pure {operand : Operand} (h : operand.IsLiteral)
    (hliterals : ∀ text ∈ operand.literals, ∃ q, Denotes text.chars q) :
    ∃ x, evalNode cap operand.node = pure x ∧ operand.term.Evaluates x := by
  cases operand with
  | group sign level => exact h.elim
  | literal sign text =>
    rw [Operand.literals] at hliterals
    obtain ⟨q, hq⟩ := hliterals text (List.mem_singleton_self _)
    rw [Operand.node, Operand.term]
    exact exists_evalNode_literal hq sign

/-- The operands of the steps of one kind are those behind its operator in the level. -/
theorem forall₂_behind (op : Operator) {steps : List Step} {rest : List (Operator × Operand)}
    (h : List.Forall₂ (fun step p => step.op = p.1 ∧ p.2.term.Evaluates step.operand) steps rest) :
    List.Forall₂ (fun step operand => Term.Evaluates operand.term step.operand)
      (steps.filter (·.op == op)) ((rest.filter (·.1 == op)).map (·.2)) := by
  rw [List.forall₂_map_right_iff]
  exact (List.rel_filter (fun step p hp => by simp [hp.1]) h).imp fun step p hp => hp.2

/-- A run is not split: all its operators bind alike. -/
theorem Level.IsRun.not_mixed {level : Level} (hrun : level.IsRun) : isMixed level.nodes = false := by
  rw [← level.nodes_operands, isMixed, any_nodes Operand.isOperand_node, Bool.and_eq_false_iff,
    List.any_eq_false]
  exact .inl fun p hp => by simp [hrun.multiplicative p hp]

/-- **A run of numbers is evaluated step by step**: its first operand, then the others in the order of
execution. -/
theorem Level.IsRun.exists_steps {level : Level} (hrun : level.IsRun)
    (hliterals : ∀ text ∈ level.literals, ∃ q, Denotes text.chars q) :
    ∃ x steps, evalLevel cap (liftRuns level.nodes) = runSteps cap x (executionOrder steps) ∧
      level.operands.first.term.Evaluates x ∧
      List.Forall₂ (fun step p => step.op = p.1 ∧ p.2.term.Evaluates step.operand) steps
        level.operands.rest := by
  obtain ⟨hfirst, hrest⟩ := Level.forall_mem_literals.1 hliterals
  obtain ⟨x, hx, hterm⟩ :=
    @Operand.exists_evalNode_eq_pure cap _ hrun.first_literal hfirst
  obtain ⟨steps, hsteps, hall⟩ := @exists_evalSteps_eq_pure cap _ Operand.node Operand.term _
    fun p hp => Operand.exists_evalNode_eq_pure (hrun.rest_literal p hp) (hrest p hp)
  refine ⟨x, steps, ?_, hterm, hall⟩
  rw [liftRuns_of_not_mixed hrun.not_mixed, ← level.nodes_operands, Chain.nodes, evalLevel_cons, hx,
    hsteps, pure_bind, pure_bind]

section

variable {steps : List Step} {rest : List (Operator × Operand)}
  (h : List.Forall₂ (fun step p => step.op = p.1 ∧ p.2.term.Evaluates step.operand) steps rest)
include h

theorem canonical_of_forall₂ : ∀ step ∈ steps, step.operand.Canonical := by
  intro step hstep
  obtain ⟨p, -, -, hoperand⟩ := exists_of_mem_left h hstep
  exact hoperand.1

theorem multiplicative_of_forall₂ (hrest : ∀ p ∈ rest, p.1.isAdditive = false) :
    ∀ step ∈ steps, step.op.isAdditive = false := by
  intro step hstep
  obtain ⟨p, hp, hop, -⟩ := exists_of_mem_left h hstep
  rw [hop]
  exact hrest p hp

end

/-- **A run finds its value**, if that ends within the cap and the divisors behind the first are
integers. -/
theorem Level.exists_findsExactly {level : Level} (hrun : level.IsRun)
    (hliterals : ∀ text ∈ level.literals, ∃ q, Denotes text.chars q)
    (hzero : ∀ divisor ∈ level.divisors, ¬ divisor.term.HasValue 0)
    (hinteger : ∀ divisor ∈ level.divisors.tail, ∃ n : Int, divisor.term.HasValue n) :
    ∃ v, level.term.HasValue v ∧
      (EndsWithin cap v → (evalLevel cap (liftRuns level.nodes)).FindsExactly v) := by
  obtain ⟨x, steps, heval, hterm, hall⟩ := hrun.exists_steps hliterals
  have hop := multiplicative_of_forall₂ hall hrun.multiplicative
  have hdivisors := forall₂_behind .divide hall
  have hzero' : ∀ step ∈ steps.filter (·.op == .divide), step.operand.value ≠ 0 := by
    intro step hstep heq
    obtain ⟨divisor, hdivisor, hvalue⟩ := exists_of_mem_left hdivisors hstep
    rw [Term.Evaluates, heq] at hvalue
    exact hzero divisor hdivisor hvalue.2
  have hinteger' : ∀ step ∈ (steps.filter (·.op == .divide)).tail,
      ∃ n : Int, step.operand.value = n := by
    intro step hstep
    have htail := List.forall₂_drop 1 hdivisors
    rw [List.drop_one, List.drop_one] at htail
    obtain ⟨divisor, hdivisor, hvalue⟩ := exists_of_mem_left htail hstep
    obtain ⟨n, hn⟩ := hinteger divisor hdivisor
    exact ⟨n, hvalue.2.unique hn⟩
  refine ⟨exactSteps x.value steps, ?_, fun hends => ?_⟩
  · rw [Level.term, ← level.terms_operands, Chain.read_of_multiplicative hrun.multiplicative]
    exact hasValue_join hall
      (fun step hstep hdivide => hzero' step (List.mem_filter.2 ⟨hstep, by rw [hdivide]; rfl⟩)) hterm.2
  · have hcanonical : ∀ step ∈ executionOrder steps, step.operand.Canonical := fun step hstep =>
      canonical_of_forall₂ hall step ((executionOrder_perm steps).mem_iff.1 hstep)
    rw [heval, ← exactSteps_executionOrder hop]
    exact findsExactly_runSteps hterm.1 hcanonical (stepsFit_executionOrder hop hzero' hinteger' hends)

/-! ## 5. Expressions

The value of an expression is the value of its level, and the events are those of the level and two
others, neither of which tells of a division.  So what is exact for the level is exact for the
expression. -/

/-- The expression has the value, and no division of it is cut off. -/
structure EvaluatesExactly (cap : Nat) (expression : String) (v : Rat) : Prop where
  evaluate_eq : ∃ x : Decimal, x.Canonical ∧ x.value = v ∧ evaluate cap expression = .ok x.toString
  untruncated : ∀ event ∈ (run cap expression).events, event.isTruncation = false

theorem evaluatesExactly_of_findsExactly {expression : String} {level : Level} {v : Rat}
    (h : level.Expresses (Text.trim expression.toList))
    (hfinds : (evalLevel cap (liftRuns level.nodes)).FindsExactly v) :
    EvaluatesExactly cap expression v := by
  obtain ⟨hquiet, x, hx, hcanonical, hvalue⟩ := hfinds
  have hrun := @run_of_ofTrimmed cap _ _ h.ofTrimmed
  rw [Traced.bind_of_ok (a := ()) rfl, Traced.bind_of_ok hx, Traced.bind_of_ok (a := ()) rfl] at hrun
  refine ⟨⟨x, hcanonical, hvalue, by rw [evaluate, hrun]; rfl⟩, ?_⟩
  rw [hrun]
  refine List.forall_mem_append.2 ⟨by simp [Traced.tell, Event.isTruncation], ?_⟩
  exact List.forall_mem_append.2 ⟨hquiet, by simp [Traced.tell, Event.isTruncation]⟩

theorem Operand.denotes_of_hasValue {operand : Operand} (h : operand.IsLiteral) {q : Rat}
    (hvalue : operand.term.HasValue q) : ∀ text ∈ operand.literals, ∃ q, Denotes text.chars q := by
  cases operand with
  | group sign level => exact h.elim
  | literal sign text =>
    rw [Operand.literals, List.forall_mem_singleton]
    rw [Operand.term] at hvalue
    cases sign with
    | absent =>
      cases hvalue with
      | literal h => exact ⟨_, h⟩
    | minus | minusPlus =>
      cases hvalue with
      | negate h =>
        cases h with
        | literal h => exact ⟨_, h⟩
    | minusMinus =>
      cases hvalue with
      | negate h =>
        cases h with
        | negate h =>
          cases h with
          | literal h => exact ⟨_, h⟩

/-- The statement about runs, for expressions: the value exists in any case, and is found if it
ends within the cap. -/
theorem Level.Expresses.exists_evaluatesExactly {expression : String} {level : Level}
    (h : level.Expresses (Text.trim expression.toList)) (hrun : level.IsRun)
    (hliterals : ∀ text ∈ level.literals, ∃ q, Denotes text.chars q)
    (hzero : ∀ divisor ∈ level.divisors, ¬ divisor.term.HasValue 0)
    (hinteger : ∀ divisor ∈ level.divisors.tail, ∃ n : Int, divisor.term.HasValue n) :
    ∃ v, level.term.HasValue v ∧ (EndsWithin cap v → EvaluatesExactly cap expression v) := by
  obtain ⟨v, hvalue, hfinds⟩ := Level.exists_findsExactly hrun hliterals hzero hinteger
  exact ⟨v, hvalue, fun hends => evaluatesExactly_of_findsExactly h (hfinds hends)⟩

/-- **Multiplying before dividing keeps a run exact.**  If the value of a run ends within the cap and its
divisors behind the first are integers, the run is evaluated to it and nothing is cut off, wherever the
divisions stand.  Dividing by anything but zero and multiplying by it again gives the number back. -/
theorem run_evaluated_exactly (cap : Nat) (expression : String) :
    (∀ level : Level, level.Expresses (Text.trim expression.toList) → level.IsRun →
      (∀ text ∈ level.literals, ∃ q, Denotes text.chars q) →
      (∀ divisor ∈ level.divisors, ¬ divisor.term.HasValue 0) →
      (∀ divisor ∈ level.divisors.tail, ∃ n : Int, divisor.term.HasValue n) →
      ∃ v, level.term.HasValue v ∧ (EndsWithin cap v → EvaluatesExactly cap expression v)) ∧
    ∀ (x d : Operand) (p q : Rat), x.IsLiteral → d.IsLiteral → x.term.HasValue p →
      d.term.HasValue q → q ≠ 0 → EndsWithin cap p →
      (Level.join x .divide (.join d .multiply (.single d))).Expresses (Text.trim expression.toList) →
        EvaluatesExactly cap expression p := by
  constructor
  · intro level h
    exact h.exists_evaluatesExactly
  · intro x d p q hx hd hp hq hne hends h
    have hliterals : ∀ text ∈ (Level.join x .divide (.join d .multiply (.single d))).literals,
        ∃ q, Denotes text.chars q := by
      simp only [Level.literals, List.forall_mem_append]
      exact ⟨x.denotes_of_hasValue hx hp, d.denotes_of_hasValue hd hq, d.denotes_of_hasValue hd hq⟩
    obtain ⟨v, hv, hexact⟩ := @Level.Expresses.exists_evaluatesExactly cap _ _ h
      ⟨hx, by simpa [Level.operands] using hd, by simp [Level.operands, Operator.isAdditive]⟩ hliterals
      (by simpa [Level.divisors, Level.operands] using fun hzero => hne (hq.unique hzero))
      (by simp [Level.divisors, Level.operands])
    have hterm : (Level.join x .divide (.join d .multiply (.single d))).term =
        .binary .multiply (.binary .divide x.term d.term) d.term := by
      simp [Level.term, Level.terms, Chain.read, Term.readFrom, Operator.isAdditive]
    have hvalue : (Term.binary .multiply (.binary .divide x.term d.term) d.term).HasValue
        (p / q * q) := .binary (.binary hp hq fun _ => hne) hq fun _ => hne
    rw [hterm] at hv
    rw [div_mul_cancel₀ p hne] at hvalue
    rw [hvalue.unique hv] at hends ⊢
    exact hexact hends

theorem isLiteralPart_digitChar : ∀ digit < 10, isLiteralPart (Nat.digitChar digit) = true := by decide

/-- The last digit of a number, behind a sign. -/
def digitOperand (sign : Sign) (n : Nat) : Operand :=
  .literal sign (digitText (n % 10).digitChar (isLiteralPart_digitChar _ (n.mod_lt (by decide))))

/-- The derivation of `7/0.3*9/2`. -/
def dividedRun : Level :=
  .join (digitOperand .absent 7) .divide
    (.join (.literal .absent ⟨['0', '.', '3'], List.cons_ne_nil _ _, List.all_eq_true.1 rfl⟩) .multiply
      (.join (digitOperand .absent 9) .divide (.single (digitOperand .absent 2))))

/-- The quotient by three tenths would not end, and the last division would not come out even, but the
multiplication by nine goes first. -/
theorem run_evaluated_exactly_hundred_and_five :
    EvaluatesExactly 0 "7/0.3*9/2" 105 ∧ EvaluatesExactly 1 "-1.5/.7*.7" (-3 / 2) := by
  have hseven : Denotes ['7'] 7 := @denotes_of_ofString "7" _ (by decide +kernel)
  have htenths : Denotes ['0', '.', '3'] (3 / 10) :=
    @denotes_of_ofString "0.3" _ (by decide +kernel)
  have hnine : Denotes ['9'] 9 := @denotes_of_ofString "9" _ (by decide +kernel)
  have htwo : Denotes ['2'] 2 := @denotes_of_ofString "2" _ (by decide +kernel)
  have hhalf : Denotes ['1', '.', '5'] (3 / 2) :=
    @denotes_of_ofString "1.5" _ (by decide +kernel)
  have hbare : Denotes ['.', '7'] (7 / 10) := @denotes_of_ofString ".7" _ (by decide +kernel)
  constructor
  · have hexpresses : dividedRun.Expresses (Text.trim "7/0.3*9/2".toList) := by
      refine ⟨hasOutline_iff.2 (by decide), by decide, ?_, by decide⟩
      rw [← Text.occurs_iff]
      decide
    obtain ⟨v, hv, hexact⟩ := (run_evaluated_exactly 0 "7/0.3*9/2").1 dividedRun hexpresses
      ⟨trivial, by simp [dividedRun, Level.operands, digitOperand, Operand.IsLiteral],
        by simp [dividedRun, Level.operands, Operator.isAdditive]⟩
      (by
        simp only [dividedRun, Level.literals, digitOperand, Operand.literals, List.cons_append,
          List.nil_append, List.forall_mem_cons]
        exact ⟨⟨_, hseven⟩, ⟨_, htenths⟩, ⟨_, hnine⟩, ⟨_, htwo⟩, List.forall_mem_nil _⟩)
      (by
        refine List.forall_mem_cons.2 ⟨fun h => ?_, List.forall_mem_singleton.2 fun h => ?_⟩
        · exact absurd (h.unique (.literal htenths)) (by norm_num)
        · exact absurd (h.unique (.literal htwo)) (by norm_num))
      (by
        simp only [dividedRun, Level.divisors, Level.operands]
        exact List.forall_mem_singleton.2 ⟨2, .literal htwo⟩)
    have hvalue : dividedRun.term.HasValue (7 / (3 / 10) * 9 / 2) :=
      .binary (.binary (.binary (.literal hseven) (.literal htenths) (by norm_num)) (.literal hnine)
        (by norm_num)) (.literal htwo) (by norm_num)
    have hv105 : v = 105 := by
      rw [hv.unique hvalue]
      norm_num
    rw [hv105] at hexact
    exact hexact ⟨105, by norm_num⟩
  · refine (run_evaluated_exactly 1 "-1.5/.7*.7").2
      (.literal .minus ⟨['1', '.', '5'], List.cons_ne_nil _ _, List.all_eq_true.1 rfl⟩)
      (.literal .absent ⟨['.', '7'], List.cons_ne_nil _ _, List.all_eq_true.1 rfl⟩) (-3 / 2) (7 / 10) trivial
      trivial ?_ (.literal hbare) (by norm_num) ⟨-15, by norm_num⟩ ?_
    · rw [neg_div]
      exact .negate (.literal hhalf)
    · refine ⟨hasOutline_iff.2 (by decide), by decide, ?_, by decide⟩
      rw [← Text.occurs_iff]
      decide

end Expression
end DecimalCalc
