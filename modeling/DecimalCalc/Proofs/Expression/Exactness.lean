/-
# Evaluation is exact

An evaluation in which no division was cut off finds the exact value of the usual reading, or a
divisor in it is exactly zero.  What is cut off shows in the trace, so the statement is carried
through every stage as a property of traced computations, `Traced.Settles`.

The property has two parts, what the value is if there is one and what accounts for a division by
zero, and both are conditional on nothing having been cut off.  It is closed under sequences, so it
can be proved of an operation, then of steps, of levels, of groups and of expressions, each time
from what is known of the parts.  Expressions without a division cannot be cut off and cannot fail;
they are covered by the same property, with a proposition that says that the computation is free of
divisions.

On the way the two orders have to be reconciled.  The usual reading of a run joins from left to
right, and the steps are carried out with the multiplications first.  For exact steps of one kind
the order makes no difference.  The groups of lifted runs are reconciled by reading each run as a
term, and a negated group by the factor of minus one.

* `settles_apply`, `settles_runSteps`: one operation, and the steps of a level in any order;
* `settles_unmixed`: a level of one precedence is joined from left to right;
* `settles_liftRuns`: a level whose runs were lifted has the value of the usual reading;
* `evaluate_exact`: so has an expression.
-/
import DecimalCalc.Proofs.Decimal.Division
import DecimalCalc.Proofs.Expression.Recognition
import DecimalCalc.Proofs.Expression.Runs

namespace DecimalCalc

/-- A division that was cut off.  The event stands right in front of that of the operation. -/
def Event.isTruncation : Event → Bool
  | .divisionTruncated .. => true
  | _ => false

namespace Expression

variable {free : Prop} {cap : Nat}

/-! ## 1. Computations that settle

If a sequence was not cut off, its first part was not, and neither was the second if it came to
that.  So the property of a sequence follows from that of its parts, with what is bad in either
accounted for. -/

namespace Traced

variable {α β : Type}

/-- No division was cut off, as far as the computation came. -/
def Untruncated (x : Traced α) : Prop := ∀ event ∈ x.events, event.isTruncation = false

/-- Unless a division was cut off, the computation ends in a good value, or in a division by zero
that `bad` accounts for.  If it is `free` of divisions, nothing was cut off and nothing is bad. -/
def Settles (free : Prop) (x : Traced α) (good : α → Prop) (bad : Prop) : Prop :=
  free ∨ x.Untruncated →
    (∃ a, x.result = .ok a ∧ good a) ∨
      (¬ free ∧ x.result = .error (.numeric .divisionByZero) ∧ bad)

namespace Settles

variable {x : Traced α} {f : α → Traced β} {good : α → Prop} {bad : Prop}

theorem pure {a : α} (h : good a) : Settles free (Pure.pure a : Traced α) good bad :=
  fun _ => .inl ⟨a, rfl, h⟩

/-- What is good and what is bad may be weakened. -/
theorem mono {good' : α → Prop} {bad' : Prop} (h : Settles free x good bad)
    (hgood : ∀ a, good a → good' a) (hbad : bad → bad') : Settles free x good' bad' := by
  intro hquiet
  rcases h hquiet with ⟨a, ha, hgood'⟩ | ⟨hfree, herror, hbad'⟩
  · exact .inl ⟨a, ha, hgood a hgood'⟩
  · exact .inr ⟨hfree, herror, hbad hbad'⟩

/-- A sequence settles as its parts do.  The second part is known for every good value of the
first. -/
theorem bind {good' : β → Prop} {bad' : Prop} (hx : Settles free x good bad)
    (hf : ∀ a, good a → Settles free (f a) good' bad') (hbad : bad → bad') :
    Settles free (x >>= f) good' bad' := by
  intro hquiet
  have hquiet' : free ∨ x.Untruncated := by
    refine hquiet.imp_right fun hall event hevent => hall event ?_
    rw [events_bind]
    exact List.mem_append_left _ hevent
  rcases hx hquiet' with ⟨a, ha, hgood⟩ | ⟨hfree, herror, hbad'⟩
  · rw [bind_of_ok ha] at hquiet ⊢
    refine hf a hgood (hquiet.imp_right fun hall event hevent => hall event ?_)
    exact List.mem_append_right _ hevent
  · rw [bind_of_error herror]
    exact .inr ⟨hfree, rfl, hbad hbad'⟩

theorem tell (event : Event) : Settles free (Traced.tell event) (fun _ => True) False :=
  fun _ => .inl ⟨(), rfl, trivial⟩

end Settles
end Traced

/-! ## 2. One operation

One operation is exact unless it is a division, and a division is exact or tells that it was cut
off.  A divisor that is zero is refused before anything is told. -/

/-- An operation other than division finds the exact value, and has nothing to report: only a
division can be cut off. -/
theorem operate_of_ne_divide {op : Operator} {x y : Decimal} (hx : x.Canonical) (hy : y.Canonical)
    (hop : op ≠ .divide) :
    ∃ z, operate cap op x y = .ok (z, none) ∧ z.Canonical ∧ z.value = op.exact x.value y.value := by
  cases op with
  | add => exact ⟨x + y, rfl, Decimal.add_canonical hx hy, Decimal.value_add hx hy⟩
  | subtract => exact ⟨x - y, rfl, Decimal.sub_canonical hx hy, Decimal.value_sub hx hy⟩
  | multiply => exact ⟨x * y, rfl, Decimal.mul_canonical hx hy, Decimal.value_mul hx hy⟩
  | divide => exact absurd rfl hop

/-- A division that succeeds is exact, or it tells that it was cut off. -/
theorem operate_divide {x y q : Decimal} (hx : x.Canonical) (hy : y.Canonical)
    (h : Decimal.divide cap x y = .ok q) :
    ∃ truncated, operate cap .divide x y = .ok (q, truncated) ∧
      (truncated = none → q.value = x.value / y.value) ∧
        ∀ event ∈ truncated, event.isTruncation = true := by
  have hne := (Decimal.divide_cases h).1
  by_cases hexact : (x.abs - q.abs * y.abs).isZero = true
  · refine ⟨none, ?_, fun _ => ?_, by simp⟩
    · simp [operate, Decimal.divideWithRemainder, h, Except.map, bind, Except.bind, hexact, pure,
        Except.pure]
    · rw [Decimal.isZero_iff, Decimal.value_remainder hx hy (Decimal.divide_canonical hx hy h),
        Decimal.remainder_eq_zero_iff hx hy h] at hexact
      rw [← hexact, mul_div_cancel_right₀ _ hne]
  · refine ⟨some (.divisionTruncated x.toString y.toString q.toString
      (x.abs - q.abs * y.abs).toString), ?_, by simp, ?_⟩
    · simp [operate, Decimal.divideWithRemainder, h, Except.map, bind, Except.bind, hexact, pure,
        Except.pure]
    · intro event hevent
      rw [← Option.some.inj hevent]
      rfl

/-- What an operation finds: a zero divisor, or the exact value unless it was cut off. -/
theorem operate_spec {op : Operator} {x y : Decimal} (hx : x.Canonical) (hy : y.Canonical) :
    (op = .divide ∧ y.value = 0 ∧ operate cap op x y = .error .divisionByZero) ∨
      ∃ z truncated, operate cap op x y = .ok (z, truncated) ∧ z.Canonical ∧
        (op = .divide → y.value ≠ 0) ∧ (truncated = none → z.value = op.exact x.value y.value) ∧
          ∀ event ∈ truncated, op = .divide ∧ event.isTruncation = true := by
  by_cases hop : op = .divide
  · subst hop
    cases hdivide : Decimal.divide cap x y with
    | error e =>
      obtain ⟨hzero, rfl⟩ := Decimal.divide_eq_error_iff.1 hdivide
      refine .inl ⟨rfl, Decimal.isZero_iff.1 hzero, ?_⟩
      simp [operate, Decimal.divideWithRemainder, hdivide, Except.map, bind, Except.bind]
    | ok q =>
      obtain ⟨truncated, hok, hvalue, htold⟩ := operate_divide hx hy hdivide
      exact .inr ⟨q, truncated, hok, Decimal.divide_canonical hx hy hdivide,
        fun _ => (Decimal.divide_cases hdivide).1, hvalue, fun event h => ⟨rfl, htold event h⟩⟩
  · obtain ⟨z, hok, hz, hvalue⟩ := operate_of_ne_divide hx hy hop
    exact .inr ⟨z, none, hok, hz, fun h => absurd h hop, fun _ => hvalue, by simp⟩

theorem apply_of_error {op : Operator} {x y : Decimal} {e : NumberError}
    (h : operate cap op x y = .error e) : apply cap op x y = ⟨[], [], .error (.numeric e)⟩ := by
  rw [apply, h]
  rfl

/-- An operation that succeeds tells what was cut off, if anything was, and itself; and it is
written to the log. -/
theorem apply_of_ok {op : Operator} {x y z : Decimal} {truncated : Option Event}
    (h : operate cap op x y = .ok (z, truncated)) :
    apply cap op x y =
      ⟨truncated.toList ++ [.operationApplied op x.toString y.toString z.toString],
        [operationRecord op x y z], .ok z⟩ := by
  rw [apply, h]
  cases truncated <;> rfl

/-- **One operation settles**: to its exact value, or with a zero divisor. -/
theorem settles_apply {op : Operator} {x y : Decimal} (hx : x.Canonical) (hy : y.Canonical)
    (hfree : free → op ≠ .divide) :
    (apply cap op x y).Settles free
      (fun z => z.Canonical ∧ z.value = op.exact x.value y.value ∧ (op = .divide → y.value ≠ 0))
      (op = .divide ∧ y.value = 0) := by
  intro hquiet
  rcases operate_spec hx hy with ⟨hop, hzero, herror⟩ | ⟨z, truncated, hok, hz, hne, hvalue, htold⟩
  · rw [apply_of_error herror]
    exact .inr ⟨fun hf => hfree hf hop, rfl, hop, hzero⟩
  · rw [apply_of_ok hok] at hquiet ⊢
    have hnone : truncated = none := by
      cases truncated with
      | none => rfl
      | some event =>
        obtain ⟨hop, hevent⟩ := htold event rfl
        rcases hquiet with hf | hall
        · exact absurd hop (hfree hf)
        · have hquiet := hall event (by simp)
          rw [hevent] at hquiet
          cases hquiet
    exact .inl ⟨z, rfl, hz, hvalue hnone, hne⟩

/-! ## 3. The steps of a level

Steps are carried out on rational numbers as they are on decimals, so a sequence of steps settles to
the exact steps.  These do not depend on the order of execution, as long as all steps are of one
kind. -/

/-- Steps carried out exactly, from left to right.  A division by zero among them is given some
value, and is accounted for apart. -/
def exactSteps (a : Rat) (steps : List Step) : Rat :=
  steps.foldl (fun a step => step.op.exact a step.operand.value) a

/-- The steps one after the other: a value has divided by zero nowhere, and a failure has done so
at some step. -/
theorem settles_runSteps {x : Decimal} {steps : List Step} (hx : x.Canonical)
    (hsteps : ∀ step ∈ steps, step.operand.Canonical)
    (hfree : free → ∀ step ∈ steps, step.op ≠ .divide) :
    (runSteps cap x steps).Settles free
      (fun z => z.Canonical ∧ z.value = exactSteps x.value steps ∧
        ∀ step ∈ steps, step.op = .divide → step.operand.value ≠ 0)
      (∃ step ∈ steps, step.op = .divide ∧ step.operand.value = 0) := by
  induction steps generalizing x with
  | nil => exact .pure ⟨hx, rfl, fun _ hstep => nomatch hstep⟩
  | cons step steps ih =>
    obtain ⟨hfirst, hrest⟩ := List.forall_mem_cons.1 hsteps
    rw [runSteps_cons]
    refine (settles_apply hx hfirst fun hf => hfree hf step List.mem_cons_self).bind ?_ ?_
    · rintro y ⟨hy, hvalue, hne⟩
      refine (ih hy hrest fun hf s hs => hfree hf s (List.mem_cons_of_mem _ hs)).mono ?_ ?_
      · rintro z ⟨hz, hzvalue, hznonzero⟩
        rw [hvalue] at hzvalue
        exact ⟨hz, hzvalue, List.forall_mem_cons.2 ⟨hne, hznonzero⟩⟩
      · rintro ⟨s, hs, hzero⟩
        exact ⟨s, List.mem_cons_of_mem _ hs, hzero⟩
    · intro hzero
      exact ⟨step, List.mem_cons_self, hzero⟩

theorem exact_right_comm {op₁ op₂ : Operator} (h : op₁.isAdditive = op₂.isAdditive) (a x y : Rat) :
    op₂.exact (op₁.exact a x) y = op₁.exact (op₂.exact a y) x := by
  cases op₁ <;> cases op₂ <;>
    first
    | exact absurd h (by decide)
    | simp only [Operator.exact]; ring

/-- **The order of execution makes no difference** to exact steps of one kind. -/
theorem exactSteps_executionOrder {steps : List Step} {kind : Bool}
    (h : ∀ step ∈ steps, step.op.isAdditive = kind) (a : Rat) :
    exactSteps a (executionOrder steps) = exactSteps a steps := by
  have hkind : ∀ step ∈ executionOrder steps, step.op.isAdditive = kind :=
    fun step hstep => h step ((executionOrder_perm steps).mem_iff.1 hstep)
  refine (executionOrder_perm steps).foldl_eq' ?_ a
  intro x hx y hy z
  exact exact_right_comm ((hkind x hx).trans (hkind y hy).symm) z _ _

/-! ## 4. Levels of one precedence

A level is a chain of operands, each of which is known to settle to the value of its term.
Gathering their values settles, and the steps join the terms; so the level settles to the chain
joined from left to right. -/

/-- The decimal is canonical and has the value of the term, so there is only one such decimal. -/
def Term.Evaluates (term : Term) (x : Decimal) : Prop := x.Canonical ∧ term.HasValue x.value

/-- The node is evaluated as the term says. -/
def Means (free : Prop) (cap : Nat) (node : Node) (term : Term) : Prop :=
  (evalNode cap node).Settles free term.Evaluates term.DividesByZero

section

variable {α : Type} {node : α → Node} {term : α → Term}

/-- What has to be known of the operands behind the first one: that the node is evaluated as its
term says, and that the operator is no division where there is to be none. -/
def StepMeans (free : Prop) (cap : Nat) (node : α → Node) (term : α → Term)
    (p : Operator × α) : Prop :=
  Means free cap (node p.2) (term p.2) ∧ (free → p.1 ≠ .divide)

/-- The operands behind the first one settle to steps that have their operators and values. -/
theorem settles_evalSteps : ∀ {rest : List (Operator × α)},
    (∀ p ∈ rest, StepMeans free cap node term p) →
      (evalSteps cap (stepNodes node rest)).Settles free
        (fun steps => List.Forall₂ (fun step p => step.op = p.1 ∧ (term p.2).Evaluates step.operand)
          steps rest)
        (∃ p ∈ rest, (term p.2).DividesByZero)
  | [], _ => by
    rw [stepNodes, List.flatMap_nil, evalSteps]
    exact .pure .nil
  | p :: rest, h => by
    obtain ⟨hp, hrest⟩ := List.forall_mem_cons.1 h
    rw [stepNodes_cons, evalSteps]
    refine hp.1.bind (fun x hx => ?_) fun hzero => ⟨p, List.mem_cons_self, hzero⟩
    refine (settles_evalSteps hrest).bind (fun steps hsteps => ?_) ?_
    · exact .pure (.cons ⟨rfl, hx⟩ hsteps)
    · rintro ⟨q, hq, hzero⟩
      exact ⟨q, List.mem_cons_of_mem _ hq, hzero⟩

/-- What stands on the left has a partner on the right. -/
theorem exists_of_mem_left {β γ : Type} {R : β → γ → Prop} {bs : List β} {cs : List γ}
    (h : List.Forall₂ R bs cs) {b : β} (hb : b ∈ bs) : ∃ c ∈ cs, R b c := by
  induction h with
  | nil => cases hb
  | cons hfirst hrest ih =>
    rcases List.mem_cons.1 hb with rfl | hb
    · exact ⟨_, List.mem_cons_self, hfirst⟩
    · obtain ⟨c, hc, hR⟩ := ih hb
      exact ⟨c, List.mem_cons_of_mem _ hc, hR⟩

/-- Steps that were carried out exactly have found the value of the joined term. -/
theorem hasValue_join {steps : List Step} {rest : List (Operator × α)}
    (h : List.Forall₂ (fun step p => step.op = p.1 ∧ (term p.2).Evaluates step.operand) steps rest)
    (hzero : ∀ step ∈ steps, step.op = .divide → step.operand.value ≠ 0) {first : Term} {a : Rat}
    (hfirst : first.HasValue a) : (Term.join term first rest).HasValue (exactSteps a steps) := by
  induction h generalizing first a with
  | nil => exact hfirst
  | cons hstep hrest ih =>
    obtain ⟨hop, -, hvalue⟩ := hstep
    obtain ⟨hne, hzero⟩ := List.forall_mem_cons.1 hzero
    rw [hop] at hne
    have hbinary := Term.HasValue.binary hfirst hvalue hne
    rw [← hop] at hbinary
    rw [Term.join_cons, ← hop]
    exact ih hzero hbinary

/-- What divides by zero at the start does so when more is joined to it. -/
theorem dividesByZero_join {first : Term} (h : first.DividesByZero)
    (rest : List (Operator × α)) : (Term.join term first rest).DividesByZero := by
  induction rest generalizing first with
  | nil => exact h
  | cons p rest ih => exact ih h.left

/-- A term divides by zero as well if an operand that is joined does, or if one that is divided by
has the value zero. -/
theorem dividesByZero_join_of_mem {p : Operator × α} {rest : List (Operator × α)} (hp : p ∈ rest)
    (h : (term p.2).DividesByZero ∨ p.1 = .divide ∧ (term p.2).HasValue 0) (first : Term) :
    (Term.join term first rest).DividesByZero := by
  induction rest generalizing first with
  | nil => cases hp
  | cons q rest ih =>
    rw [Term.join_cons]
    rcases List.mem_cons.1 hp with rfl | hp
    · apply dividesByZero_join
      rcases h with h | ⟨hop, h⟩
      · exact h.right
      · rw [hop]
        exact .here h
    · exact ih hp _

/-- **A level of one precedence is joined from left to right.** -/
theorem settles_unmixed {chain : Chain α} (hfirst : Means free cap (node chain.first) (term chain.first))
    (hrest : ∀ p ∈ chain.rest, StepMeans free cap node term p) {kind : Bool}
    (hkind : ∀ p ∈ chain.rest, p.1.isAdditive = kind) :
    (evalLevel cap (chain.nodes node)).Settles free (chain.joined term).Evaluates
      (chain.joined term).DividesByZero := by
  rw [Chain.nodes, evalLevel_cons, Chain.joined]
  refine hfirst.bind (fun x hx => ?_) fun hzero => dividesByZero_join hzero _
  refine (settles_evalSteps hrest).bind (fun steps hsteps => ?_) ?_
  · have hmem : ∀ {step : Step}, step ∈ executionOrder steps → ∃ p ∈ chain.rest,
        step.op = p.1 ∧ (term p.2).Evaluates step.operand := fun hstep =>
      exists_of_mem_left hsteps ((executionOrder_perm steps).mem_iff.1 hstep)
    refine (settles_runSteps hx.1 ?_ ?_).mono ?_ ?_
    · intro step hstep
      obtain ⟨p, -, -, hoperand⟩ := hmem hstep
      exact hoperand.1
    · intro hf step hstep
      obtain ⟨p, hp, hop, -⟩ := hmem hstep
      rw [hop]
      exact (hrest p hp).2 hf
    · rintro z ⟨hz, hvalue, hne⟩
      refine ⟨hz, ?_⟩
      have hsame : ∀ step ∈ steps, step.op.isAdditive = kind := by
        intro step hstep
        obtain ⟨p, hp, hop, -⟩ := hmem ((executionOrder_perm steps).mem_iff.2 hstep)
        rw [hop]
        exact hkind p hp
      rw [hvalue, exactSteps_executionOrder hsame]
      exact hasValue_join hsteps
        (fun step hstep => hne step ((executionOrder_perm steps).mem_iff.2 hstep)) hx.2
    · rintro ⟨step, hstep, hop, hzero⟩
      obtain ⟨p, hp, hop', hoperand⟩ := hmem hstep
      have hvalue := hoperand.2
      rw [hzero] at hvalue
      exact dividesByZero_join_of_mem hp (.inr ⟨hop'.symm.trans hop, hvalue⟩) _
  · rintro ⟨p, hp, hzero⟩
    exact dividesByZero_join_of_mem hp (.inl hzero) _

/-! ## 5. Levels whose runs were lifted

A lifted run is an operand that settles to the run, joined; the level of the lifted runs is a chain
again, of one precedence.  Joining the joined runs is the usual reading. -/

/-- A run settles as an operand, lifted into a group or left alone. -/
theorem means_lifted {run : Chain α} (hfirst : Means free cap (node run.first) (term run.first))
    (hrest : ∀ p ∈ run.rest, StepMeans free cap node term p)
    (hkind : ∀ p ∈ run.rest, p.1.isAdditive = false) :
    Means free cap (run.lifted node) (run.joined term) := by
  unfold Chain.lifted
  split
  · next hempty =>
    rw [Chain.joined, List.isEmpty_iff.1 hempty]
    exact hfirst
  · rw [Means, evalNode]
    exact settles_unmixed hfirst hrest hkind

/-- **A level has the value of the usual reading**, its runs being lifted or not. -/
theorem settles_liftRuns (hnode : ∀ a, (node a).isOperand = true) {chain : Chain α}
    (hfirst : Means free cap (node chain.first) (term chain.first))
    (hrest : ∀ p ∈ chain.rest, StepMeans free cap node term p) :
    (evalLevel cap (liftRuns (chain.nodes node))).Settles free (chain.map term).read.Evaluates
      (chain.map term).read.DividesByZero := by
  by_cases hmixed : isMixed (chain.nodes node) = true
  · obtain ⟨hmeans, hmore⟩ := forall_splitRest hrest
    obtain ⟨hkind, hkinds⟩ := isAdditive_splitRest chain.rest
    rw [liftRuns_nodes hnode hmixed, Chain.read_map]
    refine settles_unmixed (means_lifted hfirst hmeans hkind) ?_ (fun p hp => (hkinds p hp).1)
    intro p hp
    exact ⟨means_lifted (hmore p hp).1.1 (hmore p hp).2 (hkinds p hp).2, (hmore p hp).1.2⟩
  · rw [Bool.not_eq_true] at hmixed
    rw [liftRuns_of_not_mixed hmixed]
    rw [isMixed, any_nodes hnode, any_nodes hnode, Bool.and_eq_false_iff] at hmixed
    rcases hmixed with hkind | hkind
    · rw [List.any_eq_false] at hkind
      have hkind' : ∀ p ∈ chain.rest, p.1.isAdditive = false :=
        fun p hp => by simpa using hkind p hp
      rw [Chain.read_of_multiplicative hkind']
      exact settles_unmixed hfirst hrest hkind'
    · rw [List.any_eq_false] at hkind
      have hkind' : ∀ p ∈ chain.rest, p.1.isAdditive = true := fun p hp => by
        simpa [Operator.isMultiplicative_eq_not_isAdditive] using hkind p hp
      rw [Chain.read_of_additive hkind']
      exact settles_unmixed hfirst hrest hkind'

end

/-! ## 6. Operands

At the bottom are literals, which are evaluated without a trace, and groups, which are levels again.
The induction is on derivations, with the property of each operand proved from that of its level. -/

/-- The operands of a level as a chain; the nodes of it are those of the level, and its terms
too. -/
def Level.operands : Level → Chain Operand
  | .single operand => ⟨operand, []⟩
  | .join operand op rest => ⟨operand, (op, rest.operands.first) :: rest.operands.rest⟩

theorem Level.nodes_operands (level : Level) : level.operands.nodes Operand.node = level.nodes := by
  cases level with
  | single operand =>
    rw [Level.nodes]
    rfl
  | join operand op rest =>
    rw [Level.nodes, ← rest.nodes_operands]
    rfl

theorem Level.terms_operands (level : Level) : level.operands.map Operand.term = level.terms := by
  cases level with
  | single operand =>
    rw [Level.terms]
    rfl
  | join operand op rest =>
    rw [Level.terms, ← rest.terms_operands]
    rfl

theorem Operand.isOperand_node (operand : Operand) : operand.node.isOperand = true := by
  cases operand with
  | literal sign text =>
    rw [Operand.node]
    rfl
  | group sign level =>
    rw [Operand.node, groupNode]
    split <;> rfl

/-- A literal is read with the sign that was folded into it. -/
theorem LiteralText.denotes_signed {text : LiteralText} {q : Rat} (h : Denotes text.chars q)
    (sign : Sign) : Denotes (text.signed sign) (if sign.negative then -q else q) := by
  have hne : ∀ c ∈ text.chars, Text.isBlank c = false := by
    intro c hc
    have hvalid := text.valid c hc
    rw [isLiteralPart, Bool.or_eq_true, beq_iff_eq] at hvalid
    rcases hvalid with hdigit | rfl
    · exact isBlank_of_isDigit hdigit
    · decide
  have hsign : ∀ c ∈ text.chars.head?, c ≠ '+' ∧ c ≠ '-' := by
    intro c hc
    obtain ⟨hadd, hsub, -⟩ := ne_of_isLiteralPart (text.valid c (List.mem_of_mem_head? hc))
    exact ⟨hadd, hsub⟩
  unfold LiteralText.signed
  split
  · exact h.neg hne hsign
  · exact h

theorem exists_evalNode_literal {text : LiteralText} {q : Rat} (h : Denotes text.chars q)
    (sign : Sign) : ∃ x, evalNode cap (.literal (text.signed sign)) = pure x ∧
      ((Term.literal text.chars).signed sign).Evaluates x := by
  obtain ⟨x, hx, hcanonical, hvalue⟩ := denotes_iff.1 (text.denotes_signed h sign)
  refine ⟨x, ?_, hcanonical, ?_⟩
  · rw [evalNode, hx]
    rfl
  · rw [hvalue]
    exact (Term.HasValue.literal h).signed sign

/-- A literal settles to its number, with its sign folded in. -/
theorem means_literal {text : LiteralText} {q : Rat} (h : Denotes text.chars q) (sign : Sign) :
    Means free cap (.literal (text.signed sign)) ((Term.literal text.chars).signed sign) := by
  obtain ⟨x, hx, hevaluates⟩ := @exists_evalNode_literal cap _ _ h sign
  rw [Means, hx]
  exact .pure hevaluates

theorem denotes_minus_one : Denotes ['-', '1'] (-1) :=
  denotes_iff.2 ⟨⟨true, [1], []⟩, by decide, by constructor <;> decide, by decide +kernel⟩

/-- **A negated group is minus one times the group**, which is its opposite. -/
theorem means_groupNode {level : List Node} {term : Term}
    (h : (evalLevel cap level).Settles free term.Evaluates term.DividesByZero) (sign : Sign) :
    Means free cap (groupNode sign.negative level) (term.signed sign) := by
  have hgroup : Means free cap (.group level) term := by
    rw [Means, evalNode]
    exact h
  cases hsign : sign.negative with
  | false =>
    refine hgroup.mono (fun x hx => ⟨hx.1, ?_⟩) fun hzero => hzero.signed sign
    have hsigned := hx.2.signed sign
    rwa [hsign] at hsigned
  | true =>
    have hone : Means free cap (.literal ['-', '1']) (.literal ['-', '1']) := by
      obtain ⟨x, hx, hcanonical, hvalue⟩ := denotes_iff.1 denotes_minus_one
      intro _
      refine .inl ⟨x, ?_, hcanonical, hvalue ▸ .literal denotes_minus_one⟩
      rw [evalNode, hx]
      rfl
    have hproduct := @settles_unmixed free cap (Node × Term) Prod.fst Prod.snd
      ⟨(.literal ['-', '1'], .literal ['-', '1']), [(.multiply, (.group level, term))]⟩ hone
      (by simpa [StepMeans] using hgroup) false (by simp [Operator.isAdditive])
    show (evalNode cap (.group [.literal ['-', '1'], .operator .multiply, .group level])).Settles _ _ _
    rw [evalNode]
    refine hproduct.mono ?_ fun hzero => ?_
    · rintro x ⟨hx, hproductValue⟩
      refine ⟨hx, ?_⟩
      generalize x.value = v at hproductValue ⊢
      cases hproductValue with
      | binary hleft hright _ =>
        have hsigned := hright.signed sign
        rw [hleft.unique (.literal denotes_minus_one), Operator.exact, neg_one_mul]
        rwa [hsign] at hsigned
    · cases hzero with
      | left hzero => cases hzero
      | right hzero => exact hzero.signed sign

mutual

/-- An operand settles to its term, if its literals are numbers. -/
theorem Operand.means : ∀ operand : Operand, (∀ text ∈ operand.literals, ∃ q, Denotes text.chars q) →
    (free → '/' ∉ operand.toChars) → Means free cap operand.node operand.term
  | .literal sign text, hliterals, _ => by
    rw [Operand.literals] at hliterals
    obtain ⟨q, hq⟩ := hliterals text (List.mem_singleton_self _)
    rw [Operand.node, Operand.term]
    exact means_literal hq sign
  | .group sign level, hliterals, hfree => by
    rw [Operand.literals] at hliterals
    rw [Operand.node, Operand.term]
    refine means_groupNode (level.settles hliterals fun hf hmem => hfree hf ?_) sign
    rw [Operand.toChars]
    simp [hmem]

theorem Level.means : ∀ level : Level, (∀ text ∈ level.literals, ∃ q, Denotes text.chars q) →
    (free → '/' ∉ level.toChars) →
      Means free cap level.operands.first.node level.operands.first.term ∧
        ∀ p ∈ level.operands.rest, StepMeans free cap Operand.node Operand.term p
  | .single operand, hliterals, hfree => by
    rw [Level.literals] at hliterals
    rw [Level.toChars] at hfree
    exact ⟨operand.means hliterals hfree, fun _ hp => nomatch hp⟩
  | .join operand op rest, hliterals, hfree => by
    rw [Level.literals, List.forall_mem_append] at hliterals
    rw [Level.toChars] at hfree
    obtain ⟨hfirst, hmore⟩ := rest.means hliterals.2 fun hf hmem => hfree hf (by simp [hmem])
    refine ⟨operand.means hliterals.1 fun hf hmem => hfree hf (by simp [hmem]), ?_⟩
    refine List.forall_mem_cons.2 ⟨⟨hfirst, fun hf hop => hfree hf ?_⟩, hmore⟩
    obtain rfl : op = .divide := hop
    simp [Operator.symbol]

/-- **A level settles to the value of its usual reading.** -/
theorem Level.settles (level : Level) (hliterals : ∀ text ∈ level.literals, ∃ q, Denotes text.chars q)
    (hfree : free → '/' ∉ level.toChars) :
    (evalLevel cap (liftRuns level.nodes)).Settles free level.terms.read.Evaluates
      level.terms.read.DividesByZero := by
  obtain ⟨hfirst, hrest⟩ := level.means hliterals hfree
  have hsettles := settles_liftRuns Operand.isOperand_node hfirst hrest
  rwa [level.nodes_operands, level.terms_operands] at hsettles

end

/-! ## 7. Expressions

Around the level, reading the expression and telling its value add events that are no division.  So
an expression settles as its level does, and its value is written as canonical text. -/

/-- The run of an expression settles to the canonical text of its exact value. -/
theorem settles_run {expression : String} {level : Level}
    (h : level.Expresses (Text.trim expression.toList))
    (hliterals : ∀ text ∈ level.literals, ∃ q, Denotes text.chars q)
    (hfree : free → '/' ∉ level.toChars) :
    (run cap expression).Settles free (fun text => ∃ x, level.term.Evaluates x ∧ text = x.toString)
      level.term.DividesByZero := by
  rw [run_of_ofTrimmed h.ofTrimmed]
  refine (Traced.Settles.tell _).bind (fun _ _ => ?_) False.elim
  refine (level.settles hliterals hfree).bind (fun x hx => ?_) id
  refine (Traced.Settles.tell _).bind (fun _ _ => ?_) False.elim
  exact .pure ⟨x, hx, rfl⟩

/-- **Evaluation is exact.**  If no division was cut off, an expression with well-formed literals is
evaluated to the canonical text of the exact value of its usual reading, or a divisor in that reading is
zero and this is reported.  An expression without divisions is always evaluated exactly. -/
theorem evaluate_exact {expression : String} {level : Level}
    (h : level.Expresses (Text.trim expression.toList))
    (hliterals : ∀ text ∈ level.literals, ∃ q, Denotes text.chars q) (cap : Nat) :
    ((∀ event ∈ (run cap expression).events, event.isTruncation = false) →
      (∃ x : Decimal, x.Canonical ∧ level.term.HasValue x.value ∧
        evaluate cap expression = .ok x.toString) ∨
      (evaluate cap expression = .error (.numeric .divisionByZero) ∧ level.term.DividesByZero)) ∧
    ('/' ∉ expression.toList → ∃ x : Decimal, x.Canonical ∧ level.term.HasValue x.value ∧
      evaluate cap expression = .ok x.toString) := by
  constructor
  · intro hquiet
    rcases @settles_run False cap _ _ h hliterals False.elim (.inr hquiet) with
      ⟨_, hresult, x, hx, rfl⟩ | ⟨-, herror, hzero⟩
    · exact .inl ⟨x, hx.1, hx.2, hresult⟩
    · exact .inr ⟨herror, hzero⟩
  · intro hdivision
    have hfree : True → '/' ∉ level.toChars := by
      intro _ hmem
      rw [h.toChars_eq] at hmem
      exact hdivision (Text.mem_of_mem_trim hmem)
    rcases settles_run h hliterals hfree (.inl trivial) with
      ⟨_, hresult, x, hx, rfl⟩ | ⟨hfalse, -⟩
    · exact ⟨x, hx.1, hx.2, hresult⟩
    · exact absurd trivial hfalse

/-- A literal of one digit. -/
def digitText (c : Char) (h : isLiteralPart c = true) : LiteralText :=
  ⟨[c], List.cons_ne_nil _ _, by simpa using h⟩

/-- The derivation of `-2/4*(1--3)`. -/
def sampleLevel : Level :=
  .join (.literal .minus (digitText '2' rfl)) .divide
    (.join (.literal .absent (digitText '4' rfl)) .multiply
      (.single (.group .absent
        (.join (.literal .absent (digitText '1' rfl)) .subtract
          (.single (.literal .minus (digitText '3' rfl)))))))

/-- The division comes out even only because the multiplication goes first. -/
theorem evaluate_exact_sample :
    (∃ x : Decimal, x.Canonical ∧ sampleLevel.term.HasValue x.value ∧
      evaluate 0 "-2/4*(1--3)" = .ok x.toString) ∨
    (evaluate 0 "-2/4*(1--3)" = .error (.numeric .divisionByZero) ∧
      sampleLevel.term.DividesByZero) := by
  have hexpresses : sampleLevel.Expresses (Text.trim "-2/4*(1--3)".toList) := by
    refine ⟨hasOutline_iff.2 (by decide), by decide, ?_, by decide⟩
    rw [← Text.occurs_iff]
    decide
  have hread : ∀ text ∈ sampleLevel.literals, (Decimal.parse text.chars).isOk = true := by decide
  refine (evaluate_exact hexpresses (fun text htext => exists_denotes (hread text htext)) 0).1 ?_
  rw [run_of_ofTrimmed hexpresses.ofTrimmed]
  decide

end Expression
end DecimalCalc
