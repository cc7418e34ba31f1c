/-
# The trail of an evaluation

What an observer is handed after an evaluation can be audited: every operation that is told of can
be calculated again from the texts in its event, every division says whether it was cut off, and the
operations are those of the tree, each told of once and in turn.  So the trail says how the result
came about, or how far the evaluation got.

The events are described twice.  As a trail they are calculated: the announcement, then what is told
of each operation that was performed, then the value if there is one.  As an audit trail they are
judged by someone who has the events, the tree and the operations on number texts, and does not know
what was performed.  The second follows from the first.  Which event may stand in front of which is
a relation on neighbours, so the statements about positions, that an event at one index is followed
by a certain event at the next, come from one chain condition.

* `Event.Precedes`: which event may stand right in front of which;
* `isChain_trail`: in a trail every event may stand in front of the next one;
* `exists_trail`: the events of an evaluation are the trail of its operations;
* `delivered_events_audited`: what an observer can rely on.
-/
import DecimalCalc.Calculator.Basic
import DecimalCalc.Proofs.Expression.Performed

namespace DecimalCalc

/-- The operation on number texts that an operator stands for.  An auditor has nothing else to
calculate with. -/
def Operator.onTexts (cap : Nat) : Operator → String → String → Except NumberError String
  | .add => NumberText.add
  | .subtract => NumberText.subtract
  | .multiply => NumberText.multiply
  | .divide => NumberText.divide cap

namespace Event

/-- An operation that was carried out. -/
def isOperation : Event → Bool
  | .operationApplied .. => true
  | _ => false

/-- The end of an evaluation that found a value. -/
def isEvaluation : Event → Bool
  | .expressionEvaluated .. => true
  | _ => false

/-- The event may stand right in front of the other one: a division that was cut off is followed by
its operation, and an operation that divides follows it unless quotient and divisor make up the
dividend.  All other pairs are allowed. -/
structure Precedes (x y : Event) : Prop where
  of_truncated : ∀ a b q r, x = .divisionTruncated a b q r → y = .operationApplied .divide a b q
  truncated_iff : ∀ a b q, y = .operationApplied .divide a b q →
    ((∃ r, x = .divisionTruncated a b q r) ↔ NumberText.multiply q b ≠ .ok a)

end Event

namespace Expression

variable {cap : Nat}

/-! ## 1. Operations, from their texts

The texts in an event are canonical, so carrying the operation out on them is carrying it out on the
numbers.  Whether a division was cut off can be told by multiplying back, which needs no cap. -/

/-- An operation can be carried out on the texts of its operands. -/
theorem onTexts_toString {x y : Decimal} (hx : x.Canonical) (hy : y.Canonical) (op : Operator) :
    op.onTexts cap x.toString y.toString =
      (operate cap op x y).map fun found => found.1.toString := by
  have hboth : NumberText.both x.toString y.toString = .ok (x, y) := by
    rw [NumberText.both, ofString_toString hx, ofString_toString hy]
    rfl
  cases op with
  | add => rw [Operator.onTexts, NumberText.add, hboth]; rfl
  | subtract => rw [Operator.onTexts, NumberText.subtract, hboth]; rfl
  | multiply => rw [Operator.onTexts, NumberText.multiply, hboth]; rfl
  | divide =>
    rw [Operator.onTexts, NumberText.divide, hboth, operate, Decimal.divideWithRemainder]
    cases hdivide : Decimal.divide cap x y <;>
      simp [hdivide, bind, Except.bind, Except.map, pure, Except.pure]

namespace Performed

variable {p : Performed} {event : Event}

/-- An operation that was carried out gives its result again when it is repeated on the texts of
its event. -/
theorem onTexts_eq (h : p.Carried cap) :
    p.op.onTexts cap p.lhs.toString p.rhs.toString = .ok p.result.toString := by
  rw [onTexts_toString h.lhs_canonical h.rhs_canonical, h.operate_eq]
  rfl

/-- A division leaves nothing exactly when quotient and divisor make up the dividend. -/
theorem isZero_remainder_iff (h : p.Carried cap) (hop : p.op = .divide) :
    p.remainder.isZero = true ↔
      NumberText.multiply p.result.toString p.rhs.toString = .ok p.lhs.toString := by
  obtain ⟨hx, hy, hoperate⟩ := h
  have hq := operate_canonical hx hy hoperate
  rw [hop] at hoperate
  obtain ⟨hdivide, -⟩ := divide_of_operate hoperate
  have hproduct : NumberText.multiply p.result.toString p.rhs.toString =
      .ok (p.result * p.rhs).toString := @onTexts_toString cap _ _ hq hy .multiply
  rw [hproduct, Except.ok.injEq, toString_eq_iff (Decimal.mul_canonical hq hy) hx,
    Decimal.value_mul hq hy, Decimal.isZero_iff, remainder, Decimal.value_remainder hx hy hq,
    Decimal.remainder_eq_zero_iff hx hy hdivide]

/-- An operation is told alone, or behind the division that was cut off. -/
theorem told_cases (p : Performed) :
    (p.told = [p.event] ∧ (p.op = .divide → p.remainder.isZero = true)) ∨
      (p.told = [.divisionTruncated p.lhs.toString p.rhs.toString p.result.toString
        p.remainder.toString, p.event] ∧ p.op = .divide ∧ p.remainder.isZero = false) := by
  unfold told truncation
  split
  · next h => exact .inr ⟨rfl, h⟩
  · next h => exact .inl ⟨rfl, fun hop => by simpa [hop] using h⟩

end Performed

/-! ## 2. Trails

A trail is a list that is calculated from what was performed.  What is in it, what it ends in and
what follows what are each read off that list, by induction on the operations. -/

/-- What is told of an evaluation: that the expression was read, what was carried out, and the
value if one was found.  Nothing else is ever told. -/
def trail (trimmed : String) (terms : UInt64) (ps : List Performed) (value : Option String) :
    List Event :=
  .expressionParsed trimmed terms ::
    (ps.flatMap Performed.told ++ (value.map (Event.expressionEvaluated trimmed)).toList)

section

variable (trimmed : String) (terms : UInt64) (ps : List Performed) (value : Option String)

/-- The operations of a trail are those that were performed, in their order. -/
theorem filter_isOperation_trail :
    (trail trimmed terms ps value).filter Event.isOperation = ps.map Performed.event := by
  have htold (p : Performed) : p.told.filter Event.isOperation = [p.event] := by
    rcases p.told_cases with ⟨h, -⟩ | ⟨h, -⟩ <;> rw [h] <;> rfl
  have hclosing : (value.map (Event.expressionEvaluated trimmed)).toList.filter Event.isOperation =
      [] := by cases value <;> rfl
  rw [trail, List.filter_cons_of_neg Bool.false_ne_true, List.filter_append, List.filter_flatMap,
    hclosing, List.append_nil, List.map_eq_flatMap]
  exact List.flatMap_congr fun p _ => htold p

/-- A value is told once if there is one, and not at all otherwise. -/
theorem filter_isEvaluation_trail : (trail trimmed terms ps value).filter Event.isEvaluation =
    (value.map (Event.expressionEvaluated trimmed)).toList := by
  have htold (p : Performed) : p.told.filter Event.isEvaluation = [] := by
    rcases p.told_cases with ⟨h, -⟩ | ⟨h, -⟩ <;> rw [h] <;> rfl
  have hclosing : (value.map (Event.expressionEvaluated trimmed)).toList.filter Event.isEvaluation =
      (value.map (Event.expressionEvaluated trimmed)).toList := by cases value <;> rfl
  rw [trail, List.filter_cons_of_neg Bool.false_ne_true, List.filter_append, List.filter_flatMap,
    hclosing, List.flatMap_eq_nil_iff.2 fun p _ => htold p, List.nil_append]

/-- If there is a value, it is told at the end. -/
theorem getLast?_trail_some (text : String) :
    (trail trimmed terms ps (some text)).getLast? = some (.expressionEvaluated trimmed text) := by
  rw [trail, Option.map_some, Option.toList_some, ← List.cons_append, List.getLast?_concat]

/-- A trail does not end in a division that was cut off. -/
theorem isTruncation_getLast_trail :
    ∀ event ∈ (trail trimmed terms ps value).getLast?, event.isTruncation = false := by
  intro event hevent
  cases value with
  | some text =>
    rw [getLast?_trail_some] at hevent
    rw [← Option.some.inj hevent]
    rfl
  | none =>
    rw [trail, Option.map_none, Option.toList_none, List.append_nil] at hevent
    rcases List.eq_nil_or_concat ps with rfl | ⟨ps, p, rfl⟩
    · rw [← Option.some.inj hevent]
      rfl
    · rw [List.concat_eq_append, List.flatMap_append, List.flatMap_singleton, Performed.told,
        ← List.append_assoc, ← List.cons_append, List.getLast?_concat] at hevent
      rw [← Option.some.inj hevent]
      rfl

end

/-- What is no division cut off may stand in front of anything that is no operation. -/
theorem precedes_of_not_isOperation {x y : Event} (hx : x.isTruncation = false)
    (hy : y.isOperation = false) : x.Precedes y where
  of_truncated a b q r h := by
    rw [h] at hx
    cases hx
  truncated_iff a b q h := by
    rw [h] at hy
    cases hy

namespace Performed

/-- An operation that was not cut off may stand behind anything but a division that was. -/
theorem precedes_event {p : Performed} (h : p.Carried cap)
    (hzero : p.op = .divide → p.remainder.isZero = true) {x : Event} (hx : x.isTruncation = false) :
    x.Precedes p.event where
  of_truncated a b q r heq := by
    rw [heq] at hx
    cases hx
  truncated_iff a b q heq := by
    obtain ⟨hop, rfl, rfl, rfl⟩ := Event.operationApplied.inj heq
    refine iff_of_false ?_ (not_not_intro ((isZero_remainder_iff h hop).1 (hzero hop)))
    rintro ⟨r, rfl⟩
    cases hx

/-- A division that was cut off may stand behind what tells so. -/
theorem truncated_precedes_event {p : Performed} (h : p.Carried cap) (hop : p.op = .divide)
    (hzero : p.remainder.isZero = false) (r : String) :
    (Event.divisionTruncated p.lhs.toString p.rhs.toString p.result.toString r).Precedes p.event where
  of_truncated a b q r heq := by
    obtain ⟨rfl, rfl, rfl, -⟩ := Event.divisionTruncated.inj heq
    rw [event, hop]
  truncated_iff a b q heq := by
    obtain ⟨-, rfl, rfl, rfl⟩ := Event.operationApplied.inj heq
    refine iff_of_true ⟨r, rfl⟩ fun hproduct => ?_
    rw [(isZero_remainder_iff h hop).2 hproduct] at hzero
    cases hzero

end Performed

/-- The events of operations may follow any event but a division that was cut off, and so on to
the closing.  The induction is on the operations, with the event in front of them as what they
follow. -/
theorem isChain_told {ps : List Performed} (hps : ∀ p ∈ ps, p.Carried cap) {closing : Option Event}
    (hclosing : ∀ event ∈ closing, event.isOperation = false) {x : Event}
    (hx : x.isTruncation = false) :
    (x :: (ps.flatMap Performed.told ++ closing.toList)).IsChain Event.Precedes := by
  induction ps generalizing x with
  | nil =>
    cases closing with
    | none => exact List.isChain_singleton x
    | some y =>
      exact List.isChain_cons_cons.2
        ⟨precedes_of_not_isOperation hx (hclosing y rfl), List.isChain_singleton y⟩
  | cons p ps ih =>
    obtain ⟨hp, hps⟩ := List.forall_mem_cons.1 hps
    have hrest := ih hps (x := p.event) rfl
    rw [List.flatMap_cons, List.append_assoc]
    rcases p.told_cases with ⟨htold, hzero⟩ | ⟨htold, hop, hzero⟩
    · rw [htold]
      exact List.isChain_cons_cons.2 ⟨Performed.precedes_event hp hzero hx, hrest⟩
    · rw [htold]
      exact List.isChain_cons_cons.2 ⟨precedes_of_not_isOperation hx rfl,
        List.isChain_cons_cons.2 ⟨Performed.truncated_precedes_event hp hop hzero _, hrest⟩⟩

/-- **In a trail every event may stand in front of the next one.** -/
theorem isChain_trail (trimmed : String) (terms : UInt64) {ps : List Performed}
    (hps : ∀ p ∈ ps, p.Carried cap) (value : Option String) :
    (trail trimmed terms ps value).IsChain Event.Precedes := by
  refine isChain_told hps (fun event hevent => ?_) rfl
  obtain ⟨text, -, rfl⟩ := Option.map_eq_some_iff.1 hevent
  rfl

section

variable {events : List Event} (h : events.IsChain Event.Precedes)
include h

theorem precedes_of_getElem? {i : Nat} {x y : Event} (hx : events[i]? = some x)
    (hy : events[i + 1]? = some y) : x.Precedes y := by
  obtain ⟨hi, rfl⟩ := List.getElem?_eq_some_iff.1 hx
  obtain ⟨hnext, rfl⟩ := List.getElem?_eq_some_iff.1 hy
  exact List.isChain_iff_getElem.1 h i hnext

/-- An event of a division that was cut off is followed by the event of the operation, since it is
not the last one and its neighbour tells of the same division. -/
theorem getElem?_succ_of_truncated
    (hlast : ∀ event ∈ events.getLast?, event.isTruncation = false) {i : Nat} {a b q r : String}
    (hi : events[i]? = some (.divisionTruncated a b q r)) :
    events[i + 1]? = some (.operationApplied .divide a b q) := by
  cases hnext : events[i + 1]? with
  | some y => rw [(precedes_of_getElem? h hi hnext).of_truncated a b q r rfl]
  | none =>
    -- then it would be the last event
    have hle := List.getElem?_eq_none_iff.1 hnext
    obtain ⟨hlt, -⟩ := List.getElem?_eq_some_iff.1 hi
    have hend : events.length - 1 = i := by omega
    have hquiet := hlast (.divisionTruncated a b q r) (by rw [List.getLast?_eq_getElem?, hend, hi]; rfl)
    cases hquiet

/-- In front of a division it is told that it was cut off, or quotient and divisor make up the
dividend. -/
theorem truncated_iff_of_getElem?_succ {i : Nat} {a b q : String}
    (hi : events[i + 1]? = some (.operationApplied .divide a b q)) :
    (∃ r, events[i]? = some (.divisionTruncated a b q r)) ↔ NumberText.multiply q b ≠ .ok a := by
  obtain ⟨hlt, -⟩ := List.getElem?_eq_some_iff.1 hi
  have hx : events[i]? = some events[i] := List.getElem?_eq_getElem (by omega)
  rw [hx]
  simp only [Option.some.injEq]
  exact (precedes_of_getElem? h hx hi).truncated_iff a b q rfl

end

/-! ## 3. Evaluations

The events of an evaluation are a trail, by what is known of the operations that a level performs.
The auditor's structure is then filled in field by field. -/

/-- **The events of an evaluation are the trail of its operations**, and of its value if it has one. -/
theorem exists_trail {expression : String} {tree : Tree}
    (h : Tree.ofTrimmed (Text.trim expression.toList) = .ok tree) :
    ∃ ps, Account cap tree.level (levelOperatorCount tree.level) ps ∧
      (run cap expression).events = trail (String.ofList (Text.trim expression.toList))
        (.ofNat tree.termCount) ps (run cap expression).result.toOption ∧
      ∀ value, (run cap expression).result = .ok value →
        ∃ x, Finishes (levelOperatorCount tree.level) ps x ∧ value = x.toString := by
  obtain ⟨ps, hevents, haccount, hfinishes⟩ := @executes_evalLevel cap tree.level
  refine ⟨ps, haccount, ?_⟩
  rw [run_of_ofTrimmed h, Traced.bind_of_ok (x := Traced.tell _) rfl]
  cases hresult : (evalLevel cap tree.level).result with
  | error e =>
    rw [Traced.bind_of_error hresult, hevents]
    refine ⟨?_, nofun⟩
    rw [trail, Except.toOption, Option.map_none, Option.toList_none, List.append_nil]
    rfl
  | ok x =>
    rw [hresult] at hfinishes
    rw [Traced.bind_of_ok hresult, hevents]
    exact ⟨rfl, fun value hvalue => ⟨x, hfinishes x rfl, (Except.ok.inj hvalue).symm⟩⟩

/-- What can be relied on in the events of an evaluation that read an expression as a tree. -/
structure AuditTrail (cap : Nat) (trimmed : String) (tree : Tree) (events : List Event)
    (result : Except ExpressionError String) : Prop where
  /-- First it is told that the expression was read. -/
  parsed : events.head? = some (.expressionParsed trimmed (.ofNat tree.termCount))
  /-- Every operation gives its result again when it is carried out on the texts. -/
  applied : ∀ op a b c, .operationApplied op a b c ∈ events → op.onTexts cap a b = .ok c
  /-- Behind a division that was cut off stands its operation. -/
  truncated : ∀ i a b q r, events[i]? = some (.divisionTruncated a b q r) →
    events[i + 1]? = some (.operationApplied .divide a b q)
  /-- A division is told to be cut off exactly when quotient and divisor do not make up the dividend. -/
  divided : ∀ i a b q, events[i + 1]? = some (.operationApplied .divide a b q) →
    ((∃ r, events[i]? = some (.divisionTruncated a b q r)) ↔ NumberText.multiply q b ≠ .ok a)
  /-- The operations stand for operators of the tree, and those of a level are told of in turn. -/
  inTurn : ∃ ps : List Performed, ps.map Performed.event = events.filter Event.isOperation ∧
    (∀ p ∈ ps, p.StandsIn cap tree.level) ∧ ps.Pairwise Performed.InTurn
  /-- If there is a value, all operators were carried out, the last one gave the value, and at the end,
  and only there, the value is told. -/
  evaluated : ∀ value, result = .ok value →
    events.countP Event.isOperation = levelOperatorCount tree.level ∧
    (∀ op a b c, (events.filter Event.isOperation).getLast? = some (.operationApplied op a b c) →
      c = value) ∧
    events.getLast? = some (.expressionEvaluated trimmed value) ∧
    events.countP Event.isEvaluation = 1
  /-- If there is none, no value is told. -/
  failed : ∀ e, result = .error e → events.countP Event.isEvaluation = 0 ∧
    events.countP Event.isOperation ≤ levelOperatorCount tree.level

/-- A trail can be audited, if its operations are accounted for in the tree and end in the value
that is told. -/
theorem auditTrail_trail (trimmed : String) {tree : Tree} {ps : List Performed}
    (haccount : Account cap tree.level (levelOperatorCount tree.level) ps)
    {result : Except ExpressionError String}
    (hvalue : ∀ value, result = .ok value →
      ∃ x, Finishes (levelOperatorCount tree.level) ps x ∧ value = x.toString) :
    AuditTrail cap trimmed tree (trail trimmed (.ofNat tree.termCount) ps result.toOption) result := by
  have hchain := isChain_trail trimmed (.ofNat tree.termCount) haccount.carried result.toOption
  have hoperations := filter_isOperation_trail trimmed (.ofNat tree.termCount) ps result.toOption
  have hevaluations := filter_isEvaluation_trail trimmed (.ofNat tree.termCount) ps result.toOption
  constructor
  case parsed => rfl
  case applied =>
    intro op a b c hevent
    have hmem := List.mem_filter.2 ⟨hevent, show Event.isOperation _ = true from rfl⟩
    rw [hoperations] at hmem
    obtain ⟨p, hp, heq⟩ := List.mem_map.1 hmem
    obtain ⟨rfl, rfl, rfl, rfl⟩ := Event.operationApplied.inj heq
    exact Performed.onTexts_eq (haccount.carried p hp)
  case truncated =>
    intro i a b q r hi
    exact getElem?_succ_of_truncated hchain (isTruncation_getLast_trail _ _ _ _) hi
  case divided =>
    intro i a b q hi
    exact truncated_iff_of_getElem?_succ hchain hi
  case inTurn => exact ⟨ps, hoperations.symm, haccount.standsIn, haccount.inTurn⟩
  case evaluated =>
    rintro value rfl
    obtain ⟨x, hfinishes, rfl⟩ := hvalue value rfl
    rw [List.countP_eq_length_filter, List.countP_eq_length_filter, hoperations, hevaluations,
      List.length_map]
    refine ⟨hfinishes.length_eq, fun op a b c hc => ?_, getLast?_trail_some .., rfl⟩
    rw [List.getLast?_map] at hc
    obtain ⟨p, hp, heq⟩ := Option.map_eq_some_iff.1 hc
    rw [← hfinishes.last p hp]
    exact (Event.operationApplied.inj heq).2.2.2.symm
  case failed =>
    rintro e rfl
    rw [List.countP_eq_length_filter, List.countP_eq_length_filter, hoperations, hevaluations,
      List.length_map]
    exact ⟨rfl, haccount.length_le⟩

/-- **The events that are delivered can be audited.**  There are none if the expression cannot be read
as a tree. -/
theorem delivered_events_audited (cap : Nat) (expression : String) :
    (∀ cause, Tree.ofChars expression.toList = .error cause →
      (evaluateFor .recording cap expression).events = []) ∧
    ∀ tree, Tree.ofChars expression.toList = .ok tree →
      AuditTrail cap (String.ofList (Text.trim expression.toList)) tree
        (evaluateFor .recording cap expression).events
        (evaluateFor .recording cap expression).result := by
  constructor
  · intro cause hread
    have hrun : (run cap expression).events = [] := by
      rw [run, show Tree.ofTrimmed (Text.trim expression.toList) = _ from hread]
      rfl
    exact hrun
  · intro tree hread
    obtain ⟨ps, haccount, hevents, hvalue⟩ := exists_trail hread
    have haudit := auditTrail_trail (String.ofList (Text.trim expression.toList)) haccount hvalue
    rwa [← hevents] at haudit

/-- The multiplication of a run goes first, the division is cut off, and the addition is last. -/
theorem delivered_events_audited_run :
    (evaluateFor .recording 2 "1+7/()*2").events = [] ∧
    (∃ tree, Tree.ofChars " 1+7/3*2 ".toList = .ok tree ∧ AuditTrail 2 "1+7/3*2" tree
      (evaluateFor .recording 2 " 1+7/3*2 ").events (evaluateFor .recording 2 " 1+7/3*2 ").result) ∧
    (evaluateFor .recording 2 " 1+7/3*2 ").events =
      [.expressionParsed "1+7/3*2" 2, .operationApplied .multiply "7" "2" "14",
        .divisionTruncated "14" "3" "4.66" "0.02", .operationApplied .divide "14" "3" "4.66",
        .operationApplied .add "1" "4.66" "5.66", .expressionEvaluated "1+7/3*2" "5.66"] := by
  refine ⟨?_, ?_, by decide +kernel⟩
  · cases hread : Tree.ofChars "1+7/()*2".toList with
    | error cause => exact (delivered_events_audited 2 _).1 cause hread
    | ok tree =>
      have hrefused : (Tree.ofChars "1+7/()*2".toList).isOk = false := by decide +kernel
      rw [hread] at hrefused
      cases hrefused
  · cases hread : Tree.ofChars " 1+7/3*2 ".toList with
    | error cause =>
      have haccepted : (Tree.ofChars " 1+7/3*2 ".toList).isOk = true := by decide +kernel
      rw [hread] at haccepted
      cases haccepted
    | ok tree =>
      have htrimmed : String.ofList (Text.trim " 1+7/3*2 ".toList) = "1+7/3*2" := by decide
      refine ⟨tree, rfl, ?_⟩
      rw [← htrimmed]
      exact (delivered_events_audited 2 _).2 tree hread

end Expression
end DecimalCalc
