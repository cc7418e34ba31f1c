/-
# What an evaluation carries out

An evaluation tells of operations and of nothing else.  Each of them stands for one operator of the
tree, and what is told of it is the operation itself, behind the division that was cut off if it was
one.  `Traced.Does` says of a computation which operations it carried out; it is closed under
sequences, so what holds of operands, of steps and of levels is put together as the evaluation puts
them together.

An operation that was performed is a record with more in it than its events: it knows the path to
its level and its place there.  These make it possible to say that no operator is carried out twice,
that the numbers are those of the nodes on either side, and that operations of one level come in a
certain order.  The events are read off the record.  What is proved of a computation is that there
is such a list of records, whose events are all that was told; a reader of the events does not need
to know which list it is.

A level is followed in three parts, the operations inside its operands, gathered from left to right,
and then its own.  Places are given by how many nodes stand in front, so they stay what they are
while the rest of a level is evaluated, and inside of a group the path grows by one place.

* `Performed.StandsIn`, `Performed.InTurn`: where an operation stands, and which one comes first;
* `does_runSteps`: the steps of a level are carried out one after the other, up to one that fails;
* `turn_inOrder`: in the order of execution every step has its turn;
* `executes_evalLevel`: a level carries out its operations, each once and in turn.
-/
import DecimalCalc.Proofs.Expression.Exactness

namespace DecimalCalc
namespace Expression

variable {cap : Nat}

/-! ## 1. Operations and their places

Operations are located by a path and an index, and compared with the operator that stands there.
What is told of an operation is determined by its numbers, including whether it was cut off. -/

/-- The level inside a node; only groups have one, and for other nodes nothing is inside. -/
def Node.inside : Node → List Node
  | .group level => level
  | _ => []

/-- The level at the end of a path: each number on it is the place of a group that is entered. -/
def levelAt? : List Node → List Nat → Option (List Node)
  | level, [] => some level
  | level, k :: path =>
    match level[k]? with
    | some (.group inside) => levelAt? inside path
    | _ => none

/-- Of two operators at their places in a level, the one that is carried out first does not come too
early: operators that are both additive, or the same, keep the order of the text, and no division goes
before a multiplication. -/
def Turn (i : Nat) (op : Operator) (j : Nat) (op' : Operator) : Prop :=
  (op = op' ∨ op.isAdditive = true ∧ op'.isAdditive = true → i < j) ∧
    (op = .divide → op' ≠ .multiply)

/-- An operation that was carried out for an operator of a tree: the path to the operator's level, its
place there, and the numbers. -/
structure Performed where
  path : List Nat
  index : Nat
  op : Operator
  lhs : Decimal
  rhs : Decimal
  result : Decimal
deriving DecidableEq, Repr

namespace Performed

/-- The event of the operation. -/
def event (p : Performed) : Event :=
  .operationApplied p.op p.lhs.toString p.rhs.toString p.result.toString

/-- What the result, taken for a quotient, leaves of the left operand.  It is looked at for
divisions only. -/
def remainder (p : Performed) : Decimal := p.lhs.abs - p.result.abs * p.rhs.abs

/-- The event of a division that was cut off. -/
def truncation (p : Performed) : Option Event :=
  if p.op = .divide ∧ p.remainder.isZero = false then
    some (.divisionTruncated p.lhs.toString p.rhs.toString p.result.toString p.remainder.toString)
  else none

/-- All that is told of the operation: one event, or two if it was cut off. -/
def told (p : Performed) : List Event := p.truncation.toList ++ [p.event]

/-- The operation gave this result, and was cut off or not as its events tell.  The cap is that of
the evaluation. -/
structure Carried (cap : Nat) (p : Performed) : Prop where
  lhs_canonical : p.lhs.Canonical
  rhs_canonical : p.rhs.Canonical
  operate_eq : operate cap p.op p.lhs p.rhs = .ok (p.result, p.truncation)

/-- The operator stands in the level, or in a group inside, and the node behind it has the value of the
right operand. -/
def StandsIn (cap : Nat) (level : List Node) (p : Performed) : Prop :=
  ∃ inside node, levelAt? level p.path = some inside ∧ inside[p.index]? = some (.operator p.op) ∧
    inside[p.index + 1]? = some node ∧ (evalNode cap node).result = .ok p.rhs

/-- Operations of one level are carried out in turn; operations of different levels may come in any
order. -/
def InTurn (p q : Performed) : Prop := p.path = q.path → Turn p.index p.op q.index q.op

/-- The same operation, seen from the level around the group at place `k`. -/
def under (k : Nat) (p : Performed) : Performed := { p with path := k :: p.path }

theorem not_standsIn_nil (p : Performed) : ¬ p.StandsIn cap [] := by
  rintro ⟨inside, node, hlevel, hop, -⟩
  cases hpath : p.path with
  | nil =>
    rw [hpath, levelAt?] at hlevel
    rw [← Option.some.inj hlevel] at hop
    cases hop
  | cons k path =>
    rw [hpath, levelAt?] at hlevel
    cases hlevel

/-- What stands inside a node stands in the level of the node, one place further in. -/
theorem StandsIn.under {node : Node} {p : Performed} (h : p.StandsIn cap node.inside)
    {level : List Node} {k : Nat} (hk : level[k]? = some node) : (p.under k).StandsIn cap level := by
  cases node with
  | literal text => exact absurd h (not_standsIn_nil p)
  | operator op => exact absurd h (not_standsIn_nil p)
  | group inside =>
    obtain ⟨innermost, operand, hlevel, hrest⟩ := h
    refine ⟨innermost, operand, ?_, hrest⟩
    rw [Performed.under, levelAt?, hk]
    exact hlevel

end Performed

theorem divide_of_operate {x y z : Decimal} {truncated : Option Event}
    (h : operate cap .divide x y = .ok (z, truncated)) :
    Decimal.divide cap x y = .ok z ∧
      truncated = if (x.abs - z.abs * y.abs).isZero then none else
        some (.divisionTruncated x.toString y.toString z.toString
          (x.abs - z.abs * y.abs).toString) := by
  cases hdivide : Decimal.divide cap x y with
  | error e => simp [operate, Decimal.divideWithRemainder, hdivide, Except.map, bind, Except.bind] at h
  | ok q =>
    simp only [operate, Decimal.divideWithRemainder, hdivide, Except.map, bind, Except.bind, pure,
      Except.pure, Except.ok.injEq, Prod.mk.injEq] at h
    obtain ⟨rfl, rfl⟩ := h
    exact ⟨rfl, rfl⟩

/-- What an operation finds is what is told of it. -/
theorem truncation_of_operate {op : Operator} {x y z : Decimal} {truncated : Option Event}
    (h : operate cap op x y = .ok (z, truncated)) (path : List Nat) (index : Nat) :
    (Performed.mk path index op x y z).truncation = truncated := by
  cases op with
  | divide =>
    obtain ⟨-, rfl⟩ := divide_of_operate h
    cases hzero : (x.abs - z.abs * y.abs).isZero <;>
      simp [Performed.truncation, Performed.remainder, hzero]
  | add | subtract | multiply =>
    obtain ⟨-, rfl⟩ := Prod.mk.inj (Except.ok.inj h)
    rfl

theorem operate_canonical {op : Operator} {x y z : Decimal} {truncated : Option Event}
    (hx : x.Canonical) (hy : y.Canonical) (h : operate cap op x y = .ok (z, truncated)) :
    z.Canonical := by
  rcases @operate_spec cap op x y hx hy with ⟨-, -, herror⟩ | ⟨z', truncated', hok, hz, -⟩
  · rw [herror] at h
    cases h
  · rw [hok] at h
    obtain ⟨rfl, -⟩ := Prod.mk.inj (Except.ok.inj h)
    exact hz

/-! ## 2. Computations that carry out operations

The list of operations is existential, so that a computation that is put together from parts has the
lists of its parts joined.  The condition on the list and the value may mention both. -/

namespace Traced

variable {α β : Type}

/-- The computation tells of some operations and of nothing else, and `post` holds of them and of
the value it ends in, if it ends in one.  It says something about computations that fail as well. -/
def Does (x : Traced α) (post : List Performed → Option α → Prop) : Prop :=
  ∃ performed : List Performed,
    x.events = performed.flatMap Performed.told ∧ post performed x.result.toOption

namespace Does

variable {x : Traced α} {f : α → Traced β} {post : List Performed → Option α → Prop}

theorem of_silent (hevents : x.events = []) (hpost : post [] x.result.toOption) : x.Does post :=
  ⟨[], hevents, hpost⟩

theorem mono {post' : List Performed → Option α → Prop} (h : x.Does post)
    (himp : ∀ ps a, post ps a → post' ps a) : x.Does post' := by
  obtain ⟨ps, hevents, hpost⟩ := h
  exact ⟨ps, hevents, himp _ _ hpost⟩

/-- The places of the operations may be told from a level further out. -/
theorem under {post' : List Performed → Option α → Prop} (h : x.Does post) (k : Nat)
    (himp : ∀ ps a, post ps a → post' (ps.map (Performed.under k)) a) : x.Does post' := by
  obtain ⟨ps, hevents, hpost⟩ := h
  refine ⟨ps.map (Performed.under k), ?_, himp _ _ hpost⟩
  rw [hevents, List.flatMap_map]
  rfl

/-- **A sequence carries out the operations of its parts**, and those of the first part only if that
does not end in a value. -/
theorem bind {post' : List Performed → Option β → Prop} (hx : x.Does post)
    (hf : ∀ ps a, x.result = .ok a → post ps (some a) → (f a).Does fun qs b => post' (ps ++ qs) b)
    (hfail : ∀ ps, post ps none → post' ps none) : (x >>= f).Does post' := by
  obtain ⟨ps, hevents, hpost⟩ := hx
  cases hresult : x.result with
  | error e =>
    rw [hresult] at hpost
    rw [bind_of_error hresult]
    exact ⟨ps, hevents, hfail ps hpost⟩
  | ok a =>
    rw [hresult] at hpost
    obtain ⟨qs, hevents', hpost'⟩ := hf ps a hresult hpost
    rw [bind_of_ok hresult]
    exact ⟨ps ++ qs, by rw [hevents, hevents', List.flatMap_append], hpost'⟩

/-- Only the value changes in a computation that returns something of it. -/
theorem map {g : α → β} {post' : List Performed → Option β → Prop} (hx : x.Does post)
    (himp : ∀ ps v, post ps v → post' ps (v.map g)) : (do return g (← x)).Does post' := by
  refine hx.bind (fun ps a _ h => ?_) fun ps h => himp ps none h
  refine .of_silent rfl ?_
  rw [List.append_nil]
  exact himp ps (some a) h

end Does
end Traced

/-! ## 3. The steps of a level

The steps of a level are numbered by the places of their operators before they are reordered, and
keep their numbers.  The order of execution puts them in turn, since it sorts by rank and keeps the
order of the text within one. -/

/-- The place of an operator with its step. -/
def Performed.numbered (p : Performed) : Nat × Step := (p.index, ⟨p.op, p.rhs⟩)

/-- One operation is carried out, or none if it fails. -/
theorem does_apply {op : Operator} {x y : Decimal} (hx : x.Canonical) (hy : y.Canonical)
    (index : Nat) : (apply cap op x y).Does fun ps v =>
      (ps = [] ∧ v = none) ∨ ∃ z : Decimal, z.Canonical ∧ v = some z ∧
        (⟨[], index, op, x, y, z⟩ : Performed).Carried cap ∧ ps = [⟨[], index, op, x, y, z⟩] := by
  cases hoperate : operate cap op x y with
  | error e =>
    rw [apply_of_error hoperate]
    exact .of_silent rfl (.inl ⟨rfl, rfl⟩)
  | ok found =>
    obtain ⟨z, truncated⟩ := found
    have htold := truncation_of_operate hoperate [] index
    have hcarried : (⟨[], index, op, x, y, z⟩ : Performed).Carried cap :=
      ⟨hx, hy, by rw [htold]; exact hoperate⟩
    rw [apply_of_ok hoperate]
    refine ⟨[⟨[], index, op, x, y, z⟩], ?_,
      .inr ⟨z, operate_canonical hx hy hoperate, rfl, hcarried, rfl⟩⟩
    rw [List.flatMap_singleton, Performed.told, htold]
    rfl

/-- **The steps of a level are carried out one after the other**, up to one that fails; after the last
one its result is the value. -/
theorem does_runSteps {steps : List (Nat × Step)} (hsteps : ∀ n ∈ steps, n.2.operand.Canonical)
    {x : Decimal} (hx : x.Canonical) : (runSteps cap x (steps.map Prod.snd)).Does fun ps v =>
      (∀ p ∈ ps, p.Carried cap ∧ p.path = []) ∧ ps.map Performed.numbered <+: steps ∧
        ∀ z ∈ v, z.Canonical ∧ ps.length = steps.length ∧ (ps.getLast?.map (·.result)).getD x = z := by
  induction steps generalizing x with
  | nil =>
    refine .of_silent rfl ⟨List.forall_mem_nil _, List.nil_prefix, fun z hz => ?_⟩
    obtain rfl := Option.some.inj hz
    exact ⟨hx, rfl, rfl⟩
  | cons n steps ih =>
    obtain ⟨hn, hsteps⟩ := List.forall_mem_cons.1 hsteps
    rw [List.map_cons, runSteps_cons]
    refine (does_apply hx hn n.1).bind ?_ ?_
    · rintro ps y - (⟨-, hnone⟩ | ⟨z, hz, hsome, hcarried, rfl⟩)
      · cases hnone
      obtain rfl := Option.some.inj hsome
      refine (ih hsteps hz).mono fun qs v hqs => ?_
      obtain ⟨hall, hdone, hvalue⟩ := hqs
      refine ⟨List.forall_mem_cons.2 ⟨⟨hcarried, rfl⟩, hall⟩, ?_, fun w hw => ?_⟩
      · exact List.prefix_cons_iff.2 (.inr ⟨_, rfl, hdone⟩)
      · obtain ⟨hw, hlength, hlast⟩ := hvalue w hw
        refine ⟨hw, congrArg Nat.succ hlength, ?_⟩
        rw [← hlast, List.singleton_append, List.getLast?_cons]
        cases qs.getLast? <;> rfl
    · rintro ps (⟨rfl, -⟩ | ⟨z, -, hsome, -⟩)
      · exact ⟨List.forall_mem_nil _, List.nil_prefix, fun z hz => nomatch hz⟩
      · cases hsome

/-- Steps with their places, in the order in which they are carried out.  Without the places this
is the program's order. -/
def inOrder (steps : List (Nat × Step)) : List (Nat × Step) :=
  [0, 1, 2].flatMap fun rank => steps.filter (·.2.op.rank == rank)

theorem map_inOrder (steps : List (Nat × Step)) :
    (inOrder steps).map Prod.snd = executionOrder (steps.map Prod.snd) := by
  rw [inOrder, executionOrder, List.map_flatMap]
  apply List.flatMap_congr
  intro rank _
  rw [List.filter_map]
  rfl

theorem length_inOrder (steps : List (Nat × Step)) : (inOrder steps).length = steps.length := by
  have hperm := executionOrder_perm (steps.map Prod.snd)
  rw [← map_inOrder] at hperm
  simpa using hperm.length_eq

theorem mem_inOrder {steps : List (Nat × Step)} {n : Nat × Step} (h : n ∈ inOrder steps) :
    n ∈ steps := by
  obtain ⟨rank, -, hn⟩ := List.mem_flatMap.1 h
  exact (List.mem_filter.1 hn).1

/-- Operators of one rank have their turn in the order of the text. -/
theorem turn_of_lt {i j : Nat} {op op' : Operator} (hlt : i < j) (hrank : op.rank = op'.rank) :
    Turn i op j op' := by
  refine ⟨fun _ => hlt, fun hop hop' => ?_⟩
  rw [hop, hop'] at hrank
  cases hrank

theorem turn_of_rank_lt {i j : Nat} {op op' : Operator} (h : op.rank < op'.rank) :
    Turn i op j op' := by
  cases op <;> cases op' <;> simp [Turn, Operator.rank, Operator.isAdditive] at h ⊢

/-- **In the order of execution every step has its turn.** -/
theorem turn_inOrder {steps : List (Nat × Step)} (h : steps.Pairwise fun m n => m.1 < n.1) :
    (inOrder steps).Pairwise fun m n => Turn m.1 m.2.op n.1 n.2.op := by
  have hrank {rank : Nat} {n : Nat × Step} (hn : n ∈ steps.filter (·.2.op.rank == rank)) :
      n.2.op.rank = rank := by simpa using (List.mem_filter.1 hn).2
  refine List.pairwise_flatMap.2 ⟨fun rank _ => ?_, ?_⟩
  · refine (h.filter _).imp_of_mem fun hm hn hlt => turn_of_lt hlt ?_
    rw [hrank hm, hrank hn]
  · have hranks : [0, 1, 2].Pairwise fun r s : Nat => r < s := by decide
    refine hranks.imp fun hlt m hm n hn => turn_of_rank_lt ?_
    rwa [hrank hm, hrank hn]

/-! ## 4. Levels

What a level has carried out is accounted for with a bound on the number of operations, and when it
ends in a value the bound is reached.  The induction is on the tree, with one case for each way in
which a level goes on. -/

mutual

/-- The operators in a node, at any depth. -/
def Node.operatorCount : Node → Nat
  | .literal _ => 0
  | .operator _ => 1
  | .group level => levelOperatorCount level

/-- The operators in a level, groups included. -/
def levelOperatorCount : List Node → Nat
  | [] => 0
  | node :: level => node.operatorCount + levelOperatorCount level

end

/-- Operations of a level, in turn, and no more of them than `count`.  It holds whether or not the
level ends in a value. -/
structure Account (cap : Nat) (level : List Node) (count : Nat) (ps : List Performed) : Prop where
  carried : ∀ p ∈ ps, p.Carried cap
  standsIn : ∀ p ∈ ps, p.StandsIn cap level
  inTurn : ps.Pairwise Performed.InTurn
  length_le : ps.length ≤ count

/-- All operations are carried out, and the last one has found the value.  Without any operation
the value is that of an operand. -/
structure Finishes (count : Nat) (ps : List Performed) (x : Decimal) : Prop where
  canonical : x.Canonical
  length_eq : ps.length = count
  last : ∀ p ∈ ps.getLast?, p.result = x

namespace Account

variable {level : List Node} {count : Nat} {ps : List Performed}

theorem nil (cap : Nat) (level : List Node) (count : Nat) : Account cap level count [] :=
  ⟨List.forall_mem_nil _, List.forall_mem_nil _, .nil, Nat.zero_le _⟩

theorem mono {more : Nat} (h : Account cap level count ps) (hle : count ≤ more) :
    Account cap level more ps :=
  ⟨h.carried, h.standsIn, h.inTurn, h.length_le.trans hle⟩

/-- No more operations than there are. -/
theorem exact (h : Account cap level count ps) : Account cap level ps.length ps :=
  ⟨h.carried, h.standsIn, h.inTurn, le_rfl⟩

theorem append {more : Nat} {qs : List Performed} (h : Account cap level count ps)
    (hqs : Account cap level more qs) (hpath : ∀ p ∈ ps, ∀ q ∈ qs, p.path ≠ q.path) :
    Account cap level (count + more) (ps ++ qs) where
  carried := List.forall_mem_append.2 ⟨h.carried, hqs.carried⟩
  standsIn := List.forall_mem_append.2 ⟨h.standsIn, hqs.standsIn⟩
  inTurn := List.pairwise_append.2
    ⟨h.inTurn, hqs.inTurn, fun p hp q hq heq => absurd heq (hpath p hp q hq)⟩
  length_le := by
    rw [List.length_append]
    exact Nat.add_le_add h.length_le hqs.length_le

theorem under {node : Node} (h : Account cap node.inside count ps) {k : Nat}
    (hk : level[k]? = some node) : Account cap level count (ps.map (Performed.under k)) where
  carried := List.forall_mem_map.2 fun p hp =>
    ⟨(h.carried p hp).lhs_canonical, (h.carried p hp).rhs_canonical, (h.carried p hp).operate_eq⟩
  standsIn := List.forall_mem_map.2 fun p hp => (h.standsIn p hp).under hk
  inTurn := List.pairwise_map.2 <| h.inTurn.imp fun hturn heq => hturn (List.cons.inj heq).2
  length_le := by
    rw [List.length_map]
    exact h.length_le

end Account

/-- That all is done does not depend on the level that it is seen from. -/
theorem Finishes.under {count : Nat} {ps : List Performed} {x : Decimal} (h : Finishes count ps x)
    (k : Nat) : Finishes count (ps.map (Performed.under k)) x where
  canonical := h.canonical
  length_eq := by rw [List.length_map, h.length_eq]
  last := by
    intro p hp
    rw [List.getLast?_map, Option.mem_def, Option.map_eq_some_iff] at hp
    obtain ⟨q, hq, rfl⟩ := hp
    exact h.last q hq

/-- A step with its place in a level: its operator stands there, and the node behind it has the value of
its operand. -/
def StepAt (cap : Nat) (level : List Node) (n : Nat × Step) : Prop :=
  n.2.operand.Canonical ∧ level[n.1]? = some (.operator n.2.op) ∧
    ∃ node, level[n.1 + 1]? = some node ∧ (evalNode cap node).result = .ok n.2.operand

/-- The steps read off `rest`, which stands behind `before`, with the operations carried out inside of
their operands. -/
structure Gathered (cap : Nat) (before rest : List Node) (ps : List Performed)
    (steps : List (Nat × Step)) : Prop where
  stepAt : ∀ n ∈ steps, StepAt cap (before ++ rest) n
  le : ∀ n ∈ steps, before.length ≤ n.1
  ascending : steps.Pairwise fun m n => m.1 < n.1
  length_eq : ps.length + steps.length = levelOperatorCount rest
  eq_nil : steps = [] → ps = []

/-- The operation stands inside of the node at place `k`. -/
def Performed.Inside (k : Nat) (p : Performed) : Prop := ∃ path, p.path = k :: path

/-- The operation stands inside of a node at place `k` or behind it. -/
def Performed.Behind (k : Nat) (p : Performed) : Prop := ∃ j, k ≤ j ∧ p.Inside j

/-- The computation carries out operations of a level, and all of them if it ends in a value. -/
def Traced.Executes (cap : Nat) (level : List Node) (count : Nat) (x : Traced Decimal) : Prop :=
  x.Does fun ps v => Account cap level count ps ∧ ∀ a ∈ v, Finishes count ps a

/-- The computation carries out the operations inside of `rest`, and ends in its steps.  None of
the operations of the level itself is carried out yet. -/
def Traced.Gathers (cap : Nat) (before rest : List Node) (x : Traced (List Step)) : Prop :=
  x.Does fun ps v => Account cap (before ++ rest) (levelOperatorCount rest) ps ∧
    (∀ p ∈ ps, p.Behind before.length) ∧
      ∀ steps ∈ v, ∃ numbered, numbered.map Prod.snd = steps ∧ Gathered cap before rest ps numbered

/-- What stands inside of a node does not stand in the level itself, so its turn does not matter
for the operators of the level. -/
theorem Performed.path_ne_nil_of_behind {k : Nat} {p : Performed} (h : p.Behind k) :
    p.path ≠ [] := by
  obtain ⟨j, -, path, hpath⟩ := h
  rw [hpath]
  exact List.cons_ne_nil _ _

/-- Operations inside of different nodes stand in different levels, and are not compared with each
other. -/
theorem Performed.path_ne_of_behind {k j : Nat} {p q : Performed} (hp : p.Inside k)
    (hq : q.Behind j) (h : k < j) : p.path ≠ q.path := by
  obtain ⟨path, hp⟩ := hp
  obtain ⟨i, hi, path', hq⟩ := hq
  rw [hp, hq]
  intro heq
  obtain ⟨hki, -⟩ := List.cons.inj heq
  omega

/-- What a node carries out, seen from the level in which it stands. -/
theorem Traced.Executes.under {node : Node} {count : Nat} {x : Traced Decimal}
    (h : x.Executes cap node.inside count) {level : List Node} {k : Nat}
    (hk : level[k]? = some node) : x.Does fun ps v => Account cap level count ps ∧
      (∀ p ∈ ps, p.Inside k) ∧ ∀ a ∈ v, Finishes count ps a :=
  Traced.Does.under h k fun _ _ ⟨haccount, hfinishes⟩ =>
    ⟨haccount.under hk, List.forall_mem_map.2 fun p _ => ⟨p.path, rfl⟩,
      fun a ha => (hfinishes a ha).under k⟩

/-- The operations of the level itself are in turn, as its steps are. -/
theorem account_own {level : List Node} {steps : List (Nat × Step)}
    (hsteps : ∀ n ∈ steps, StepAt cap level n) (hascending : steps.Pairwise fun m n => m.1 < n.1)
    {ps : List Performed} (hps : ∀ p ∈ ps, p.Carried cap ∧ p.path = [])
    (hdone : ps.map Performed.numbered <+: inOrder steps) :
    Account cap level steps.length ps where
  carried p hp := (hps p hp).1
  standsIn p hp := by
    obtain ⟨-, hop, node, hnode, hvalue⟩ :=
      hsteps _ (mem_inOrder (hdone.subset (List.mem_map_of_mem hp)))
    exact ⟨level, node, by rw [(hps p hp).2, levelAt?], hop, hnode, hvalue⟩
  inTurn := by
    have hturn := List.pairwise_map.1 ((turn_inOrder hascending).sublist hdone.sublist)
    refine hturn.imp fun h => ?_
    exact fun _ => h
  length_le := by
    rw [← length_inOrder steps, ← ps.length_map]
    exact hdone.length_le

/-- The operations of a level follow those inside of its operands; without an operator there is only the
first operand. -/
theorem Finishes.own {count more : Nat} {ps qs rs : List Performed} {x z : Decimal}
    (hx : Finishes count ps x) (hz : z.Canonical) (hlength : qs.length + rs.length = more)
    (hnil : rs = [] → qs = []) (hlast : (rs.getLast?.map (·.result)).getD x = z) :
    Finishes (count + more) (ps ++ qs ++ rs) z where
  canonical := hz
  length_eq := by
    rw [List.length_append, List.length_append, hx.length_eq, Nat.add_assoc, hlength]
  last := by
    intro p hp
    rcases List.eq_nil_or_concat rs with rfl | ⟨rs, q, rfl⟩
    · rw [hnil rfl, List.append_nil, List.append_nil] at hp
      exact (hx.last p hp).trans hlast
    · rw [List.concat_eq_append, List.getLast?_concat] at hlast
      rw [List.concat_eq_append, ← List.append_assoc, List.getLast?_concat] at hp
      rw [← Option.some.inj hp]
      exact hlast

/-- A level carries out the operations inside its first operand, those inside the others, and its own. -/
theorem executes_level {node : Node} {level : List Node}
    (hnode : (evalNode cap node).Executes cap node.inside node.operatorCount)
    (hlevel : (evalSteps cap level).Gathers cap [node] level) :
    (evalLevel cap (node :: level)).Executes cap (node :: level)
      (levelOperatorCount (node :: level)) := by
  have hcount : levelOperatorCount (node :: level) =
      node.operatorCount + levelOperatorCount level := by rw [levelOperatorCount]
  have hfirst : (node :: level)[0]? = some node := rfl
  rw [evalLevel_cons, hcount]
  refine (hnode.under hfirst).bind ?_ fun ps h => ⟨h.1.mono (Nat.le_add_right _ _), nofun⟩
  rintro ps x - ⟨haccount, hinside, hfinishes⟩
  have hx := hfinishes x rfl
  refine Traced.Does.bind hlevel ?_ ?_
  · rintro qs steps - ⟨haccount', hbehind, hsteps⟩
    obtain ⟨numbered, rfl, hgathered⟩ := hsteps steps rfl
    have hcanonical : ∀ n ∈ inOrder numbered, n.2.operand.Canonical :=
      fun n hn => (hgathered.stepAt n (mem_inOrder hn)).1
    have hown := @does_runSteps cap _ hcanonical _ hx.canonical
    rw [map_inOrder] at hown
    refine hown.mono fun rs v ⟨hown, hdone, hvalue⟩ => ?_
    rw [← hgathered.length_eq, ← List.append_assoc]
    constructor
    · -- operations inside of operands stand on different paths, and those of the level itself on none
      have hoperands := haccount.append haccount'.exact fun p hp q hq =>
        Performed.path_ne_of_behind (hinside p hp) (hbehind q hq) Nat.zero_lt_one
      have hinner : ∀ p ∈ ps ++ qs, p.path ≠ [] := List.forall_mem_append.2
        ⟨fun p hp => Performed.path_ne_nil_of_behind ⟨0, le_rfl, hinside p hp⟩,
          fun q hq => Performed.path_ne_nil_of_behind (hbehind q hq)⟩
      rw [← Nat.add_assoc]
      refine hoperands.append (account_own hgathered.stepAt hgathered.ascending hown hdone) ?_
      intro p hp q hq
      rw [(hown q hq).2]
      exact hinner p hp
    · intro z hz
      obtain ⟨hz, hlength, hlast⟩ := hvalue z hz
      rw [length_inOrder] at hlength
      -- without a step there is only the first operand, so its last operation is the last one of all
      refine hx.own hz (by rw [hlength]) (fun hnil => hgathered.eq_nil ?_) hlast
      rw [hnil] at hlength
      exact List.eq_nil_of_length_eq_zero hlength.symm
  · rintro qs ⟨haccount', hbehind, -⟩
    refine ⟨haccount.append haccount' fun p hp q hq => ?_, nofun⟩
    exact Performed.path_ne_of_behind (hinside p hp) (hbehind q hq) Nat.zero_lt_one

/-- An operand behind the first one adds the operations inside of it, and a step. -/
theorem gathers_cons {op : Operator} {node : Node} {level before : List Node}
    (hnode : (evalNode cap node).Executes cap node.inside node.operatorCount)
    (hlevel : (evalSteps cap level).Gathers cap (before ++ [.operator op, node]) level) :
    (evalSteps cap (.operator op :: node :: level)).Gathers cap before
      (.operator op :: node :: level) := by
  have hcount : levelOperatorCount (.operator op :: node :: level) =
      node.operatorCount + levelOperatorCount level + 1 := by
    rw [levelOperatorCount, levelOperatorCount, Node.operatorCount, Nat.add_comm]
  have hop : (before ++ .operator op :: node :: level)[before.length]? = some (.operator op) := by
    simp
  have hoperand : (before ++ .operator op :: node :: level)[before.length + 1]? = some node := by
    simp
  have hwhole : before ++ [.operator op, node] ++ level = before ++ .operator op :: node :: level := by
    simp
  have hbefore : (before ++ [.operator op, node]).length = before.length + 2 := by simp
  unfold Traced.Gathers at hlevel ⊢
  rw [hwhole, hbefore] at hlevel
  rw [evalSteps, hcount]
  refine (hnode.under hoperand).bind ?_ ?_
  · rintro ps x hx ⟨haccount, hinside, hfinishes⟩
    have hfirst := hfinishes x rfl
    refine hlevel.map fun qs v ⟨haccount', hbehind, hsteps⟩ => ⟨?_, ?_, ?_⟩
    · refine (haccount.append haccount' fun p hp q hq => ?_).mono (Nat.le_succ _)
      exact Performed.path_ne_of_behind (hinside p hp) (hbehind q hq) (by omega)
    · refine List.forall_mem_append.2 ⟨fun p hp => ⟨_, by omega, hinside p hp⟩, fun q hq => ?_⟩
      obtain ⟨k, hk, hq⟩ := hbehind q hq
      exact ⟨k, by omega, hq⟩
    · intro _ hv
      obtain ⟨steps, rfl, rfl⟩ := Option.map_eq_some_iff.1 hv
      obtain ⟨numbered, rfl, hgathered⟩ := hsteps steps rfl
      refine ⟨(before.length, ⟨op, x⟩) :: numbered, rfl, ?_⟩
      have hle := hgathered.le
      have hstepAt := hgathered.stepAt
      have hlength := hgathered.length_eq
      rw [hbefore] at hle
      rw [hwhole] at hstepAt
      exact {
        stepAt := List.forall_mem_cons.2 ⟨⟨hfirst.canonical, hop, node, hoperand, hx⟩, hstepAt⟩
        le := List.forall_mem_cons.2 ⟨le_rfl, fun n hn => by have := hle n hn; omega⟩
        ascending := List.pairwise_cons.2
          ⟨fun n hn => Nat.lt_of_lt_of_le (by omega) (hle n hn), hgathered.ascending⟩
        length_eq := by
          rw [List.length_append, List.length_cons, hfirst.length_eq, hcount]
          omega
        eq_nil := nofun }
  · rintro ps ⟨haccount, hinside, -⟩
    exact ⟨haccount.mono (by omega), fun p hp => ⟨_, by omega, hinside p hp⟩, nofun⟩

mutual

/-- An operand carries out exactly the operations that are inside of it, which a bare number has
none of.  With this the account of a level can pass through its groups. -/
theorem executes_evalNode : ∀ node : Node,
    (evalNode cap node).Executes cap node.inside node.operatorCount
  | .literal text => by
    rw [evalNode]
    refine .of_silent rfl ⟨.nil .., fun x hx => ⟨?_, ?_, nofun⟩⟩
    · cases hread : Decimal.parse text with
      | error e =>
        rw [hread] at hx
        cases hx
      | ok y =>
        rw [hread] at hx
        obtain rfl := Option.some.inj hx
        exact Decimal.parse_canonical hread
    · rw [Node.operatorCount]
      rfl
  | .operator op => by
    rw [evalNode]
    exact .of_silent rfl ⟨.nil .., nofun⟩
  | .group level => by
    rw [evalNode, Node.operatorCount, Node.inside]
    exact executes_evalLevel level

/-- **A level carries out its operations**, each once and in turn. -/
theorem executes_evalLevel : ∀ level : List Node,
    (evalLevel cap level).Executes cap level (levelOperatorCount level)
  | [] => by
    rw [evalLevel_nil]
    exact .of_silent rfl ⟨.nil .., nofun⟩
  | node :: level => executes_level (executes_evalNode node) (gathers_evalSteps level [node])

/-- The operands behind the first one, with the nodes that were passed before them. -/
theorem gathers_evalSteps : ∀ rest before : List Node,
    (evalSteps cap rest).Gathers cap before rest
  | [], before => by
    rw [evalSteps]
    refine .of_silent rfl ⟨.nil .., nofun, fun steps hsteps => ?_⟩
    obtain rfl := Option.some.inj hsteps
    exact ⟨[], rfl, nofun, nofun, .nil, by rw [levelOperatorCount]; rfl, fun _ => rfl⟩
  | [.operator op], before => by
    rw [evalSteps]
    exact .of_silent rfl ⟨.nil .., nofun, nofun⟩
  | .operator op :: node :: level, before =>
    gathers_cons (executes_evalNode node) (gathers_evalSteps level _)
  | .literal _ :: rest, before | .group _ :: rest, before => by
    rw [evalSteps_operand rfl]
    exact .of_silent rfl ⟨.nil .., nofun, nofun⟩

end

end Expression
end DecimalCalc
