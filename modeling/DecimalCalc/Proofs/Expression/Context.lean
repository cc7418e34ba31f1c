/-
# Contexts

A context is a derivation with one operand left out.  Putting an operand into it writes the
operand's text between the two texts around the hole, and nests no deeper than the operand asks for.

In a derived text every group that one sees is a group of the derivation: where an opening
parenthesis stands, a balanced text behind it and a closing parenthesis behind that, the text
between them is that of a level, and what stands around the parentheses is the text of a context, up
to the group's sign.  This is what allows a theorem to speak of a group by its text alone.  The
argument is one about parentheses.  A derived text is balanced, and a balanced text is closed at one
place only, so a group that is found in the text cannot begin in one operand and end in another, nor
can it end at another parenthesis than the group of the derivation that begins there.

Contexts are an inductive type with the shape of derivations, so that proofs about them follow the
hole: through the level it stands in, the operand, the group, down to the operand left out.

* `LevelContext.toChars_fill`: the text of a filled context;
* `Level.balanced`: derived texts are balanced;
* `append_eq_append_group`: of two texts, the first being balanced, one holds the whole group;
* `Level.exists_context`: a group of the text is a group of the derivation.
-/
import DecimalCalc.Proofs.Expression.Building
import Mathlib.Algebra.Order.Group.Int

namespace DecimalCalc
namespace Expression

/-! ## 1. Contexts and their texts

The two types are mutual, as operands and levels are.  Filling, and the texts in front of the hole
and behind it, are each defined by recursion on the context, and the first theorem is that they
belong together. -/

mutual

/-- An operand with an operand left out of it: itself, or one inside of its level.  The sign of a
group on the way is part of the context. -/
inductive OperandContext where
  | hole
  | inside (sign : Sign) (context : LevelContext)

/-- A level with one of its operands left out, or an operand inside of one of them. -/
inductive LevelContext where
  | single (context : OperandContext)
  | first (context : OperandContext) (op : Operator) (rest : Level)
  | later (operand : Operand) (op : Operator) (context : LevelContext)

end

mutual

/-- Puts an operand into the hole. -/
def OperandContext.fill (x : Operand) : OperandContext → Operand
  | .hole => x
  | .inside sign context => .group sign (context.fill x)

/-- Puts an operand into the hole. -/
def LevelContext.fill (x : Operand) : LevelContext → Level
  | .single context => .single (context.fill x)
  | .first context op rest => .join (context.fill x) op rest
  | .later operand op context => .join operand op (context.fill x)

end

mutual

/-- The text in front of the hole. -/
def OperandContext.before : OperandContext → List Char
  | .hole => []
  | .inside sign context => sign.toChars ++ '(' :: context.before

/-- The text in front of the hole. -/
def LevelContext.before : LevelContext → List Char
  | .single context => context.before
  | .first context _ _ => context.before
  | .later operand op context => operand.toChars ++ op.symbol :: context.before

end

mutual

/-- The text behind the hole, which closes every group that was opened in front of it. -/
def OperandContext.after : OperandContext → List Char
  | .hole => []
  | .inside _ context => context.after ++ [')']

/-- The text behind the hole. -/
def LevelContext.after : LevelContext → List Char
  | .single context => context.after
  | .first context op rest => context.after ++ op.symbol :: rest.toChars
  | .later _ _ context => context.after

end

mutual

theorem OperandContext.toChars_fill (x : Operand) : ∀ context : OperandContext,
    (context.fill x).toChars = context.before ++ x.toChars ++ context.after
  | .hole => by simp [OperandContext.fill, OperandContext.before, OperandContext.after]
  | .inside sign context => by
    simp [OperandContext.fill, OperandContext.before, OperandContext.after, Operand.toChars,
      context.toChars_fill x]

/-- **The text of a filled context** is that of the operand between the texts around the hole. -/
theorem LevelContext.toChars_fill (x : Operand) : ∀ context : LevelContext,
    (context.fill x).toChars = context.before ++ x.toChars ++ context.after
  | .single context => context.toChars_fill x
  | .first context op rest => by
    simp [LevelContext.fill, LevelContext.before, LevelContext.after, Level.toChars,
      context.toChars_fill x]
  | .later operand op context => by
    simp [LevelContext.fill, LevelContext.before, LevelContext.after, Level.toChars,
      context.toChars_fill x]

end

mutual

theorem OperandContext.depth_le_depth_fill (x : Operand) : ∀ context : OperandContext,
    x.depth ≤ (context.fill x).depth
  | .hole => le_rfl
  | .inside _ context => (context.depth_le_depth_fill x).trans (Nat.le_succ _)

/-- A filled context nests no less deeply than the operand, so the operand is within the limit if
the whole is. -/
theorem LevelContext.depth_le_depth_fill (x : Operand) : ∀ context : LevelContext,
    x.depth ≤ (context.fill x).depth
  | .single context => context.depth_le_depth_fill x
  | .first context _ _ => (context.depth_le_depth_fill x).trans (Nat.le_max_left _ _)
  | .later _ _ context => (context.depth_le_depth_fill x).trans (Nat.le_max_right _ _)

end

mutual

theorem OperandContext.depth_fill_mono {x y : Operand} (h : x.depth ≤ y.depth) :
    ∀ context : OperandContext, (context.fill x).depth ≤ (context.fill y).depth
  | .hole => h
  | .inside _ context => Nat.succ_le_succ (context.depth_fill_mono h)

/-- An operand that nests less deeply makes a level that does not nest more deeply. -/
theorem LevelContext.depth_fill_mono {x y : Operand} (h : x.depth ≤ y.depth) :
    ∀ context : LevelContext, (context.fill x).depth ≤ (context.fill y).depth
  | .single context => context.depth_fill_mono h
  | .first context _ rest => max_le_max_right rest.depth (context.depth_fill_mono h)
  | .later operand _ context => max_le_max_left operand.depth (context.depth_fill_mono h)

end

theorem not_endsOperand_symbol (op : Operator) : ¬ EndsOperand op.symbol := by
  cases op <;> simp [EndsOperand, Operator.symbol, isLiteralPart]

mutual

theorem OperandContext.not_endsOperand_before : ∀ context : OperandContext,
    ∀ c ∈ context.before.getLast?, ¬ EndsOperand c
  | .hole, _, hc => nomatch hc
  | .inside sign context, c, hc => by
    rw [OperandContext.before, List.getLast?_append_of_ne_nil _ (List.cons_ne_nil _ _), List.getLast?_cons] at hc
    cases hlast : context.before.getLast? with
    | none =>
      rw [hlast] at hc
      rw [← Option.some.inj hc]
      simp [EndsOperand, isLiteralPart]
    | some d =>
      rw [hlast] at hc
      exact context.not_endsOperand_before c (hlast.trans hc)

theorem LevelContext.not_endsOperand_before : ∀ context : LevelContext,
    ∀ c ∈ context.before.getLast?, ¬ EndsOperand c
  | .single context => context.not_endsOperand_before
  | .first context _ _ => context.not_endsOperand_before
  | .later operand op context => fun c hc => by
    rw [LevelContext.before, List.getLast?_append_of_ne_nil _ (List.cons_ne_nil _ _), List.getLast?_cons] at hc
    cases hlast : context.before.getLast? with
    | none =>
      rw [hlast] at hc
      rw [← Option.some.inj hc]
      exact not_endsOperand_symbol op
    | some d =>
      rw [hlast] at hc
      exact context.not_endsOperand_before c (hlast.trans hc)

end

/-! ## 2. Balanced texts

Balance is stated by counting: in every beginning of the text at least as many parentheses are
opened as are closed, and in the whole as many.  Counts add up, so texts that are balanced may be
put together. -/

/-- How many more parentheses are opened than closed.  Behind a balanced text it is what it was in
front of it. -/
def excess (cs : List Char) : Int := (cs.count '(' : Int) - cs.count ')'

@[simp] theorem excess_append (cs ds : List Char) : excess (cs ++ ds) = excess cs + excess ds := by
  simp only [excess, List.count_append]
  omega

@[simp] theorem excess_opening (cs : List Char) : excess ('(' :: cs) = excess cs + 1 := by
  simp only [excess, List.count_cons_self, List.count_cons_of_ne (show '(' ≠ ')' by decide)]
  omega

@[simp] theorem excess_closing (cs : List Char) : excess (')' :: cs) = excess cs - 1 := by
  simp only [excess, List.count_cons_self, List.count_cons_of_ne (show ')' ≠ '(' by decide)]
  omega

/-- Nothing is closed that was not opened, and everything that was opened is closed. -/
structure Balanced (cs : List Char) : Prop where
  nonneg : ∀ front, front <+: cs → 0 ≤ excess front
  settled : excess cs = 0

/-- A beginning of two texts ends in the first or goes on into the second. -/
theorem prefix_append_cases {front cs ds : List Char} (h : front <+: cs ++ ds) :
    front <+: cs ∨ ∃ front', front = cs ++ front' ∧ front' <+: ds := by
  rcases List.prefix_or_prefix_of_prefix h (List.prefix_append cs ds) with hfront | ⟨front', rfl⟩
  · exact .inl hfront
  · exact .inr ⟨front', rfl, (List.prefix_append_right_inj cs).1 h⟩

namespace Balanced

theorem of_no_parenthesis {cs : List Char} (h : ∀ c ∈ cs, c ≠ '(' ∧ c ≠ ')') : Balanced cs := by
  have hzero : ∀ front : List Char, front <+: cs → excess front = 0 := by
    intro front hfront
    rw [excess, List.count_eq_zero_of_not_mem fun hmem => (h _ (hfront.subset hmem)).1 rfl,
      List.count_eq_zero_of_not_mem fun hmem => (h _ (hfront.subset hmem)).2 rfl]
    rfl
  exact ⟨fun front hfront => (hzero front hfront).ge, hzero cs (List.prefix_refl cs)⟩

theorem append {cs ds : List Char} (hcs : Balanced cs) (hds : Balanced ds) : Balanced (cs ++ ds) where
  nonneg front hfront := by
    rcases prefix_append_cases hfront with hcut | ⟨more, rfl, hcut⟩
    · exact hcs.nonneg _ hcut
    · rw [excess_append, hcs.settled, zero_add]
      exact hds.nonneg _ hcut
  settled := by rw [excess_append, hcs.settled, hds.settled, add_zero]

theorem group {cs : List Char} (h : Balanced cs) : Balanced ('(' :: (cs ++ [')'])) where
  nonneg front hfront := by
    rcases List.prefix_cons_iff.1 hfront with rfl | ⟨inside, rfl, hinside⟩
    · exact le_rfl
    · rw [excess_opening]
      rcases prefix_append_cases hinside with hcut | ⟨closing, rfl, hclosing⟩
      · have := h.nonneg _ hcut
        omega
      · rw [excess_append, h.settled]
        rcases List.prefix_cons_iff.1 hclosing with rfl | ⟨nothing, rfl, hnothing⟩
        · decide
        · rw [List.prefix_nil.1 hnothing]
          decide
  settled := by
    rw [excess_opening, excess_append, h.settled]
    decide

end Balanced

mutual

theorem Operand.balanced : ∀ operand : Operand, Balanced operand.toChars
  | .literal sign text => by
    rw [Operand.toChars]
    exact (Balanced.of_no_parenthesis sign.no_parenthesis).append
      (.of_no_parenthesis text.no_parenthesis)
  | .group sign level => by
    rw [Operand.toChars]
    exact (Balanced.of_no_parenthesis sign.no_parenthesis).append level.balanced.group

/-- **Derived texts are balanced**, operators and signs being no parentheses. -/
theorem Level.balanced : ∀ level : Level, Balanced level.toChars
  | .single operand => operand.balanced
  | .join operand op rest => by
    have hsymbol : ∀ c ∈ [op.symbol], c ≠ '(' ∧ c ≠ ')' :=
      List.forall_mem_singleton.2 (by cases op <;> decide)
    rw [Level.toChars, List.append_cons]
    exact (operand.balanced.append (.of_no_parenthesis hsymbol)).append rest.balanced

end

/-! ## 3. Groups of the text

A group is given by its place in the text, and found in the derivation by following the text.  At
each operand the group lies in it as a whole or begins behind it; no other case is left, as both are
balanced. -/

variable {cs ds source source' front behind behind' : List Char}

/-- In a balanced text nothing is closed behind a balanced text in front. -/
theorem Balanced.ne_append_closing (h : Balanced source) (h' : Balanced source') :
    source' ≠ source ++ ')' :: ds := by
  intro heq
  have hprefix : source ++ [')'] <+: source' := ⟨ds, by rw [heq, List.append_assoc]; rfl⟩
  have hnonneg := h'.nonneg _ hprefix
  rw [excess_append, h.settled] at hnonneg
  exact absurd hnonneg (by decide)

/-- **A group that was opened is closed at one place only.** -/
theorem balanced_closing_unique (h : Balanced source) (h' : Balanced source')
    (heq : source ++ ')' :: behind = source' ++ ')' :: behind') :
    source = source' ∧ behind = behind' := by
  rcases List.append_eq_append_iff.1 heq with ⟨more, hsource, hmore⟩ | ⟨more, hsource, hmore⟩
  · cases more with
    | nil =>
      rw [List.append_nil] at hsource
      exact ⟨hsource.symm, (List.cons.inj hmore).2⟩
    | cons c more =>
      obtain ⟨rfl, -⟩ := List.cons.inj hmore
      exact absurd hsource (h.ne_append_closing h')
  · cases more with
    | nil =>
      rw [List.append_nil] at hsource
      exact ⟨hsource, (List.cons.inj hmore).2.symm⟩
    | cons c more =>
      obtain ⟨rfl, -⟩ := List.cons.inj hmore
      exact absurd hsource (h'.ne_append_closing h)

/-- **Of two texts, the first being balanced, one holds the whole group.** -/
theorem append_eq_append_group (h : Balanced cs) (hsource : Balanced source)
    (heq : cs ++ ds = front ++ '(' :: (source ++ ')' :: behind)) :
    (∃ front', front = cs ++ front' ∧ ds = front' ++ '(' :: (source ++ ')' :: behind)) ∨
      ∃ behind', behind = behind' ++ ds ∧ cs = front ++ '(' :: (source ++ ')' :: behind') := by
  rcases List.append_eq_append_iff.1 heq with ⟨front', hfront, hds⟩ | ⟨tail, hcs, htail⟩
  · exact .inl ⟨front', hfront, hds⟩
  cases tail with
  | nil => exact .inl ⟨[], by rw [hcs, List.append_nil, List.append_nil], htail.symm⟩
  | cons c tail =>
    obtain ⟨rfl, hrest⟩ := List.cons.inj htail
    -- a group that is opened in a balanced text is closed in it
    have hopened : ¬ tail <+: source := by
      intro hinside
      have hsettled := h.settled
      have hfront := h.nonneg front ⟨_, hcs.symm⟩
      have hnonneg := hsource.nonneg tail hinside
      rw [hcs, excess_append, excess_opening] at hsettled
      omega
    rcases List.append_eq_append_iff.1 hrest with ⟨more, hmore, hbehind⟩ | ⟨more, hmore, -⟩
    · cases more with
      | nil => exact absurd ⟨[], by rw [hmore, List.append_nil, List.append_nil]⟩ hopened
      | cons d more =>
        obtain ⟨rfl, hbehind'⟩ := List.cons.inj hbehind
        exact .inr ⟨more, hbehind', by rw [hcs, hmore]⟩
    · exact absurd ⟨more, hmore.symm⟩ hopened

mutual

/-- An operand with a group in its text is that group, or it has the group in its level. -/
theorem Operand.exists_context (hsource : Balanced source) : ∀ (operand : Operand)
    {front behind : List Char}, operand.toChars = front ++ '(' :: (source ++ ')' :: behind) →
    ∃ (context : OperandContext) (sign : Sign) (level : Level), level.toChars = source ∧
      operand = context.fill (.group sign level) ∧ front = context.before ++ sign.toChars ∧
        behind = context.after
  | .literal sign text, front, behind, h => by
    have hmem : '(' ∈ (Operand.literal sign text).toChars := by simp [h]
    rw [Operand.toChars] at hmem
    rcases List.mem_append.1 hmem with hmem | hmem
    · exact absurd rfl (sign.no_parenthesis _ hmem).1
    · exact absurd rfl (text.no_parenthesis _ hmem).1
  | .group sign level, front, behind, h => by
    rw [Operand.toChars] at h
    rcases append_eq_append_group (.of_no_parenthesis sign.no_parenthesis) hsource h with
      ⟨more, rfl, hmore⟩ | ⟨_, -, hsign⟩
    · cases more with
      | nil =>
        obtain ⟨-, hclosed⟩ := List.cons.inj hmore
        obtain ⟨hlevel, rfl⟩ := balanced_closing_unique level.balanced hsource hclosed
        exact ⟨.hole, sign, level, hlevel, rfl, by simp [OperandContext.before], rfl⟩
      | cons c more =>
        obtain ⟨rfl, hopened⟩ := List.cons.inj hmore
        rcases append_eq_append_group level.balanced hsource hopened with
          ⟨_, -, hclosing⟩ | ⟨inside, rfl, hlevel⟩
        · have hmem : '(' ∈ [')'] := by simp [hclosing]
          exact absurd hmem (by decide)
        · obtain ⟨context, sign', inner, hinner, rfl, rfl, rfl⟩ := level.exists_context hsource hlevel
          exact ⟨.inside sign context, sign', inner, hinner, rfl,
            by simp [OperandContext.before], rfl⟩
    · have hmem : '(' ∈ sign.toChars := by simp [hsign]
      exact absurd rfl (sign.no_parenthesis _ hmem).1

/-- **A group of the text is a group of the derivation**, and what stands around it is the text of a
context. -/
theorem Level.exists_context (hsource : Balanced source) : ∀ (level : Level)
    {front behind : List Char}, level.toChars = front ++ '(' :: (source ++ ')' :: behind) →
    ∃ (context : LevelContext) (sign : Sign) (inner : Level), inner.toChars = source ∧
      level = context.fill (.group sign inner) ∧ front = context.before ++ sign.toChars ∧
        behind = context.after
  | .single operand, front, behind, h => by
    obtain ⟨context, sign, inner, hinner, rfl, hfront, hbehind⟩ := operand.exists_context hsource h
    exact ⟨.single context, sign, inner, hinner, rfl, hfront, hbehind⟩
  | .join operand op rest, front, behind, h => by
    have hsymbol : op.symbol ≠ '(' := by cases op <;> decide
    rw [Level.toChars] at h
    rcases append_eq_append_group operand.balanced hsource h with
      ⟨more, rfl, hmore⟩ | ⟨inside, rfl, hoperand⟩
    · cases more with
      | nil => exact absurd (List.cons.inj hmore).1 hsymbol
      | cons c more =>
        obtain ⟨rfl, hrest⟩ := List.cons.inj hmore
        obtain ⟨context, sign, inner, hinner, rfl, rfl, rfl⟩ := rest.exists_context hsource hrest
        exact ⟨.later operand op context, sign, inner, hinner, rfl, by simp [LevelContext.before], rfl⟩
    · obtain ⟨context, sign, inner, hinner, rfl, rfl, rfl⟩ := operand.exists_context hsource hoperand
      exact ⟨.first context op rest, sign, inner, hinner, rfl, rfl, rfl⟩

end

end Expression
end DecimalCalc
