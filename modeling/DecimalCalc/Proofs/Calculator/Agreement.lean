/-
# One operation, however it is asked for

Two canonical texts and an operator may be written down as an expression, handed to the operation on
number texts, read as decimals, or, for a division, handed to a calculator.  It makes no difference.
The expression is the one that could: the signs of its numbers stand among operators, and have to be
told from them.

Two canonical texts with an operator in between pass the gate, whatever their signs are, as there
are at most two minus signs in a row, and the expression is derived from two literals.  The sign of
the first number stands at the start of a level and that of the second behind an operator, so both
are folded into their literals, and evaluating the expression is one operation on the two numbers.
The remaining ways differ in what is read when, and not in what is calculated.

A calculator tells about a division what its observer should know, namely that something was cut
off, and this is described as well: once if the remainder is not zero, and nothing otherwise.

* `numbers_expresses`: what two canonical texts with an operator between them are derived from;
* `evaluate_numbers`: so the expression finds what the operation finds;
* `Calculator.exists_divisionTold`: what a division tells;
* `entry_points_agree`: all ways to ask for an operation lead to the same result.
-/
import DecimalCalc.Proofs.Expression.AuditTrail
import DecimalCalc.Proofs.Expression.Numbers
import DecimalCalc.Proofs.NumberText.Division

namespace DecimalCalc

/-! ## 1. Two numbers in an expression

The text of the expression is given, so its outline and its derivation can be written down.  The
case of two signs in a row is a subtraction of a negative number, and two minus signs are
allowed. -/

namespace Expression

variable {x y : Decimal} (hx : x.Canonical) (hy : y.Canonical) (op : Operator)
include hx hy

/-- Two numbers make no three minus signs in a row: the second number has one at most, and a digit
comes next. -/
theorem no_triple_minus_numbers :
    ¬ ['-', '-', '-'] <:+: x.toChars ++ op.symbol :: y.toChars := by
  have hdisjoint : ∀ {z : Decimal} (hz : z.Canonical), ∀ c ∈ z.abs.toChars, c ∉ ['-', '-', '-'] := by
    intro z hz c hc
    have hminus := (ne_of_isLiteralPart (hz.isLiteralPart_of_mem_abs hc)).2.1
    simpa using hminus
  have hlength : ∀ {part : List Char}, ['-', '-', '-'] <:+: part → 3 ≤ part.length :=
    fun hpart => hpart.length_le
  have hsign : ∀ negative, (signChars negative).length ≤ 1 := by decide
  intro hinfix
  -- only the sign of the first number stands in front of its digits, and only the operator and the sign
  -- of the second one between their digits
  rw [x.toChars_eq_signChars] at hinfix
  rcases infix_of_disjoint hx.magnitude.ne_nil (hdisjoint hx) hinfix with hfront | hbehind
  · exact absurd (hlength hfront) (Nat.not_le.2 (Nat.lt_succ_of_le ((hsign _).trans (Nat.le_succ 1))))
  · rw [y.toChars_eq_signChars, ← List.cons_append,
      ← List.append_nil (op.symbol :: signChars y.negative ++ y.abs.toChars)] at hbehind
    rcases infix_of_disjoint hy.magnitude.ne_nil (hdisjoint hy) hbehind with hbetween | hnil
    · exact absurd (hlength hbetween) (Nat.not_le.2 (Nat.succ_lt_succ (Nat.lt_succ_of_le (hsign _))))
    · exact absurd (hlength hnil) (by decide)

/-- The text passes the gate's first rule: a digit or a minus sign comes first, and a digit last. -/
theorem hasOutline_numbers : HasOutline (x.toChars ++ op.symbol :: y.toChars) := by
  obtain ⟨hstarts, hallowed, -⟩ := hasOutline_iff_ends.1 (hasOutline_toChars hx)
  obtain ⟨-, hallowed', hend⟩ := hasOutline_iff_ends.1 (hasOutline_toChars hy)
  have hsymbol : isAllowed op.symbol = true := by cases op <;> rfl
  refine hasOutline_iff_ends.2 ⟨hstarts.append _, ?_, fun c hc => hend c ?_⟩
  · exact List.forall_mem_append.2 ⟨hallowed, List.forall_mem_cons.2 ⟨hsymbol, hallowed'⟩⟩
  · rwa [List.append_cons, List.getLast?_append_of_ne_nil _ (hasOutline_toChars hy).ne_nil] at hc

/-- **Two canonical texts with an operator between them** are derived from two literals that have the
values of the numbers. -/
theorem numbers_expresses : ∃ level : Level, level.Expresses (x.toChars ++ op.symbol :: y.toChars) ∧
    ∃ text text', level.nodes = [.literal text, .operator op, .literal text'] ∧
      Denotes text x.value ∧ Denotes text' y.value := by
  obtain ⟨sign, text, htext, hdenotes⟩ := @exists_literal _ hx .absent (.inr rfl)
  obtain ⟨sign', text', htext', hdenotes'⟩ := @exists_literal _ hy .absent (.inr rfl)
  refine ⟨.join (.literal sign text) op (.single (.literal sign' text')),
    ⟨hasOutline_numbers hx hy op, ?_, no_triple_minus_numbers hx hy op, ?_⟩,
    text.signed sign, text'.signed sign', ?_, hdenotes, hdenotes'⟩
  · rw [Level.toChars, Level.toChars, htext, htext']
    rfl
  · exact Nat.zero_le _
  · rw [Level.nodes, Level.nodes, Operand.node, Operand.node]

/-- **The expression finds what the operation finds.** -/
theorem evaluate_numbers (cap : Nat) : evaluate cap (x.toString ++ toString op ++ y.toString) =
    (op.onTexts cap x.toString y.toString).mapError .numeric := by
  have htrim : Text.trim (x.toString ++ toString op ++ y.toString).toList =
      x.toChars ++ op.symbol :: y.toChars := by
    have htext : (x.toString ++ toString op ++ y.toString).toList =
        x.toChars ++ op.symbol :: y.toChars := by
      simp [Decimal.toString, toString]
    rw [htext]
    exact Text.trim_of_forall fun c hc =>
      isBlank_of_isAllowed ((hasOutline_numbers hx hy op).isAllowed c hc)
  obtain ⟨level, hlevel, text, text', hnodes, hdenotes, hdenotes'⟩ := numbers_expresses hx hy op
  have hlift : liftRuns [.literal text, .operator op, .literal text'] =
      [.literal text, .operator op, .literal text'] := by
    refine liftRuns_of_not_mixed ?_
    cases op <;> rfl
  have hx' := congrArg Traced.result (@evalNode_of_denotes cap _ _ hx hdenotes)
  have hy' := congrArg Traced.result (@evalNode_of_denotes cap _ _ hy hdenotes')
  rw [← htrim] at hlevel
  rw [hlevel.evaluate_eq, hnodes, hlift, result_evalLevel_pair op hx' hy', onTexts_toString hx hy]
  cases operate cap op x y <;> rfl

end Expression

/-! ## 2. What a division tells

Only a division that leaves a remainder is told, by one event with the canonical texts of operands
and results.  A division that fails, or one that comes out, tells nothing. -/

/-- What a calculator's division of two texts tells its observer: nothing, or once that it was cut
off.  The report is the one that the observer makes of what it is told. -/
structure Calculator.DivisionTold (c : Calculator) (a b : String) (told : List Event) : Prop where
  report_eq : c.divideWithRemainder a b =
    .deliver c.observer (NumberText.divideWithRemainder c.cap a b) [] told
  of_exact : ∀ d, NumberText.divideWithRemainder c.cap a b = .ok d → Denotes d.remainder.toList 0 →
    told = []
  of_cut_off : ∀ d, NumberText.divideWithRemainder c.cap a b = .ok d → ¬ Denotes d.remainder.toList 0 →
    ∃ x y, Decimal.ofString a = .ok x ∧ Decimal.ofString b = .ok y ∧
      told = [.divisionTruncated x.toString y.toString d.quotient d.remainder]
  of_error : ∀ e, NumberText.divideWithRemainder c.cap a b = .error e → told = []

theorem Report.quiet_eq_deliver {α : Type} (observer : Observer) (result : α) :
    Report.quiet result = .deliver observer result [] [] := by
  cases observer <;> rfl

/-- Both operands are read exactly if each of them is. -/
theorem NumberText.both_eq_ok_iff {a b : String} {x y : Decimal} :
    NumberText.both a b = .ok (x, y) ↔ Decimal.ofString a = .ok x ∧ Decimal.ofString b = .ok y := by
  unfold NumberText.both
  cases Decimal.ofString a <;> cases Decimal.ofString b <;>
    simp [bind, Except.bind, pure, Except.pure]

namespace Calculator

variable {c : Calculator} {a b : String}

theorem divisionTold_of_error {e : NumberError}
    (hreport : c.divideWithRemainder a b = .quiet (.error e))
    (herror : NumberText.divideWithRemainder c.cap a b = .error e) : c.DivisionTold a b [] where
  report_eq := by rw [hreport, herror, Report.quiet_eq_deliver c.observer]
  of_exact := fun _ _ _ => rfl
  of_cut_off := fun d hd => by
    rw [herror] at hd
    cases hd
  of_error := fun _ _ => rfl

/-- A division of two numbers tells what it has cut off. -/
theorem divisionTold_of_ok {x y : Decimal} {d : Decimal.Divided}
    (hboth : NumberText.both a b = .ok (x, y))
    (hd : Decimal.divideWithRemainder c.cap x y = .ok d) :
    c.DivisionTold a b (truncation x y (.ofDivided d)) := by
  obtain ⟨ha, hb⟩ := NumberText.both_eq_ok_iff.1 hboth
  have hresult : NumberText.divideWithRemainder c.cap a b = .ok (.ofDivided d) := by
    rw [NumberText.divideWithRemainder, hboth]
    simp only [bind, Except.bind, hd]
    rfl
  have hremainder : d.remainder.Canonical :=
    (Decimal.divideWithRemainder_canonical (Decimal.parse_canonical ha) (Decimal.parse_canonical hb)
      hd).2
  have hexact : (NumberText.Division.ofDivided d).isExact = true ↔
      Denotes d.remainder.toString.toList 0 := by
    rw [NumberText.Division.isExact, NumberText.Division.ofDivided, beq_iff_eq,
      NumberText.toString_eq_zero_iff hremainder]
    constructor
    · intro hzero
      rw [← hzero]
      exact denotes_toString hremainder
    · exact (denotes_toString hremainder).unique
  constructor
  case report_eq =>
    rw [divideWithRemainder, hboth, hresult]
    simp only [bind, Except.bind, hd]
    rfl
  case of_exact =>
    intro d' hd' hzero
    rw [hresult] at hd'
    obtain rfl := Except.ok.inj hd'
    rw [truncation, if_pos (hexact.2 hzero)]
  case of_cut_off =>
    intro d' hd' hzero
    rw [hresult] at hd'
    obtain rfl := Except.ok.inj hd'
    exact ⟨x, y, ha, hb, by rw [truncation, if_neg (hzero ∘ hexact.1)]⟩
  case of_error =>
    intro e he
    rw [hresult] at he
    cases he

/-- **A division tells once that it was cut off**, and nothing if it was not. -/
theorem exists_divisionTold (c : Calculator) (a b : String) : ∃ told, c.DivisionTold a b told := by
  cases hboth : NumberText.both a b with
  | error e =>
    refine ⟨[], divisionTold_of_error (e := e) ?_ ?_⟩
    · rw [divideWithRemainder, hboth]
      rfl
    · rw [NumberText.divideWithRemainder, hboth]
      rfl
  | ok found =>
    obtain ⟨x, y⟩ := found
    cases hdivide : Decimal.divideWithRemainder c.cap x y with
    | ok d => exact ⟨_, divisionTold_of_ok hboth hdivide⟩
    | error e =>
      refine ⟨[], divisionTold_of_error (e := e) ?_ ?_⟩
      · rw [divideWithRemainder, hboth]
        simp only [bind, Except.bind, hdivide]
      · rw [NumberText.divideWithRemainder, hboth]
        simp only [bind, Except.bind, hdivide]

end Calculator

/-! ## 3. All ways to ask for an operation

The operations on decimals are the common ground, and every other way is compared with them.  Errors
are the same as well, up to being an error of an expression. -/

/-- The operation on decimals; only a division can fail. -/
def Operator.onDecimals (cap : Nat) : Operator → Decimal → Decimal → Except NumberError Decimal
  | .add, x, y => .ok (x + y)
  | .subtract, x, y => .ok (x - y)
  | .multiply, x, y => .ok (x * y)
  | .divide, x, y => Decimal.divide cap x y

/-- An operation inside an expression is the one on decimals, with an event beside it. -/
theorem map_operate (cap : Nat) (op : Operator) (x y : Decimal) :
    (Expression.operate cap op x y).map Prod.fst = op.onDecimals cap x y := by
  cases op with
  | add | subtract | multiply => rfl
  | divide =>
    rw [Expression.operate, Decimal.divideWithRemainder, Operator.onDecimals]
    cases Decimal.divide cap x y <;> rfl

/-- The operation on two canonical texts is the operation on the decimals they are read as. -/
theorem onTexts_eq_onDecimals {cap : Nat} {x y : Decimal} (hx : x.Canonical) (hy : y.Canonical)
    (op : Operator) : op.onTexts cap x.toString y.toString =
      (op.onDecimals cap x y).map Decimal.toString := by
  rw [Expression.onTexts_toString hx hy, ← map_operate]
  cases Expression.operate cap op x y <;> rfl

/-- **All ways to ask for an operation lead to the same result.**  For canonical texts the expression, the
operation on texts, the operation on decimals and the division of a calculator find the same number or the
same error.  A calculator's division of any two texts is the division of number texts, and tells its
observer once if the remainder is not zero, and nothing otherwise. -/
theorem entry_points_agree :
    (∀ (cap : Nat) (op : Operator) (a b : String), IsCanonicalText a.toList → IsCanonicalText b.toList →
      Expression.evaluate cap (a ++ toString op ++ b) = (op.onTexts cap a b).mapError .numeric ∧
      (∃ x y, Decimal.ofString a = .ok x ∧ Decimal.ofString b = .ok y ∧
        op.onTexts cap a b = (op.onDecimals cap x y).map Decimal.toString) ∧
      (op = .divide → ∀ c : Calculator, c.cap = cap → (c.divide a b).result = op.onTexts cap a b)) ∧
    ∀ (c : Calculator) (a b : String),
      (c.divideWithRemainder a b).result = NumberText.divideWithRemainder c.cap a b ∧
        ∃ told, c.DivisionTold a b told := by
  have hwritten : ∀ {text : String} {z : Decimal}, z.toChars = text.toList → text = z.toString := by
    intro text z htext
    rw [Decimal.toString, htext, String.ofList_toList]
  constructor
  · intro cap op a b ha hb
    obtain ⟨x, hx, hxa⟩ := isCanonicalText_iff.1 ha
    obtain ⟨y, hy, hyb⟩ := isCanonicalText_iff.1 hb
    obtain rfl := hwritten hxa
    obtain rfl := hwritten hyb
    refine ⟨Expression.evaluate_numbers hx hy op cap, ?_, ?_⟩
    · exact ⟨x, y, ofString_toString hx, ofString_toString hy, onTexts_eq_onDecimals hx hy op⟩
    · rintro rfl c rfl
      exact c.divide_result _ _
  · intro c a b
    exact ⟨c.divideWithRemainder_result a b, c.exists_divisionTold a b⟩

/-- Two negative numbers, divided and subtracted. -/
theorem entry_points_agree_thirds :
    IsCanonicalText "-1".toList ∧ IsCanonicalText "-3".toList ∧
    Expression.evaluate 2 "-1/-3" = .ok "0.33" ∧ Expression.evaluate 2 "-1--3" = .ok "2" ∧
    ((⟨Config.ofMaxDecimalLength 2, .recording⟩ : Calculator).divide "-1" "-3").result = .ok "0.33" := by
  have hone : IsCanonicalText "-1".toList :=
    isCanonicalText_iff.2 ⟨⟨true, [1], []⟩, by constructor <;> decide, rfl⟩
  have hthree : IsCanonicalText "-3".toList :=
    isCanonicalText_iff.2 ⟨⟨true, [3], []⟩, by constructor <;> decide, rfl⟩
  have hquotient : Operator.divide.onTexts 2 "-1" "-3" = .ok "0.33" := by decide +kernel
  have hdifference : Operator.subtract.onTexts 2 "-1" "-3" = .ok "2" := by decide +kernel
  obtain ⟨hdivide, -, hcalculator⟩ := entry_points_agree.1 2 .divide "-1" "-3" hone hthree
  obtain ⟨hsubtract, -, -⟩ := entry_points_agree.1 2 .subtract "-1" "-3" hone hthree
  rw [hquotient] at hdivide
  rw [hdifference] at hsubtract
  exact ⟨hone, hthree, hdivide, hsubtract, (hcalculator rfl _ rfl).trans hquotient⟩

end DecimalCalc
