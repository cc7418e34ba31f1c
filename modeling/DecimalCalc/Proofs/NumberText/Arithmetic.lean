/-
# The laws of arithmetic hold for texts

An operation on number texts reads its operands, calculates, and writes the result down.  What it
returns is the canonical text of the exact result, so it depends on the numbers alone that the
operands denote; and an operand that is no number is refused in one way only.  So two computations
return the same when they stand for the same number, and the laws of rational arithmetic become
equations between computations on texts.

The laws hold for every text that reading returns from, numbers or not: if one of the operands is no
number, both sides of a law are refused.  Where reading an operand stops the program, nothing is
promised.  The two sides of a law may read their operands in different orders, and of an operand
that is no number and one that stops the program, the one that is read first decides what happens.

A computation is related to the number that it stands for by `Writes`.  The relation is closed under
going on with a result, as a left or as a right operand, so a law is proved by writing down both
computations and the two expressions they stand for.

* `Writes`: what a computation returns for a number, or for none;
* `writes_add`, `writes_subtract`, `writes_multiply`, `writes_negate`: the operations;
* `Writes.bind`, `Writes.unique`: computations may be put together, and the number tells them apart;
* `sum_and_difference_exact`, `product_exact`: the exact results, and the laws.
-/
import DecimalCalc.Proofs.Decimal.Arithmetic
import DecimalCalc.Proofs.NumberText.Canonicalize
import Mathlib.Data.Option.NAry

namespace DecimalCalc
namespace NumberText

/-! ## 1. What a computation stands for

Numbers that may be missing are taken as options, so that a law of arithmetic is an equation between
functions on options as well, and holds of them for the missing number too. -/

/-- The number that a text denotes, if it denotes one.  Texts that are refused and texts that stop
the program have none alike. -/
def number? (text : String) : Option Rat := (Decimal.ofString text).toOption.map Decimal.value

/-- The result is the canonical text of the number; where there is none, an operand was no number.
A computation that stops the program stands for nothing in this sense. -/
def Writes (result : Except NumberError String) : Option Rat → Prop
  | some q => ∃ x : Decimal, x.Canonical ∧ x.value = q ∧ result = .ok x.toString
  | none => result = .error .invalidNumber

/-- Reading the text returns, with a number or with an error.  The only texts that it does not
return from are those with the least exponent. -/
def Returns (text : String) : Prop := ¬ HasLeastExponent text.toList

/-- Reading a text that is a number returns, and so does reading a canonical text. -/
theorem returns_of_denotes {text : String} {q : Rat} (h : Denotes text.toList q) : Returns text :=
  h.not_hasLeastExponent

theorem returns_toString {x : Decimal} (hx : x.Canonical) : Returns x.toString :=
  returns_of_denotes (denotes_toString hx)

/-- A text is a number, or it is refused when it is read.  There is no third case where reading
returns. -/
theorem read_cases {text : String} (h : Returns text) :
    (∃ x, Decimal.ofString text = .ok x ∧ x.Canonical ∧ number? text = some x.value) ∨
      (Decimal.ofString text = .error .invalidNumber ∧ number? text = none) := by
  unfold number?
  rcases parse_cases text.toList with ⟨x, hread, hx⟩ | hinvalid | hoverflow
  · rw [Decimal.ofString, hread]
    exact .inl ⟨x, rfl, hx, rfl⟩
  · rw [Decimal.ofString, hinvalid]
    exact .inr ⟨rfl, rfl⟩
  · exact absurd (parse_eq_overflow_iff.1 hoverflow) h

/-- The number of a text is what the text denotes, which says the same without reading it. -/
theorem number?_eq_some_iff {text : String} {q : Rat} :
    number? text = some q ↔ Denotes text.toList q := by
  rw [denotes_iff, number?, Decimal.ofString]
  constructor
  · intro h
    cases hread : Decimal.parse text.toList with
    | error e =>
      rw [hread] at h
      cases h
    | ok x =>
      rw [hread] at h
      exact ⟨x, rfl, Decimal.parse_canonical hread, Option.some.inj h⟩
  · rintro ⟨x, hread, -, rfl⟩
    rw [hread]
    rfl

theorem number?_toString {x : Decimal} (hx : x.Canonical) : number? x.toString = some x.value := by
  rw [number?, ofString_toString hx]
  rfl

theorem toString_zero : Decimal.zero.toString = "0" := rfl

theorem number?_zero : number? "0" = some 0 := by
  rw [← toString_zero, number?_toString Decimal.zero_canonical, Decimal.value_zero]

theorem writes_zero : Writes (.ok "0") (some 0) :=
  ⟨.zero, Decimal.zero_canonical, Decimal.value_zero, by rw [toString_zero]⟩

namespace Writes

variable {result other : Except NumberError String} {number : Option Rat}

/-- **The number determines the result**, since a number has one canonical text.  This is how two
computations are seen to be equal. -/
theorem unique (h : Writes result number) (h' : Writes other number) : result = other := by
  cases number with
  | none => exact h.trans h'.symm
  | some q =>
    obtain ⟨x, hx, rfl, rfl⟩ := h
    obtain ⟨y, hy, hvalue, rfl⟩ := h'
    rw [hx.ext_value hy hvalue.symm]

/-- A computation that goes on with the text of a number goes on with the number.  The text is
canonical, so reading it returns. -/
theorem bind (h : Writes result number) {f : String → Except NumberError String}
    {g : Rat → Option Rat}
    (hf : ∀ text, Returns text → Writes (f text) ((number? text).bind g)) :
    Writes (result >>= f) (number.bind g) := by
  cases number with
  | none =>
    rw [show result = .error .invalidNumber from h]
    rfl
  | some q =>
    obtain ⟨x, hx, rfl, rfl⟩ := h
    have hwrites := hf x.toString (returns_toString hx)
    rwa [number?_toString hx] at hwrites

/-- What is returned for a number is a canonical text of it. -/
theorem exists_text {q : Rat} (h : Writes result (some q)) :
    ∃ text, result = .ok text ∧ Denotes text.toList q ∧ IsCanonicalText text.toList := by
  obtain ⟨x, hx, rfl, rfl⟩ := h
  exact ⟨x.toString, rfl, denotes_toString hx, isCanonicalText_iff.2
    ⟨x, hx, by rw [Decimal.toString, String.toList_ofList]⟩⟩

end Writes

/-! ## 2. The operations

Each operation has its own value lemma on decimals; reading and writing around it is the same for
all of them, and is done once.  An operation is then used through the two lemmas on going on from a
result. -/

/-- Whatever is calculated from two numbers is written for the two numbers that the texts denote.
The left operand is read first, and either may be the one that is refused. -/
theorem writes_of_both {f : Decimal → Decimal → Decimal} {g : Rat → Rat → Rat}
    (hf : ∀ {x y : Decimal}, x.Canonical → y.Canonical →
      (f x y).Canonical ∧ (f x y).value = g x.value y.value) {a b : String} (ha : Returns a)
    (hb : Returns b) :
    Writes (do let (x, y) ← both a b; return (f x y).toString)
      (Option.map₂ g (number? a) (number? b)) := by
  rcases read_cases ha with ⟨x, hreada, hx, hnumbera⟩ | ⟨hreada, hnumbera⟩
  · rcases read_cases hb with ⟨y, hreadb, hy, hnumberb⟩ | ⟨hreadb, hnumberb⟩
    · rw [both, hreada, hreadb, hnumbera, hnumberb]
      exact ⟨f x y, (hf hx hy).1, (hf hx hy).2, rfl⟩
    · rw [both, hreada, hreadb, hnumbera, hnumberb]
      rfl
  · rw [both, hreada, hnumbera]
    rfl

theorem writes_add {a b : String} (ha : Returns a) (hb : Returns b) :
    Writes (add a b) (Option.map₂ (· + ·) (number? a) (number? b)) :=
  writes_of_both (fun hx hy => ⟨Decimal.add_canonical hx hy, Decimal.value_add hx hy⟩) ha hb

theorem writes_subtract {a b : String} (ha : Returns a) (hb : Returns b) :
    Writes (subtract a b) (Option.map₂ (· - ·) (number? a) (number? b)) :=
  writes_of_both (fun hx hy => ⟨Decimal.sub_canonical hx hy, Decimal.value_sub hx hy⟩) ha hb

theorem writes_multiply {a b : String} (ha : Returns a) (hb : Returns b) :
    Writes (multiply a b) (Option.map₂ (· * ·) (number? a) (number? b)) :=
  writes_of_both (fun hx hy => ⟨Decimal.mul_canonical hx hy, Decimal.value_mul hx hy⟩) ha hb

theorem writes_negate {a : String} (ha : Returns a) : Writes (negate a) ((number? a).map (- ·)) := by
  rcases read_cases ha with ⟨x, hread, hx, hnumber⟩ | ⟨hread, hnumber⟩
  · rw [negate, map, hread, hnumber]
    exact ⟨-x, Decimal.neg_canonical hx, Decimal.value_neg x, rfl⟩
  · rw [negate, map, hread, hnumber]
    rfl

section

variable {op : String → String → Except NumberError String} {f : Rat → Rat → Rat}

/-- A computation that calculates on from its result, as the left operand. -/
theorem Writes.then_left
    (hop : ∀ {a b}, Returns a → Returns b → Writes (op a b) (Option.map₂ f (number? a) (number? b)))
    {result : Except NumberError String} {number : Option Rat} (h : Writes result number)
    {b : String} (hb : Returns b) :
    Writes (result >>= fun text => op text b) (Option.map₂ f number (number? b)) :=
  h.bind fun _ htext => hop htext hb

/-- A computation that calculates on from its result, as the right operand. -/
theorem Writes.then_right
    (hop : ∀ {a b}, Returns a → Returns b → Writes (op a b) (Option.map₂ f (number? a) (number? b)))
    {result : Except NumberError String} {number : Option Rat} (h : Writes result number)
    {a : String} (ha : Returns a) :
    Writes (result >>= op a) (Option.map₂ f (number? a) number) := by
  rw [Option.map₂_swap]
  refine h.bind fun text htext => ?_
  have hwrites := hop ha htext
  rwa [Option.map₂_swap] at hwrites

end

/-! ## 3. Sums and differences

Each law is an equation between two computations.  Both are followed to the numbers they stand for,
and these agree by the law of rational numbers. -/

/-- **Sums and differences are exact**, and so they obey the laws of addition: the order of the
terms and of the steps makes no difference, a number and its difference from zero cancel out, and
to subtract is to add the opposite number.  The laws ask that reading returns, since the two sides
read in different orders. -/
theorem sum_and_difference_exact (a b c : String) :
    (∀ p q, Denotes a.toList p → Denotes b.toList q →
      (∃ sum, add a b = .ok sum ∧ Denotes sum.toList (p + q) ∧ IsCanonicalText sum.toList) ∧
      ∃ difference, subtract a b = .ok difference ∧ Denotes difference.toList (p - q) ∧
        IsCanonicalText difference.toList) ∧
    (Returns a → Returns b → add a b = add b a) ∧
    (Returns a → Returns b → Returns c →
      (do add (← add a b) c) = (do add a (← add b c))) ∧
    (∀ p, Denotes a.toList p → (do add a (← subtract "0" a)) = .ok "0") ∧
    (Returns a → Returns b → subtract a b = (do add a (← negate b))) := by
  refine ⟨?_, ?_, ?_, ?_, ?_⟩
  · intro p q ha hb
    have hsum := writes_add (returns_of_denotes ha) (returns_of_denotes hb)
    have hdifference := writes_subtract (returns_of_denotes ha) (returns_of_denotes hb)
    rw [number?_eq_some_iff.2 ha, number?_eq_some_iff.2 hb] at hsum hdifference
    exact ⟨hsum.exists_text, hdifference.exists_text⟩
  · intro ha hb
    refine (writes_add ha hb).unique ?_
    rw [Option.map₂_comm fun p q => Rat.add_comm p q]
    exact writes_add hb ha
  · intro ha hb hc
    refine ((writes_add ha hb).then_left writes_add hc).unique ?_
    rw [Option.map₂_assoc fun p q r => Rat.add_assoc p q r]
    exact (writes_add hb hc).then_right writes_add ha
  · intro p ha
    have hreturns := returns_of_denotes ha
    have hcancel := (writes_subtract (returns_toString Decimal.zero_canonical) hreturns).then_right
      writes_add hreturns
    rw [toString_zero, number?_eq_some_iff.2 ha, number?_zero, Option.map₂_some_some, Option.map₂_some_some, zero_sub,
      add_neg_cancel] at hcancel
    exact hcancel.unique writes_zero
  · intro ha hb
    refine (writes_subtract ha hb).unique ?_
    have hadd := (writes_negate hb).then_right writes_add ha
    rw [Option.map₂_map_right] at hadd
    simpa only [sub_eq_add_neg] using hadd

/-- A carry across the point, terms of different scale and sign, and an operand with an exponent. -/
theorem sum_and_difference_exact_nines :
    (∃ sum, add "999.99" "1e-2" = .ok sum ∧ Denotes sum.toList 1000 ∧ IsCanonicalText sum.toList) ∧
    (do add (← add "999.99" "1e-2") "-0.5") = (do add "999.99" (← add "1e-2" "-0.5")) ∧
    (do add "999.99" (← subtract "0" "999.99")) = .ok "0" := by
  have hnines : Denotes "999.99".toList (99999 / 100) := denotes_of_ofString (by decide +kernel)
  have hcent : Denotes "1e-2".toList (1 / 100) := denotes_of_ofString (by decide +kernel)
  have hhalf : Denotes "-0.5".toList (-1 / 2) := denotes_of_ofString (by decide +kernel)
  have h := sum_and_difference_exact "999.99" "1e-2" "-0.5"
  have hvalue : (99999 / 100 + 1 / 100 : Rat) = 1000 := by norm_num
  refine ⟨?_, h.2.2.1 (returns_of_denotes hnines) (returns_of_denotes hcent) (returns_of_denotes hhalf),
    h.2.2.2.1 _ hnines⟩
  rw [← hvalue]
  exact (h.1 _ _ hnines hcent).1

/-! ## 4. Products

The same for products, with the shortcut for powers of ten beside the result that it leads to.  The
distributive law mentions one operand twice on one side, which is no difficulty, as the number is
the same both times. -/

/-- A factor is spread over a sum, also where one of the three numbers is missing. -/
theorem map₂_mul_add (a b c : Option Rat) :
    Option.map₂ (· * ·) a (Option.map₂ (· + ·) b c) =
      Option.map₂ (· + ·) (Option.map₂ (· * ·) a b) (Option.map₂ (· * ·) a c) := by
  rcases a with _ | p <;> rcases b with _ | q <;> rcases c with _ | r <;> simp [mul_add]

/-- **Products are exact**, and the two short cuts for powers of ten find the same digits as the
multiplication digit by digit.  So products obey the laws of multiplication. -/
theorem product_exact (a b c : String) :
    (∀ p q, Denotes a.toList p → Denotes b.toList q → ∃ product, multiply a b = .ok product ∧
      Denotes product.toList (p * q) ∧ IsCanonicalText product.toList) ∧
    (∀ x y : Decimal, x.Canonical → y.Canonical →
      x * y = .mulDigits (x.negative != y.negative) x y ∧
      ∀ (k : Int) (negative : Bool), |y.value| = 10 ^ k →
        (x.shift k).withSign negative = .mulDigits negative x y ∧
        (x.shift k).withSign negative = .mulDigits negative y x) ∧
    (Returns a → Returns b → multiply a b = multiply b a) ∧
    (Returns a → Returns b → Returns c →
      (do multiply (← multiply a b) c) = (do multiply a (← multiply b c)) ∧
      (do multiply a (← add b c)) = (do add (← multiply a b) (← multiply a c))) := by
  refine ⟨?_, ?_, ?_, ?_⟩
  · intro p q ha hb
    have hproduct := writes_multiply (returns_of_denotes ha) (returns_of_denotes hb)
    rw [number?_eq_some_iff.2 ha, number?_eq_some_iff.2 hb] at hproduct
    exact hproduct.exists_text
  · intro x y hx hy
    refine ⟨Decimal.mul_eq_mulDigits hx hy, fun k negative hk => ?_⟩
    have hshift := Decimal.withSign_shift_eq_mulDigits hx hy hk negative
    exact ⟨hshift, hshift.trans (Decimal.mulDigits_comm hx hy negative)⟩
  · intro ha hb
    refine (writes_multiply ha hb).unique ?_
    rw [Option.map₂_comm fun p q => Rat.mul_comm p q]
    exact writes_multiply hb ha
  · intro ha hb hc
    constructor
    · refine ((writes_multiply ha hb).then_left writes_multiply hc).unique ?_
      rw [Option.map₂_assoc fun p q r => Rat.mul_assoc p q r]
      exact (writes_multiply hb hc).then_right writes_multiply ha
    · refine ((writes_add hb hc).then_right writes_multiply ha).unique ?_
      rw [map₂_mul_add]
      exact (writes_multiply ha hb).bind fun _ htext =>
        (writes_multiply ha hc).then_right writes_add htext

/-- A factor of a thousandth, written with an exponent, and a factor below zero. -/
theorem product_exact_thousandth :
    (∃ product, multiply "-12.5" "1e-3" = .ok product ∧ Denotes product.toList (-1 / 80) ∧
      IsCanonicalText product.toList) ∧
    ((⟨true, [1, 2], [5]⟩ : Decimal).shift (-3)).withSign true =
      .mulDigits true ⟨true, [1, 2], [5]⟩ ⟨false, [0], [0, 0, 1]⟩ ∧
    (do multiply "-12.5" (← add "1e-3" "7")) =
      (do add (← multiply "-12.5" "1e-3") (← multiply "-12.5" "7")) := by
  have hfactor : Denotes "-12.5".toList (-25 / 2) := denotes_of_ofString (by decide +kernel)
  have hthousandth : Denotes "1e-3".toList (1 / 1000) := denotes_of_ofString (by decide +kernel)
  have hseven : Denotes "7".toList 7 := denotes_of_ofString (by decide +kernel)
  have h := product_exact "-12.5" "1e-3" "7"
  have hvalue : (-25 / 2 * (1 / 1000) : Rat) = -1 / 80 := by norm_num
  have hx : Decimal.Canonical ⟨true, [1, 2], [5]⟩ := by constructor <;> decide
  have hy : Decimal.Canonical ⟨false, [0], [0, 0, 1]⟩ := by constructor <;> decide
  have hpow : |(⟨false, [0], [0, 0, 1]⟩ : Decimal).value| = 10 ^ (-3 : Int) := by
    norm_num [Decimal.value, Decimal.digits, Digits.toNat]
  refine ⟨?_, ((h.2.1 _ _ hx hy).2 (-3) true hpow).1, (h.2.2.2 (returns_of_denotes hfactor)
    (returns_of_denotes hthousandth) (returns_of_denotes hseven)).2⟩
  rw [← hvalue]
  exact h.1 _ _ hfactor hthousandth

end NumberText
end DecimalCalc
