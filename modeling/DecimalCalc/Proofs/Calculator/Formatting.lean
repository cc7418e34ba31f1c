/-
# Formatted output can be read back

A calculator is only made with a separator that is no part of a number, so its output is told apart
from the separators in it: erasing them leaves the number rounded as configured, and nothing is lost
but what rounding takes away.  It makes no difference whether the calculator was built step by step
or created from a configuration, and formatting the value of an expression adds no error to those of
evaluating it.

The three parts of this are about different layers and meet in one theorem about what a user of
calculators can do.  Building is compared with creating, setting by setting.  A calculator that
exists has a configuration that was validated, and from that its format inherits a separator which
clearing can find.  And the value of an expression is a canonical text, which every format accepts,
so the formatted evaluation fails only if the evaluation does.

* `Builder.build_setAll`: a builder makes the calculator that its configuration makes;
* `Calculator.exists_format`: a number is always formatted, whatever the configuration;
* `Calculator.exists_evaluateFormatted`: so is the value of every expression that has one;
* `formatted_output_unambiguous`: what becomes of a formatted text that is cleared and
  canonicalised.
-/
import DecimalCalc.Calculator.Builder
import DecimalCalc.Proofs.Expression.Numbers
import DecimalCalc.Proofs.Format.Rendering

namespace DecimalCalc

/-! ## 1. Two ways to a calculator

Each preset exists twice, as a builder and as a configuration, and so does each setting.  That both
lead to the same place holds for one setting, and for a list of them by induction. -/

namespace Builder

/-- The presets, as builders and as configurations. -/
def presets : List (Builder × Config) :=
  [(.standard, .standard), (.financial, .financial), (.truncating, .truncating)]

theorem config_of_mem_presets {builder : Builder} {config : Config}
    (h : (builder, config) ∈ presets) : builder.config = config := by
  simp only [presets, List.mem_cons, Prod.mk.injEq, List.not_mem_nil, or_false] at h
  rcases h with ⟨rfl, rfl⟩ | ⟨rfl, rfl⟩ | ⟨rfl, rfl⟩ <;> rfl

/-- **Settings may be given to a builder or to the configuration.** -/
theorem build_setAll {builder : Builder} {config : Config} (h : (builder, config) ∈ presets)
    (settings : List Setting) (observer : Observer) :
    (builder.setAll settings).config = config.setAll settings ∧
      (builder.setAll settings).build observer =
        Calculator.create (config.setAll settings) observer := by
  have hconfig : (builder.setAll settings).config = config.setAll settings := by
    rw [config_setAll, config_of_mem_presets h]
  exact ⟨hconfig, congrArg (Calculator.create · observer) hconfig⟩

end Builder

/-! ## 2. Formatting a number, formatting a value

A text that denotes a number is formatted by any configuration, and the value of an expression is
such a text.  Reading back needs the separator to be no part of a number, so there the configuration
has to be valid. -/

namespace Calculator

variable {c : Calculator}

/-- A number is formatted, whatever the configuration: rounding, grouping and padding do not fail
once the text is read. -/
theorem exists_format {text : String} {q : Rat} (h : Denotes text.toList q) :
    ∃ formatted, c.format text = .ok formatted := by
  obtain ⟨x, hread, hx, -⟩ := denotes_iff.1 h
  replace hread : Decimal.ofString text = .ok x := hread
  rw [format, NumberFormat.format, hread]
  exact ⟨_, NumberFormat.renderGrouped_eq hx⟩

/-- The formatted evaluation is the evaluation, followed by formatting its value. -/
theorem evaluateFormatted_result (c : Calculator) (expression : String) :
    (c.evaluateFormatted expression).result =
      (c.evaluate expression).result.bind fun value => (c.format value).mapError .numeric :=
  rfl

/-- **The formatted value of an expression** is its value, formatted. -/
theorem exists_evaluateFormatted {expression value : String}
    (h : (c.evaluate expression).result = .ok value) : ∃ formatted, c.format value = .ok formatted ∧
      (c.evaluateFormatted expression).result = .ok formatted := by
  obtain ⟨-, x, -, hx, -, rfl⟩ := Expression.exists_expresses h
  obtain ⟨formatted, hformatted⟩ := @exists_format c _ _ (denotes_toString hx)
  refine ⟨formatted, hformatted, ?_⟩
  rw [evaluateFormatted_result, h, Except.bind, hformatted, Except.mapError]

/-- An expression without a value fails as it does without formatting. -/
theorem evaluateFormatted_of_error {expression : String} {e : ExpressionError}
    (h : (c.evaluate expression).result = .error e) :
    (c.evaluateFormatted expression).result = .error e := by
  rw [evaluateFormatted_result, h, Except.bind]

/-- **What a calculator writes is read back**, if its separator is no part of a number. -/
theorem exists_read_back (hvalid : c.config.validate = .ok ()) {text : String} {q : Rat}
    (h : Denotes text.toList q) : ∃ formatted plain canonical,
      c.format text = .ok formatted ∧ c.round text = .ok plain ∧
      clearSeparators formatted (String.singleton c.config.format.separator) = plain ∧
      NumberText.canonicalize plain = .ok canonical ∧ IsCanonicalText canonical.toList ∧
      Denotes canonical.toList
        (c.config.format.mode.onRationals c.config.format.decimals.toNat q) := by
  obtain ⟨-, -, hseparator⟩ := Config.validate_eq_ok_iff.1 hvalid
  obtain ⟨formatted, plain, hformatted, hplain, hcleared, hdenotes⟩ :=
    NumberFormat.format_of_denotes h hseparator
  obtain ⟨x, hx, hvalue, hcanonical⟩ := NumberText.canonicalize_of_denotes hdenotes
  refine ⟨formatted, plain, x.toString, hformatted, hplain, hcleared, hcanonical, ?_, ?_⟩
  · rw [Decimal.toString, String.toList_ofList]
    exact hx.isCanonicalText
  · rw [← hvalue]
    exact denotes_toString hx

end Calculator

/-! ## 3. Unambiguous output

A created calculator stands for a valid configuration, so the theorem asks for the creation and not
for the condition.  Its last part is about all calculators. -/

/-- **Formatted output is unambiguous.**  A preset and any settings lead to one configuration and one
decision, given to a builder or to the configuration.  If the calculator is created, it formats every number,
and without the separators the text is the rounded one, whose canonical text denotes the number rounded as
configured.  Formatting the value of an expression never fails, and if there is none, the error is that of
the evaluation. -/
theorem formatted_output_unambiguous :
    (∀ (builder : Builder) (config : Config), (builder, config) ∈ Builder.presets →
      ∀ (settings : List Setting) (observer : Observer),
        (builder.setAll settings).config = config.setAll settings ∧
        (builder.setAll settings).build observer =
          Calculator.create (config.setAll settings) observer) ∧
    (∀ (config : Config) (observer : Observer) (created : Report Calculator),
      Calculator.create config observer = .ok created →
      ∀ (text : String) (q : Rat), Denotes text.toList q → ∃ formatted plain canonical,
        created.result.format text = .ok formatted ∧ created.result.round text = .ok plain ∧
        clearSeparators formatted (String.singleton config.format.separator) = plain ∧
        NumberText.canonicalize plain = .ok canonical ∧ IsCanonicalText canonical.toList ∧
        Denotes canonical.toList (config.format.mode.onRationals config.format.decimals.toNat q)) ∧
    ∀ (c : Calculator) (expression : String),
      (∀ value, (c.evaluate expression).result = .ok value → ∃ formatted,
        c.format value = .ok formatted ∧ (c.evaluateFormatted expression).result = .ok formatted) ∧
      ∀ e, (c.evaluate expression).result = .error e →
        (c.evaluateFormatted expression).result = .error e := by
  refine ⟨?_, ?_, ?_⟩
  · intro builder config h settings observer
    exact Builder.build_setAll h settings observer
  · intro config observer created hcreated text q h
    obtain ⟨hvalid, rfl⟩ := Calculator.create_eq_ok_iff.1 hcreated
    exact Calculator.exists_read_back hvalid h
  · intro c expression
    constructor
    · intro value h
      exact Calculator.exists_evaluateFormatted h
    · intro e h
      exact Calculator.evaluateFormatted_of_error h

/-- Amounts of money, with a blank between groups of three. -/
theorem formatted_output_unambiguous_money :
    (Builder.financial.setAll [.grouping ' ' 3]).build .silent =
      Calculator.create (Config.financial.withGrouping ' ' 3) .silent ∧
    (∃ created, Calculator.create (Config.financial.withGrouping ' ' 3) .silent = .ok created ∧
      Denotes "-1234567.895".toList (-1234567895 / 1000) ∧
      created.result.format "-1234567.895" = .ok "-1 234 567.90" ∧
      created.result.round "-1234567.895" = .ok (clearSeparators "-1 234 567.90" " ") ∧
      NumberText.canonicalize (clearSeparators "-1 234 567.90" " ") = .ok "-1234567.9" ∧
      Denotes "-1234567.9".toList (-12345679 / 10)) ∧
    ((⟨.financial, .silent⟩ : Calculator).evaluateFormatted "20000/3").result = .ok "6,666.67" ∧
    ((⟨.financial, .silent⟩ : Calculator).evaluateFormatted "1/0").result =
      .error (.numeric .divisionByZero) := by
  obtain ⟨hpresets, hcreates, hevaluates⟩ := formatted_output_unambiguous
  refine ⟨(hpresets _ _ (by decide) [.grouping ' ' 3] .silent).2, ?_, ?_, ?_⟩
  · have hdenotes : Denotes "-1234567.895".toList (-1234567895 / 1000) :=
      denotes_of_ofString (by decide +kernel)
    obtain ⟨formatted, plain, canonical, hformatted, hplain, hcleared, hcanonical, -, hvalue⟩ :=
      hcreates (Config.financial.withGrouping ' ' 3) .silent _ rfl _ _ hdenotes
    obtain rfl : "-1 234 567.90" = formatted := Except.ok.inj (.trans (by decide +kernel) hformatted)
    obtain rfl : "-1234567.9" = canonical := by
      rw [← hcleared] at hcanonical
      exact Except.ok.inj (.trans (by decide +kernel) hcanonical)
    subst hcleared
    have hrounded : RoundingMode.halfUp.onRationals 2 (-1234567895 / 1000) = -12345679 / 10 := by
      decide +kernel
    exact ⟨_, rfl, hdenotes, hformatted, hplain, hcanonical, hrounded ▸ hvalue⟩
  · obtain ⟨formatted, hformatted, hresult⟩ := (hevaluates ⟨.financial, .silent⟩ "20000/3").1
      "6666.666666666666666" (by decide +kernel)
    obtain rfl : "6,666.67" = formatted := Except.ok.inj (.trans (by decide +kernel) hformatted)
    exact hresult
  · exact (hevaluates _ "1/0").2 _ (by decide +kernel)

end DecimalCalc
