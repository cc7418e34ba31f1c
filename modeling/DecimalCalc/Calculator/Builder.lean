/-
# Building calculators step by step

A builder starts from a preset, takes settings one after the other, and ends in a calculator or a
refusal.  Each setting changes one part of the configuration, and nothing is checked before the end.

A builder's setters are written apart from those of a configuration, field by field, and rounding
has a setter for each mode.  That both change the same thing is therefore a fact to be proved and
not a matter of definition.  `Setting` names the changes that either side understands, so that the
agreement is one statement about a setting and, by induction, one about a list of them.

* `Builder.config_set`: a builder's setting is the configuration's;
* `Builder.config_setAll`: and so is a whole list of them.
-/
import DecimalCalc.Calculator.Basic

namespace DecimalCalc

/-- One change to a configuration, along with the new value.  A whole format can be set at once, or
one part of it. -/
inductive Setting where
  | maxDecimalLength (value : UInt32)
  | decimals (value : UInt32)
  | padded (value : Bool)
  | mode (value : RoundingMode)
  | grouping (separator : Char) (groupSize : UInt64)
  | format (value : NumberFormat)
deriving DecidableEq, Repr

/-- The configuration with one thing changed.  This is the meaning of a setting; the builder is
compared with it. -/
def Config.set (c : Config) : Setting → Config
  | .maxDecimalLength value => c.withMaxDecimalLength value
  | .decimals value => c.withDecimals value
  | .padded value => c.withPadding value
  | .mode value => c.withRoundingMode value
  | .grouping separator groupSize => c.withGrouping separator groupSize
  | .format value => c.withFormat value

/-- The configuration with several things changed, one after the other.  Of two settings of one
part the later one counts. -/
def Config.setAll (c : Config) (settings : List Setting) : Config := settings.foldl Config.set c

/-- A calculator in the making.  It holds nothing but the configuration that it has come to so
far. -/
structure Builder where
  config : Config
deriving DecidableEq, Repr

namespace Builder

/-! ## 1. Presets

There is a builder for each preset of a configuration.  A builder without any setting creates the
calculator that the preset describes. -/

/-- For general use. -/
def standard : Builder := ⟨.standard⟩

/-- For amounts of money. -/
def financial : Builder := ⟨.financial⟩

/-- For quantities that must not be reported too high. -/
def truncating : Builder := ⟨.truncating⟩

/-! ## 2. Settings

Each setter rebuilds the builder with one part replaced.  The cap is the only part outside the
format, so it alone does not go through `mapFormat`. -/

/-- Where divisions are cut off.  A value past the limit is taken as well and refused in the end. -/
def maxDecimalLength (b : Builder) (value : UInt32) : Builder :=
  ⟨⟨value, b.config.format⟩⟩

/-- Changes the format and leaves the cap.  All setters but one are this one with a function of
their own. -/
def mapFormat (b : Builder) (f : NumberFormat → NumberFormat) : Builder :=
  ⟨⟨b.config.maxDecimalLength, f b.config.format⟩⟩

/-- How many decimals are kept. -/
def decimals (b : Builder) (value : UInt32) : Builder :=
  b.mapFormat fun f => { f with decimals := value }

/-- Whether the fraction is filled up. -/
def padded (b : Builder) (value : Bool) : Builder :=
  b.mapFormat fun f => { f with pad := value }

/-- Halves go away from zero. -/
def halfUpRounding (b : Builder) : Builder :=
  b.mapFormat fun f => { f with mode := .halfUp }

/-- Everything goes toward minus infinity. -/
def floorRounding (b : Builder) : Builder :=
  b.mapFormat fun f => { f with mode := .floor }

/-- How integer digits are grouped. -/
def grouping (b : Builder) (separator : Char) (groupSize : UInt64) : Builder :=
  b.mapFormat fun f => f.withGrouping separator groupSize

/-- The whole format. -/
def numberFormat (b : Builder) (format : NumberFormat) : Builder := b.mapFormat fun _ => format

/-- Takes one setting.  Rounding is the only case that is split further, as the builder has a
setter for each mode. -/
def set (b : Builder) : Setting → Builder
  | .maxDecimalLength value => b.maxDecimalLength value
  | .decimals value => b.decimals value
  | .padded value => b.padded value
  | .mode .halfUp => b.halfUpRounding
  | .mode .floor => b.floorRounding
  | .grouping separator groupSize => b.grouping separator groupSize
  | .format value => b.numberFormat value

/-- Takes several settings, one after the other, the first one first. -/
def setAll (b : Builder) (settings : List Setting) : Builder := settings.foldl set b

/-- Creates the calculator.  This is where the configuration is checked, so here a builder can be
refused. -/
def build (b : Builder) (observer : Observer) : Except ConfigError (Report Calculator) :=
  Calculator.create b.config observer

/-- One case for each setting.  The builder writes out what the configuration's function does
through its format. -/
@[simp] theorem config_set (b : Builder) (setting : Setting) :
    (b.set setting).config = b.config.set setting := by
  match setting with
  | .maxDecimalLength _ | .decimals _ | .padded _ | .mode .halfUp | .mode .floor | .grouping _ _
  | .format _ => rfl

theorem config_setAll (b : Builder) (settings : List Setting) :
    (b.setAll settings).config = b.config.setAll settings := by
  induction settings generalizing b with
  | nil => rfl
  | cons setting settings ih =>
    show ((b.set setting).setAll settings).config = _
    rw [ih, config_set]
    rfl

end Builder
end DecimalCalc
