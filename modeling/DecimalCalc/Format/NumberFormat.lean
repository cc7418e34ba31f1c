/-
# Number formats

A format says how many decimals are kept, how the last one is rounded, whether the fraction is
filled up with zeros, and how the whole part is grouped.  Large amounts can be written in millions
or billions with a suffix; an amount counts as large when its magnitude is more than one such unit,
so exactly a million is still written out.

The operations build on each other.  Rendering rounds and pads; grouping is applied to what was
rendered; and a unit divides the amount, by moving its point, before it is rendered.  An amount is
therefore rounded once, in the unit that it is written in, and never before the unit is chosen.

Each operation exists for decimals and for number texts.  Those for texts read the number first and
refuse what is no number; beyond that, an operation that groups could only be refused by the
grouping, which takes plain text, and rendering writes nothing else.

* `render`: rounding and padding;
* `format`, `formatMillion`, `formatBillion`, `formatMoney`: grouping and suffixes on top of it.
-/
import DecimalCalc.Decimal.Rounding
import DecimalCalc.Format.Plain

namespace DecimalCalc

/-- How numbers are written for people.  Any combination of the fields is a format; which ones a
calculator accepts is a matter of its configuration. -/
structure NumberFormat where
  /-- Fraction digits kept after rounding. -/
  decimals : UInt32
  /-- Whether the fraction is filled up with zeros. -/
  pad : Bool
  /-- How the last decimal is rounded. -/
  mode : RoundingMode
  /-- What stands between groups of integer digits. -/
  separator : Char
  /-- Digits in a group; zero switches grouping off. -/
  groupSize : UInt64
deriving DecidableEq, Repr

/-- A unit in which large amounts are written: a power of ten and its suffix.  Counting in it moves
the point and loses nothing. -/
structure AmountUnit where
  exponent : Nat
  suffix : String
deriving DecidableEq, Repr

/-- Millions. -/
def AmountUnit.million : AmountUnit := ⟨6, "mn"⟩

/-- Billions. -/
def AmountUnit.billion : AmountUnit := ⟨9, "bn"⟩

/-- The magnitude is more than one unit.  The number is compared as it is, before any rounding. -/
def AmountUnit.applies (unit : AmountUnit) (x : Decimal) : Bool :=
  x.compareMagnitude (Decimal.one.shift unit.exponent) == .gt

/-- The amount counted in units, exactly; it is rounded when it is rendered. -/
def AmountUnit.count (unit : AmountUnit) (x : Decimal) : Decimal := x.shift (-unit.exponent)

namespace NumberFormat

/-! ## 1. Formats

A format is made with the usual grouping and changed afterwards.  The preset keeps two decimals,
which is what the default configuration writes with. -/

/-- A format that groups in threes with commas; only the other three fields are asked for. -/
def make (decimals : UInt32) (pad : Bool) (mode : RoundingMode) : NumberFormat :=
  ⟨decimals, pad, mode, ',', 3⟩

/-- Two decimals, halves away from zero, no padding: a number is shown with as many decimals as it
needs, up to two. -/
def standard : NumberFormat := make 2 false .halfUp

instance : Inhabited NumberFormat := ⟨standard⟩

/-- The same format with other groups.  Whether the separator is a sensible one is not checked
here. -/
def withGrouping (f : NumberFormat) (separator : Char) (groupSize : UInt64) : NumberFormat :=
  { f with separator, groupSize }

/-! ## 2. Writing decimals

These take a decimal that has been read already.  Padding belongs to the text, so it comes after
rounding, and grouping comes after padding; the zeros of the padding stand in the fraction, which is
not grouped. -/

/-- Rounds, and pads if the format says so.  Without padding the text is canonical. -/
def render (f : NumberFormat) (x : Decimal) : String :=
  let rounded := x.round f.mode f.decimals.toNat
  if f.pad then String.ofList (rounded.toCharsPadded f.decimals.toNat) else rounded.toString

/-- Renders and groups the whole part.  The fraction is left as it is. -/
def renderGrouped (f : NumberFormat) (x : Decimal) : Except NumberError String :=
  formatBy (f.render x) f.separator f.groupSize.toNat false

/-- Renders a large amount in the unit, with its suffix, and any other amount as it is.  Between
number and suffix stands one space. -/
def renderIn (f : NumberFormat) (unit : AmountUnit) (x : Decimal) : Except NumberError String :=
  if unit.applies x then (f.renderGrouped (unit.count x)).map (· ++ " " ++ unit.suffix)
  else f.renderGrouped x

/-- Renders in the largest unit that the amount exceeds, billions being tried before millions. -/
def renderMoney (f : NumberFormat) (x : Decimal) : Except NumberError String :=
  if AmountUnit.billion.applies x then f.renderIn .billion x else f.renderIn .million x

/-! ## 3. Writing number texts

Each of these reads its text and hands the number on.  Those that only round cannot fail once the
number is read. -/

/-- Rounds without grouping.  The name says what is done to the number; padding is done as well if
the format asks for it. -/
def round (f : NumberFormat) (text : String) : Except NumberError String :=
  (Decimal.ofString text).map f.render

/-- Counts in the unit and rounds, without grouping or suffix, and also if the amount is smaller
than the unit. -/
def fixTo (f : NumberFormat) (unit : AmountUnit) (text : String) : Except NumberError String :=
  (Decimal.ofString text).map fun x => f.render (unit.count x)

/-- Counts in millions and rounds. -/
def fixToMillion (f : NumberFormat) (text : String) : Except NumberError String :=
  f.fixTo .million text

/-- Counts in billions and rounds. -/
def fixToBillion (f : NumberFormat) (text : String) : Except NumberError String :=
  f.fixTo .billion text

/-- Rounds and groups, in this order, so that the separators stand between the digits that are
shown. -/
def format (f : NumberFormat) (text : String) : Except NumberError String :=
  Decimal.ofString text >>= f.renderGrouped

/-- In millions above one million. -/
def formatMillion (f : NumberFormat) (text : String) : Except NumberError String :=
  Decimal.ofString text >>= f.renderIn .million

/-- In billions above one billion. -/
def formatBillion (f : NumberFormat) (text : String) : Except NumberError String :=
  Decimal.ofString text >>= f.renderIn .billion

/-- In billions above one billion, else in millions above one million. -/
def formatMoney (f : NumberFormat) (text : String) : Except NumberError String :=
  Decimal.ofString text >>= f.renderMoney

end NumberFormat
end DecimalCalc
