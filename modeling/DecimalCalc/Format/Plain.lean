/-
# Plain decimal text and its separators

Plain text is an optional minus sign, digits, and possibly a point with more digits behind it.  Its
digits are grouped as they stand, zeros at either end included; the whole part is counted from the
right, the fraction from the point.

Plain text is both more and less than what is read as a number.  It may have zeros that the
canonical form has not, but no plus sign, no exponent, no blanks, and no point without digits on
both sides.  The grouping functions take nothing else, so what they are given is divided into its
parts and put together again with separators in between, and no digit is ever changed.  Taking
separators away again is erasing a text wherever it occurs, and works on any string.

* `Plain.toChars_of_ofChars?`: plain text is read part by part and nothing is lost;
* `clearSeparators_empty`: without a separator there is nothing to clear.
-/
import DecimalCalc.Decimal.Error
import DecimalCalc.Text.Grouping
import DecimalCalc.Text.Search

namespace DecimalCalc

/-! ## 1. The parts of plain text

The parts keep the digits as characters.  They are not read as numbers, since grouping depends on
how many of them there are and not on what they are worth. -/

/-- The parts of plain decimal text, the digits as characters.  An empty fraction stands for none. -/
structure Plain where
  negative : Bool
  integer : List Char
  fraction : List Char
deriving DecidableEq, Repr

namespace Plain

/-- Takes a minus sign from the front.  A plus sign is no part of plain text and stays where it
is. -/
def takeMinus : List Char → Bool × List Char
  | '-' :: cs => (true, cs)
  | cs => (false, cs)

/-- Reads the parts.  A point needs digits on both sides, and without a point there must be digits
all the same. -/
def ofChars? (cs : List Char) : Option Plain :=
  let (negative, body) := takeMinus cs
  let (integer, fraction) := Text.cutAt (· == '.') body
  if fraction = some [] ∨ integer.isEmpty then none
  else if integer.all Char.isDigit && (fraction.getD []).all Char.isDigit then
    some ⟨negative, integer, fraction.getD []⟩
  else none

/-- The text that the parts make up; of parts that were read, the text that they were read from. -/
def toChars (p : Plain) : List Char :=
  (if p.negative then ['-'] else []) ++ p.integer ++
    (if p.fraction.isEmpty then [] else '.' :: p.fraction)

/-- Groups the whole part and, if asked for, the fraction.  Parts that have been grouped are no
plain text any more, unless there was nothing to separate. -/
def group (separator : Char) (size : Nat) (groupFraction : Bool) (p : Plain) : Plain where
  negative := p.negative
  integer := Text.groupChars separator size true p.integer
  fraction := if groupFraction then Text.groupChars separator size false p.fraction else p.fraction

theorem takeMinus_eq (cs : List Char) :
    (if (takeMinus cs).1 then ['-'] else []) ++ (takeMinus cs).2 = cs := by
  unfold takeMinus
  split <;> simp

/-- Nothing is normalised on the way in, so grouping with size zero gives back what it was given. -/
theorem toChars_of_ofChars? {cs : List Char} {p : Plain} (h : ofChars? cs = some p) :
    p.toChars = cs := by
  have hminus := takeMinus_eq cs
  simp only [ofChars?] at h
  rcases Text.cutAt_eq (· == '.') (takeMinus cs).2 with ⟨hcut, -⟩ | ⟨before, c, after, heq, hcut, hc, -⟩
  · rw [hcut] at h
    split at h
    · cases h
    split at h
    · obtain rfl := Option.some.inj h
      simpa [toChars] using hminus
    · cases h
  · rw [hcut] at h
    split at h
    · cases h
    · next hnone =>
      split at h
      · obtain rfl := Option.some.inj h
        obtain rfl : c = '.' := by simpa using hc
        have hafter : after ≠ [] := by
          rintro rfl
          simp at hnone
        rw [heq] at hminus
        simpa [toChars, hafter] using hminus
      · cases h

end Plain

/-! ## 2. Grouping and clearing

The separator is a character where it is put in and a text where it is taken out.  A size of zero
switches grouping off. -/

/-- Groups the digits of plain text; any other text is refused, numbers in another form among
them. -/
def formatBy (text : String) (separator : Char) (size : Nat) (groupFraction : Bool) :
    Except NumberError String :=
  match Plain.ofChars? text.toList with
  | some p => .ok (String.ofList (p.group separator size groupFraction).toChars)
  | none => .error .invalidNumber

/-- Groups the whole part in threes with commas, as amounts are commonly written. -/
def formatThousands (text : String) : Except NumberError String := formatBy text ',' 3 false

/-- Erases every occurrence of a separator text, from the left and without overlaps.  The empty
text occurs nowhere. -/
def clearSeparators (text separator : String) : String :=
  String.ofList (Text.erase separator.toList text.toList)

@[simp] theorem clearSeparators_empty (text : String) : clearSeparators text "" = text := by
  simp [clearSeparators]

end DecimalCalc
