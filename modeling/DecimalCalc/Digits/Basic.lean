/-
# Runs of decimal digits

Every number in this library is calculated digit by digit, the way it is done on paper, so that no
number is ever too long and nothing is rounded behind the caller's back.  What the calculations work
on is a run: a list of digits from the most significant one down.  A run may begin with zeros, and
it may be empty; both happen in the middle of an algorithm, where a remainder has just been used up
or a product has been given more room than it needs.

`toNat` is the number that a run denotes.  Each algorithm on runs is defined by what it does to
digits and then described once by what it does to `toNat`; nothing further on looks at the digits
again.  `Valid` says that the entries are digits at all.  It is kept apart from the type, since the
cells of a product are lists of the same kind and hold larger numbers until the carries are settled,
and `toNat` makes sense of these just as well.

* `toNat_concat`: one more digit at the end counts the ones before it ten times, which is the
  recursion that all the others are proved by;
* `toNat_trimLeading`: zeros in front do not count;
* `toNat_ofNat`: every number is denoted by its own digits;
* `toChars_of_ofChars?`, `ofChars?_toChars`: runs and texts of digits are the same thing.
-/
namespace DecimalCalc

/-- Digits from the most significant one down.  The empty run is a run as well, and denotes zero. -/
abbrev Digits := List Nat

namespace Digits

/-! ## 1. The value of a run

The fold reads a run from the left, as a reader would.  Proofs mostly take it from the other end: a
run that grows by one digit at its end is ten times what it was, and the digit. -/

/-- The number a run denotes: each further digit counts the ones before it ten times.  The entries
need not be digits for this to be a number. -/
def toNat (ds : Digits) : Nat := ds.foldl (fun n d => 10 * n + d) 0

/-- Every entry is one of the ten digits.  Operations keep this, and what is written out as text
relies on it. -/
def Valid (ds : Digits) : Prop := ∀ d ∈ ds, d < 10

instance (ds : Digits) : Decidable ds.Valid := inferInstanceAs (Decidable (∀ d ∈ ds, d < 10))

@[simp] theorem toNat_nil : toNat [] = 0 := rfl

theorem toNat_concat (ds : Digits) (d : Nat) : toNat (ds ++ [d]) = 10 * ds.toNat + d := by
  simp [toNat]

@[simp] theorem toNat_zero_cons (ds : Digits) : toNat (0 :: ds) = ds.toNat := rfl

@[simp] theorem toNat_replicate_zero (n : Nat) : toNat (List.replicate n 0) = 0 := by
  induction n with
  | zero => rfl
  | succ n ih => rw [List.replicate_succ, toNat_zero_cons, ih]

/-! ## 2. Zeros at the ends

Zeros in front of the integer digits and behind the fraction digits say nothing about the value, and
canonical numbers have none.  Both kinds are taken away here; the zeros at the end by turning the
run around. -/

/-- The run without the zeros in front; the empty run if there is nothing else.  A remainder is
kept in this form, so that zero is the empty run. -/
def trimLeading (ds : Digits) : Digits := ds.dropWhile (· == 0)

/-- The run without the zeros at the end, as a fraction is kept: there they say nothing. -/
def trimTrailing (ds : Digits) : Digits := (trimLeading ds.reverse).reverse

/-- There is no digit but zero. -/
def allZero (ds : Digits) : Bool := ds.all (· == 0)

@[simp] theorem toNat_trimLeading (ds : Digits) : ds.trimLeading.toNat = ds.toNat := by
  induction ds with
  | nil => rfl
  | cons d ds ih =>
    by_cases hd : d = 0
    · subst hd
      rw [toNat_zero_cons, ← ih]
      rfl
    · rw [trimLeading, List.dropWhile_cons_of_neg (by simpa using hd)]

/-- The trimmed run begins with no zero, which is what makes the number of its digits tell its
size. -/
theorem head?_trimLeading (ds : Digits) : ds.trimLeading.head? ≠ some 0 := by
  intro h
  have := List.head?_dropWhile_not (· == 0) ds
  rw [trimLeading] at h
  simp [h] at this

theorem Valid.trimLeading {ds : Digits} (h : ds.Valid) : ds.trimLeading.Valid :=
  fun d hd => h d ((List.dropWhile_sublist _).mem hd)

theorem allZero_trimLeading (ds : Digits) : ds.trimLeading.allZero = ds.allZero := by
  induction ds with
  | nil => rfl
  | cons d ds ih =>
    by_cases hd : d = 0
    · subst hd
      exact ih
    · rw [trimLeading, List.dropWhile_cons_of_neg (by simpa using hd)]

theorem allZero_trimTrailing (ds : Digits) : ds.trimTrailing.allZero = ds.allZero := by
  rw [trimTrailing, allZero, List.all_reverse]
  exact (allZero_trimLeading ds.reverse).trans List.all_reverse

theorem Valid.trimTrailing {ds : Digits} (h : ds.Valid) : ds.trimTrailing.Valid := fun d hd =>
  h d (List.mem_reverse.1 ((List.dropWhile_sublist _).mem (List.mem_reverse.1 hd)))

/-! ## 3. Order

Runs are compared the way numbers are compared by eye: the longer one is larger, once the zeros in
front are gone, and among runs of one length the first difference decides. -/

/-- The order of two runs by value: without the zeros in front the longer run is larger, and runs
of one length are decided at the first place where they differ. -/
protected def compare (x y : Digits) : Ordering :=
  (Ord.compare x.trimLeading.length y.trimLeading.length).then
    (Ord.compare x.trimLeading y.trimLeading)

/-! ## 4. Digits of a number, digits as characters

Numbers come in and go out as text, and integers of the machine come in as numbers.  A digit
character is its code point less that of the character zero; only the ten ASCII digits are read. -/

/-- The digits of a number, found from the last one up; a lone zero for zero, so that a number is
never written as nothing. -/
def ofNat (n : Nat) : Digits := if n < 10 then [n] else ofNat (n / 10) ++ [n % 10]

@[simp] theorem toNat_ofNat (n : Nat) : (ofNat n).toNat = n := by
  fun_induction ofNat n with
  | case1 n h => simp [toNat]
  | case2 n h ih => rw [toNat_concat, ih]; omega

theorem valid_ofNat (n : Nat) : (ofNat n).Valid := by
  fun_induction ofNat n with
  | case1 n h => simpa [Valid] using h
  | case2 n h ih =>
    intro d hd
    rcases List.mem_append.1 hd with hd | hd
    · exact ih d hd
    · have : d = n % 10 := by simpa using hd
      omega

/-- The character that stands for a digit. -/
def charOf (d : Nat) : Char := Char.ofNat (d + 48)

/-- The digit that an ASCII digit character stands for. -/
def digitOf (c : Char) : Nat := c.toNat - 48

/-- The run as text, one character a digit and no zeros taken away. -/
def toChars (ds : Digits) : List Char := ds.map charOf

/-- Reads a text of ASCII digits, the empty one included.  Other digits of Unicode are no digits
here. -/
def ofChars? (cs : List Char) : Option Digits :=
  if cs.all Char.isDigit then some (cs.map digitOf) else none

theorem digitOf_charOf {d : Nat} (h : d < 10) : digitOf (charOf d) = d := by
  have : ∀ d : Fin 10, digitOf (charOf d) = d := by decide
  exact this ⟨d, h⟩

theorem isDigit_charOf {d : Nat} (h : d < 10) : (charOf d).isDigit = true := by
  have : ∀ d : Fin 10, (charOf d).isDigit = true := by decide
  exact this ⟨d, h⟩

theorem charOf_digitOf {c : Char} (h : c.isDigit = true) : charOf (digitOf c) = c := by
  simp only [Char.isDigit, Bool.and_eq_true, decide_eq_true_eq] at h
  have hle : 48 ≤ c.toNat := h.1
  rw [charOf, digitOf, Nat.sub_add_cancel hle, Char.ofNat_toNat]

/-- What is read is the text of the run, character by character: nothing is normalised on the way
in. -/
theorem toChars_of_ofChars? {cs : List Char} {ds : Digits} (h : ofChars? cs = some ds) :
    ds.toChars = cs := by
  unfold ofChars? at h
  split at h
  · next hall =>
    obtain rfl := Option.some.inj h
    rw [toChars, List.map_map]
    exact (List.map_congr_left fun c hc => charOf_digitOf (List.all_eq_true.1 hall c hc)).trans
      (List.map_id' cs)
  · cases h

/-- A valid run reads back from its text.  Validity is needed, since a larger entry would be
written as some other character. -/
theorem ofChars?_toChars {ds : Digits} (h : ds.Valid) : ofChars? ds.toChars = some ds := by
  have hall : ds.toChars.all Char.isDigit = true := by
    simpa [toChars] using fun d hd => isDigit_charOf (h d hd)
  have hmap : ds.toChars.map digitOf = ds := by
    rw [toChars, List.map_map]
    exact (List.map_congr_left fun d hd => digitOf_charOf (h d hd)).trans (List.map_id' ds)
  rw [ofChars?, if_pos hall, hmap]

end Digits
end DecimalCalc
