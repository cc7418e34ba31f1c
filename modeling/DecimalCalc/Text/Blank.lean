/-
# Blank characters

A blank is a character with Unicode's White_Space property.  Numbers and expressions may stand
between blanks; `trim` takes them away on both sides and leaves the inside alone, where a blank is
never allowed.  The property is a fixed table of code points: besides the space and the control
characters for tabs and lines it holds the no-break space, the spaces of typography and the
separators for lines and paragraphs.  The zero-width space and the byte order mark do not have it
and are not taken away.

The table is given as ranges, so that deciding whether a character is blank takes a few comparisons.
Trimming is defined by dropping blanks in front, twice, the second time from the other end.  What
matters to the callers is that it takes away nothing but blanks, nothing from the inside, and the
same from a text whatever stands around it.

* `trim_eq_self`: a text that neither begins nor ends with a blank is its own trimmed form;
* `mem_of_mem_trim`: every character that is left was there before;
* `trim_append`: what stands around such a text is trimmed on its own.
-/
namespace DecimalCalc
namespace Text

/-! ## 1. The table

No property of characters is proved from the table but by going through it.  That it has the
right size is checked below it; which characters it holds is best compared with the Unicode data
by eye. -/

/-- The ranges of code points that have the White_Space property, both ends included.  A range of
one code point stands for itself. -/
def blankRanges : List (Nat × Nat) :=
  [(0x0009, 0x000D), (0x0020, 0x0020), (0x0085, 0x0085), (0x00A0, 0x00A0), (0x1680, 0x1680),
   (0x2000, 0x200A), (0x2028, 0x2029), (0x202F, 0x202F), (0x205F, 0x205F), (0x3000, 0x3000)]

/-- A blank is a character whose code point lies in one of the ranges. -/
def isBlank (c : Char) : Bool :=
  blankRanges.any fun r => r.1 ≤ c.toNat && c.toNat ≤ r.2

-- the property belongs to twenty-five characters
example : (blankRanges.map fun r => r.2 - r.1 + 1).foldl (· + ·) 0 = 25 := by decide

/-! ## 2. Trimming

Trimming the front and turning the text around are each done twice.  A text without blanks at its
ends is left as it is, and this is used for every text that is made of digits, operators and
parentheses. -/

/-- Drops the blanks in front, up to the first character that is none. -/
def trimStart (cs : List Char) : List Char := cs.dropWhile isBlank

/-- Drops the blanks in front and behind.  A text of blanks only becomes empty. -/
def trim (cs : List Char) : List Char := (trimStart (trimStart cs).reverse).reverse

theorem trimStart_eq_self {cs : List Char} (h : ∀ c ∈ cs.head?, isBlank c = false) :
    trimStart cs = cs := by
  cases cs with
  | nil => rfl
  | cons c cs => simp [trimStart, h c (by simp)]

theorem trim_eq_self {cs : List Char} (first : ∀ c ∈ cs.head?, isBlank c = false)
    (last : ∀ c ∈ cs.getLast?, isBlank c = false) : trim cs = cs := by
  rw [trim, trimStart_eq_self first, trimStart_eq_self (by simpa using last), List.reverse_reverse]

theorem trim_of_forall {cs : List Char} (h : ∀ c ∈ cs, isBlank c = false) : trim cs = cs :=
  trim_eq_self (fun c hc => h c (List.mem_of_mem_head? hc))
    fun c hc => h c (List.mem_of_mem_getLast? hc)

/-- Trimming only takes away: every character that is left stood in the text before. -/
theorem mem_of_mem_trim {c : Char} {cs : List Char} (h : c ∈ trim cs) : c ∈ cs := by
  have hstart : ∀ {ds : List Char}, c ∈ trimStart ds → c ∈ ds :=
    fun hc => (List.dropWhile_sublist _).subset hc
  exact hstart (List.mem_reverse.1 (hstart (List.mem_reverse.1 h)))

theorem trimStart_append {cs ds : List Char} (first : ∀ c ∈ ds.head?, isBlank c = false) :
    trimStart (cs ++ ds) = trimStart cs ++ ds := by
  induction cs with
  | nil => exact trimStart_eq_self first
  | cons c cs ih =>
    by_cases hc : isBlank c = true
    · simpa only [List.cons_append, trimStart, List.dropWhile_cons_of_pos hc] using ih
    · simp only [List.cons_append, trimStart, List.dropWhile_cons_of_neg hc]

/-- What stands around a text without blanks at its ends is trimmed on its own. -/
theorem trim_append {mid : List Char} (hne : mid ≠ []) (first : ∀ c ∈ mid.head?, isBlank c = false)
    (last : ∀ c ∈ mid.getLast?, isBlank c = false) (before after : List Char) :
    trim (before ++ mid ++ after) = trimStart before ++ mid ++ (trimStart after.reverse).reverse := by
  have hhead : ∀ c ∈ (mid ++ after).head?, isBlank c = false := by
    obtain ⟨c, cs, rfl⟩ := List.exists_cons_of_ne_nil hne
    exact first
  have hlast : ∀ c ∈ (trimStart before ++ mid).reverse.head?, isBlank c = false := by
    rw [List.head?_reverse, List.getLast?_append, List.getLast?_eq_some_getLast hne, Option.some_or,
      ← List.getLast?_eq_some_getLast hne]
    exact last
  rw [trim, List.append_assoc, trimStart_append hhead, ← List.append_assoc, List.reverse_append,
    trimStart_append hlast, List.reverse_append, List.reverse_reverse]

end Text
end DecimalCalc
