/-
# Looking for things in a text

Cutting at a character, asking whether a pattern or a neighbouring pair occurs, and erasing every
occurrence of a pattern.  These are the few operations on text that the reading of numbers and
expressions is made of.  All of them work on lists of characters, one character a code point, since
the program counts lengths and groups in code points as well.

Cutting takes the first character with a property, and the rest is not looked at: a second point or
a second exponent mark stays in what comes behind and is refused there, because it is no digit.
Erasing goes from the left and does not look back, so occurrences that overlap an erased one are not
found, and text that comes together through the erasing is not looked at again.  The empty pattern
is special: it occurs everywhere, and erasing it erases nothing.

Each operation has the one fact that its callers use: `cutAt_eq` for cutting, `occurs_iff` for
looking, `erase_singleton` for erasing.  The definitions need not be opened further on.

* `cutAt_eq`: the two halves of a cut and the character cut at give the text back;
* `cutAt_append`, `cutAt_of_forall`: where a text is cut;
* `occurs_iff`: a pattern occurs when it is an infix;
* `erase_nil`: the empty pattern erases nothing;
* `erase_singleton`: erasing a single character keeps exactly the other ones.
-/
namespace DecimalCalc
namespace Text

/-! ## 1. Cutting

A text is cut at most once, and the character it is cut at belongs to neither half.  Whether there
was such a character is told by the second half being there at all, which an empty second half does
not deny. -/

/-- The text before the first character with property `p`, and the text after that character if
there is one. -/
def cutAt (p : Char → Bool) (cs : List Char) : List Char × Option (List Char) :=
  (cs.takeWhile fun c => !p c, (cs.dropWhile fun c => !p c).tail?)

theorem cutAt_eq (p : Char → Bool) (cs : List Char) :
    cutAt p cs = (cs, none) ∧ (∀ c ∈ cs, p c = false) ∨
      ∃ before c after, cs = before ++ c :: after ∧ cutAt p cs = (before, some after) ∧
        p c = true ∧ ∀ d ∈ before, p d = false := by
  induction cs with
  | nil => exact .inl ⟨rfl, by simp⟩
  | cons c cs ih =>
    by_cases hc : p c = true
    · exact .inr ⟨[], c, cs, rfl, by simp [cutAt, hc], hc, by simp⟩
    · rw [Bool.not_eq_true] at hc
      rcases ih with ⟨h, hall⟩ | ⟨before, d, after, rfl, h, hd, hbefore⟩
      · refine .inl ⟨?_, by simpa [hc] using hall⟩
        simp only [cutAt, Prod.mk.injEq] at h
        simp [cutAt, hc, h]
      · refine .inr ⟨c :: before, d, after, rfl, ?_, hd, by simpa [hc] using hbefore⟩
        simp only [cutAt, Prod.mk.injEq] at h
        simp [cutAt, hc, h]

theorem cutAt_of_forall {p : Char → Bool} {cs : List Char} (h : ∀ c ∈ cs, p c = false) :
    cutAt p cs = (cs, none) := by
  rcases cutAt_eq p cs with ⟨hcut, -⟩ | ⟨before, c, after, rfl, -, hc, -⟩
  · exact hcut
  · rw [h c (by simp)] at hc
    cases hc

theorem cutAt_append {p : Char → Bool} {before after : List Char} {c : Char}
    (hbefore : ∀ d ∈ before, p d = false) (hc : p c = true) :
    cutAt p (before ++ c :: after) = (before, some after) := by
  have hp : ∀ d ∈ before, (!p d) = true := fun d hd => by simp [hbefore d hd]
  rw [cutAt, List.takeWhile_append_of_pos hp, List.dropWhile_append_of_pos hp]
  simp [hc]

/-! ## 2. Occurrences

A pattern is looked for at every place, and so is a pair of neighbours with a given property.  Both
are decided by one pass over the text. -/

/-- The pattern occurs somewhere in the text, as a piece without gaps.  The empty pattern occurs in
every text. -/
def occurs (pattern : List Char) : List Char → Bool
  | [] => pattern.isEmpty
  | c :: cs => pattern.isPrefixOf (c :: cs) || occurs pattern cs

/-- Some character and its right neighbour stand in the relation `p`.  A text of fewer than two
characters has no neighbours. -/
def adjacent (p : Char → Char → Bool) : List Char → Bool
  | a :: b :: cs => p a b || adjacent p (b :: cs)
  | _ => false

theorem occurs_iff {pattern cs : List Char} : occurs pattern cs = true ↔ pattern <:+: cs := by
  induction cs with
  | nil => simp [occurs]
  | cons c cs ih => rw [occurs, Bool.or_eq_true, List.isPrefixOf_iff_prefix, ih, List.infix_cons_iff]

/-! ## 3. Erasing

The count of characters still to be passed over makes the recursion one over the text itself, so
that it is structural also where an occurrence of more than one character is dropped. -/

/-- Erases the pattern while `skip` characters of an occurrence are still to be passed over. -/
def eraseFrom (pattern : List Char) : Nat → List Char → List Char
  | _, [] => []
  | skip + 1, _ :: cs => eraseFrom pattern skip cs
  | 0, c :: cs =>
    if pattern.isPrefixOf (c :: cs) then eraseFrom pattern (pattern.length - 1) cs
    else c :: eraseFrom pattern 0 cs

/-- Erases every occurrence of the pattern, from the left and without overlaps.  The empty pattern
erases nothing. -/
def erase (pattern cs : List Char) : List Char :=
  if pattern.isEmpty then cs else eraseFrom pattern 0 cs

@[simp] theorem erase_nil (cs : List Char) : erase [] cs = cs := rfl

theorem erase_singleton (c : Char) (cs : List Char) : erase [c] cs = cs.filter (· != c) := by
  have h : eraseFrom [c] 0 cs = cs.filter (· != c) := by
    induction cs with
    | nil => rfl
    | cons d cs ih =>
      by_cases hd : d = c
      · simp [eraseFrom, hd, ih]
      · simp [eraseFrom, List.isPrefixOf, hd, Ne.symm hd, ih]
  simpa [erase] using h

end Text
end DecimalCalc
