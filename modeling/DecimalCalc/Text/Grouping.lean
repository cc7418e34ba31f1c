/-
# Grouping the characters of a text

A separator is put between every `size` characters, counted from the right end, as in the integer
part of a number, or from the left end, as in its fraction.  A text that fits into one group stays
as it is, and a size of zero switches grouping off.  The groups counted from the right are full but
for the first one, which is shorter where the length is no multiple of the size; counted from the
left, the last one may be shorter.

The definition goes by positions: a separator stands in front of every position that is a multiple
of the size past the short first group.  The remainder is taken of `i + size - offset`, where the
size is added first so that the subtraction stays above zero; in words of the machine this could go
wrong in two ways, and neither happens for a text that fits into memory, which is proved with the
description of the groups.

Here only what is needed to take the separators away again is proved: whatever the positions are,
nothing but separators is put in, and nothing is left out.

* `groupChars_of_length_le`: one group needs no separator;
* `groupChars_zero`: nor does a size of zero ask for any;
* `filter_groupChars`: without the separators, the grouped text is the text.
-/
namespace DecimalCalc
namespace Text

/-- A separator stands in front of position `i` when `i` is a multiple of `size` past the `offset`
characters of the short first group.  The first position never has one in front. -/
def startsGroup (size offset i : Nat) : Bool := 0 < i && (i + size - offset) % size == 0

/-- Groups the characters in runs of `size`, the short one first when counted from the right.  No
separator stands in front of the text or behind it. -/
def groupChars (separator : Char) (size : Nat) (fromRight : Bool) (cs : List Char) : List Char :=
  if size = 0 ∨ cs.length ≤ size then cs
  else
    let offset := if fromRight then cs.length % size else 0
    cs.zipIdx.flatMap fun (c, i) => if startsGroup size offset i then [separator, c] else [c]

/-- `groupChars` on a text, for callers who hold their digits as one. -/
def group (text : String) (separator : Char) (size : Nat) (fromRight : Bool) : String :=
  String.ofList (groupChars separator size fromRight text.toList)

theorem groupChars_of_length_le {separator : Char} {size : Nat} {fromRight : Bool}
    {cs : List Char} (h : cs.length ≤ size) : groupChars separator size fromRight cs = cs := by
  simp [groupChars, h]

@[simp] theorem groupChars_zero (separator : Char) (fromRight : Bool) (cs : List Char) :
    groupChars separator 0 fromRight cs = cs := by
  simp [groupChars]

theorem filter_groupChars {separator : Char} {cs : List Char} (h : separator ∉ cs) (size : Nat)
    (fromRight : Bool) : (groupChars separator size fromRight cs).filter (· != separator) = cs := by
  have keep : cs.filter (· != separator) = cs :=
    List.filter_eq_self.2 fun c hc => by
      simpa using fun e : c = separator => h (e ▸ hc)
  have step : ∀ (p : Nat → Bool) (l : List Char) (n : Nat),
      ((l.zipIdx n).flatMap fun (c, i) => if p i then [separator, c] else [c]).filter
        (· != separator) = l.filter (· != separator) := by
    intro p l
    induction l with
    | nil => simp
    | cons c l ih =>
      intro n
      by_cases hp : p n <;> by_cases hc : c = separator <;>
        simp [List.zipIdx_cons, hp, hc, ih]
  unfold groupChars
  split
  · exact keep
  · exact (step _ cs 0).trans keep

end Text
end DecimalCalc
