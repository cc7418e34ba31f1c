/-
# Where the separators stand

A separator is put wherever the position of a digit, counted from the end of the short first group,
is a multiple of the group size.  So a text falls into groups: from the left, each is full but the
last; from the right, each is full but the first; and none is empty.  The positions are found by
arithmetic on machine words, which cannot go wrong where it is reached at all: the sum is taken only
for a group size that is less than the length of the text.

The definition decides about each character by its position, and the theorem is about groups, so the
work lies in going from one to the other.  A text is read from the position of a start, where a
group's worth of characters carries one separator, in front, and what follows is at a start again.
The induction is on the number of characters that are left.  Both directions of counting off then
are this one with another offset: from the right the first group is the short one, and from the left
it is the last.

* `Text.startsGroup_iff`: where a group starts, by the remainder of the position;
* `Text.exists_marked`: what stands behind the start of a group is a sequence of groups;
* `Text.exists_groups`: a grouped text is its groups with separators between them;
* `Text.index_fits`, `Text.groupWords_eq_groupChars`: words of 64 bits are large enough for the
  positions;
* `Plain.ofChars?_eq_some_iff`: what plain text is;
* `grouping_is_exact`: which texts are grouped, and how.
-/
import DecimalCalc.Proofs.Format.Rendering

namespace DecimalCalc
namespace Text

/-! ## 1. Groups

What groups are is said without positions, so that it can be used for either direction by turning
the list around.  A sequence of groups is built from its front, where full groups are put on, or at
its end. -/

/-- Groups that were counted off one after the other: each is full but the last, and that is not
empty.  There may be no groups at all. -/
structure CountedOff (size : Nat) (groups : List (List Char)) : Prop where
  full : ∀ group ∈ groups.dropLast, group.length = size
  last : ∀ group ∈ groups.getLast?, 0 < group.length ∧ group.length ≤ size

theorem CountedOff.concat {size : Nat} {group : List Char} {groups : List (List Char)}
    (hfull : ∀ group ∈ groups, group.length = size) (hpos : 0 < group.length)
    (hle : group.length ≤ size) : CountedOff size (groups ++ [group]) := by
  constructor
  · rwa [List.dropLast_concat]
  · intro last hlast
    rw [List.getLast?_concat] at hlast
    exact Option.some.inj hlast ▸ ⟨hpos, hle⟩

theorem CountedOff.nil (size : Nat) : CountedOff size [] :=
  ⟨List.forall_mem_nil _, fun _ h => nomatch h⟩

theorem CountedOff.singleton {size : Nat} {group : List Char} (hpos : 0 < group.length)
    (hle : group.length ≤ size) : CountedOff size [group] :=
  @CountedOff.concat size group [] (List.forall_mem_nil _) hpos hle

/-- A full group may be put in front of groups that are there already. -/
theorem CountedOff.cons {size : Nat} {group : List Char} {groups : List (List Char)}
    (hfull : group.length = size) (h : CountedOff size groups) (hne : groups ≠ []) :
    CountedOff size (group :: groups) := by
  constructor
  · rw [List.dropLast_cons_of_ne_nil hne]
    exact List.forall_mem_cons.2 ⟨hfull, h.full⟩
  · rw [List.getLast?_cons_of_ne_nil hne]
    exact h.last

theorem ne_nil_of_flatten {groups : List (List Char)} {cs : List Char} (h : groups.flatten = cs)
    (hne : cs ≠ []) : groups ≠ [] := by
  rintro rfl
  exact hne h.symm

/-! ## 2. Where groups start

The position is compared with the offset by remainders, so a start comes once in every group size.
Between two starts there is none, and this is what makes a stretch of that length a group. -/

/-- **A group starts** where the position leaves the same remainder as the end of the short first group. -/
theorem startsGroup_iff {size offset i : Nat} (h : offset < size) :
    startsGroup size offset i = true ↔ 0 < i ∧ i % size = offset := by
  have hmod : (i + size - offset) % size = 0 ↔ i % size = offset := by
    have hdiv : i + size - offset = size * (i / size) + (i % size + size - offset) := by
      have := Nat.div_add_mod i size
      omega
    have hlt := Nat.mod_lt i (Nat.zero_lt_of_lt h)
    rw [hdiv, Nat.mul_add_mod]
    -- what is left is less than twice the size, so it is the size itself or no multiple
    rcases Nat.lt_or_ge (i % size) offset with hbefore | hbehind
    · rw [Nat.mod_eq_of_lt (by omega)]
      omega
    · rw [show i % size + size - offset = size + (i % size - offset) by omega, Nat.add_mod_left,
        Nat.mod_eq_of_lt (by omega)]
      omega
  rw [startsGroup, Bool.and_eq_true, decide_eq_true_eq, beq_iff_eq, hmod]

/-- The characters from position `n` on, with a separator in front of each that starts a group.
With `n` at zero this is the whole text. -/
def marked (separator : Char) (size offset n : Nat) (cs : List Char) : List Char :=
  (cs.zipIdx n).flatMap fun (c, i) => if startsGroup size offset i then [separator, c] else [c]

variable {separator : Char} {size offset n : Nat}

/-- A text may be marked in parts, each at its own position. -/
theorem marked_append (before behind : List Char) :
    marked separator size offset n (before ++ behind) =
      marked separator size offset n before ++
        marked separator size offset (n + before.length) behind := by
  rw [marked, List.zipIdx_append, List.flatMap_append, Nat.add_comm]
  rfl

theorem marked_cons (c : Char) (cs : List Char) : marked separator size offset n (c :: cs) =
    (if startsGroup size offset n then [separator, c] else [c]) ++
      marked separator size offset (n + 1) cs := rfl

theorem marked_of_forall {cs : List Char}
    (h : ∀ i, n ≤ i → i < n + cs.length → startsGroup size offset i = false) :
    marked separator size offset n cs = cs := by
  induction cs generalizing n with
  | nil => rfl
  | cons c cs ih =>
    have hfirst := h n le_rfl (by simp)
    have hrest := ih (n := n + 1) fun i hi hlt => h i (by omega) (by rw [List.length_cons]; omega)
    rw [marked_cons, hfirst, if_neg Bool.false_ne_true, hrest, List.singleton_append]

theorem startsGroup_inside (hoffset : offset < size) (hstart : n % size = offset) {i : Nat}
    (hlow : n < i) (hhigh : i < n + size) : startsGroup size offset i = false := by
  rw [← Bool.not_eq_true, startsGroup_iff hoffset]
  rintro ⟨-, hi⟩
  have hzero : (i - n) % size = 0 := Nat.sub_mod_eq_zero_of_mod_eq (hi.trans hstart.symm)
  rw [Nat.mod_eq_of_lt (by omega)] at hzero
  omega

/-- From a start on, up to a full group is marked by one separator in front of it. -/
theorem marked_group (hoffset : offset < size) (hn : 0 < n) (hstart : n % size = offset)
    {group : List Char} (hne : group ≠ []) (hle : group.length ≤ size) :
    marked separator size offset n group = separator :: group := by
  obtain ⟨c, cs, rfl⟩ := List.exists_cons_of_ne_nil hne
  rw [List.length_cons] at hle
  have hfirst : startsGroup size offset n = true := (startsGroup_iff hoffset).2 ⟨hn, hstart⟩
  have hrest : marked separator size offset (n + 1) cs = cs :=
    marked_of_forall fun i hlow hhigh => startsGroup_inside hoffset hstart (by omega) (by omega)
  rw [marked_cons, hfirst, if_pos rfl, hrest, List.cons_append, List.singleton_append]

/-- **Behind the start of a group** stands a sequence of groups, each behind a separator.  If the
characters come out even, the last group is full as well; that is needed when they are counted off
from the right. -/
theorem exists_marked (hoffset : offset < size) (hn : 0 < n) (hstart : n % size = offset)
    (cs : List Char) : ∃ groups : List (List Char),
      marked separator size offset n cs = groups.flatMap (separator :: ·) ∧ groups.flatten = cs ∧
      CountedOff size groups ∧ (size ∣ cs.length → ∀ group ∈ groups, group.length = size) := by
  induction hlength : cs.length using Nat.strong_induction_on generalizing cs n with
  | _ length ih =>
  subst hlength
  have hsize : 0 < size := Nat.zero_lt_of_lt hoffset
  rcases Nat.lt_or_ge size cs.length with hlong | hshort
  · -- a full group, and at least one behind it
    have hfull : (cs.take size).length = size := by
      rw [List.length_take]
      omega
    have hdrop : (cs.drop size).length = cs.length - size := List.length_drop
    obtain ⟨groups, hmarked, hflatten, hcounted, hdivides⟩ :=
      ih (cs.drop size).length (by omega) (n := n + size) (by omega)
        ((Nat.add_mod_right n size).trans hstart) (cs.drop size) rfl
    have hne := ne_nil_of_flatten hflatten (List.ne_nil_of_length_pos (by omega))
    have htake : cs.take size ≠ [] := List.ne_nil_of_length_pos (by omega)
    refine ⟨cs.take size :: groups, ?_, ?_, hcounted.cons hfull hne, fun hdvd => ?_⟩
    · conv_lhs => rw [← List.take_append_drop size cs]
      rw [marked_append, marked_group hoffset hn hstart htake hfull.le, hfull, hmarked,
        List.flatMap_cons]
    · rw [List.flatten_cons, hflatten, List.take_append_drop]
    · refine List.forall_mem_cons.2 ⟨hfull, hdivides ?_⟩
      rw [hdrop]
      exact Nat.dvd_sub hdvd dvd_rfl
  · rcases eq_or_ne cs [] with rfl | hne
    · exact ⟨[], rfl, rfl, .nil size, fun _ => List.forall_mem_nil _⟩
    · have hpos := List.length_pos_of_ne_nil hne
      refine ⟨[cs], ?_, by simp, .singleton hpos hshort, fun hdvd => ?_⟩
      · rw [marked_group hoffset hn hstart hne hshort, List.flatMap_singleton]
      · have := Nat.le_of_dvd hpos hdvd
        exact List.forall_mem_singleton.2 (by omega)

/-! ## 3. Grouped texts

In front of the first start stands the first group, and behind it the groups of the previous
section.  Between groups there is one separator, and in front of the first one none. -/

theorem intercalate_cons (group : List Char) (groups : List (List Char)) :
    [separator].intercalate (group :: groups) = group ++ groups.flatMap (separator :: ·) := by
  induction groups generalizing group with
  | nil => simp
  | cons next groups ih =>
    rw [List.intercalate_cons_cons, ih, List.flatMap_cons, List.append_assoc, List.singleton_append,
      List.cons_append]

/-- The first group, up to the first start or full, and the groups that are counted off behind it. -/
theorem exists_groups_behind (hoffset : offset < size) {start : Nat}
    (hstart : start = if offset = 0 then size else offset) {cs : List Char} (hle : start ≤ cs.length) :
    ∃ groups : List (List Char),
      marked separator size offset 0 cs = [separator].intercalate (cs.take start :: groups) ∧
      groups.flatten = cs.drop start ∧ CountedOff size groups ∧
      (size ∣ (cs.drop start).length → ∀ group ∈ groups, group.length = size) := by
  have hpos : 0 < start := by
    split at hstart <;> omega
  have hmod : start % size = offset := by
    split at hstart
    · next hzero => rw [hstart, hzero, Nat.mod_self]
    · rw [hstart, Nat.mod_eq_of_lt hoffset]
  have hlength : (cs.take start).length = start := by
    rw [List.length_take]
    omega
  have hfirst : marked separator size offset 0 (cs.take start) = cs.take start := by
    refine marked_of_forall fun i _ hi => ?_
    rw [← Bool.not_eq_true, startsGroup_iff hoffset]
    rintro ⟨hi0, hi'⟩
    split at hstart <;> rw [Nat.mod_eq_of_lt (by omega)] at hi' <;> omega
  obtain ⟨groups, hmarked, hgroups⟩ :=
    @exists_marked separator size offset start hoffset hpos hmod (cs.drop start)
  refine ⟨groups, ?_, hgroups⟩
  conv_lhs => rw [← List.take_append_drop start cs]
  rw [marked_append, hfirst, hlength, Nat.zero_add, hmarked, intercalate_cons]

/-- **A grouped text is its groups with separators between them**: from the left all are full but the last, from
the right all but the first. -/
theorem exists_groups (hsize : 0 < size) (fromRight : Bool) (cs : List Char) :
    ∃ groups : List (List Char),
      groupChars separator size fromRight cs = [separator].intercalate groups ∧ groups.flatten = cs ∧
      CountedOff size (if fromRight then groups.reverse else groups) := by
  rcases Nat.lt_or_ge size cs.length with hlong | hshort
  · obtain ⟨offset, hoffset⟩ : ∃ offset, offset = if fromRight then cs.length % size else 0 := ⟨_, rfl⟩
    have hlt : offset < size := by
      split at hoffset
      · exact hoffset ▸ Nat.mod_lt _ hsize
      · omega
    obtain ⟨start, hstart⟩ : ∃ start, start = if offset = 0 then size else offset := ⟨_, rfl⟩
    have hpos : 0 < start ∧ start ≤ size := by
      split at hstart <;> omega
    have htake : (cs.take start).length = start := by
      rw [List.length_take]
      omega
    obtain ⟨groups, hmarked, hflatten, hcounted, hdivides⟩ :=
      @exists_groups_behind separator size offset hlt start hstart cs (by omega)
    refine ⟨cs.take start :: groups, ?_, ?_, ?_⟩
    · rw [groupChars, if_neg (by omega), ← hmarked, hoffset]
      rfl
    · rw [List.flatten_cons, hflatten, List.take_append_drop]
    · cases fromRight with
      | true =>
        -- the short group is taken off first, and the rest comes out even
        have hdvd : size ∣ (cs.drop start).length := by
          have hdiv := Nat.div_add_mod cs.length size
          rw [if_pos rfl] at hoffset
          rw [List.length_drop]
          split at hstart
          · exact Nat.dvd_sub (Nat.dvd_of_mod_eq_zero (by omega)) (hstart ▸ dvd_rfl)
          · exact ⟨cs.length / size, by omega⟩
        rw [if_pos rfl, List.reverse_cons]
        exact .concat (fun group h => hdivides hdvd group (List.mem_reverse.1 h)) (by omega) (by omega)
      | false =>
        rw [if_neg Bool.false_ne_true] at hoffset ⊢
        have hne := ne_nil_of_flatten hflatten
          (List.ne_nil_of_length_pos (by rw [List.length_drop]; omega))
        rw [if_pos hoffset] at hstart
        exact .cons (by omega) hcounted hne
  · rw [groupChars_of_length_le hshort]
    rcases eq_or_ne cs [] with rfl | hne
    · exact ⟨[], rfl, rfl, by cases fromRight <;> exact .nil size⟩
    · have hsingle := CountedOff.singleton (List.length_pos_of_ne_nil hne) hshort
      exact ⟨[cs], by simp, by simp, by cases fromRight <;> exact hsingle⟩

/-! ## 4. Machine words

The machine adds the size to a position before it subtracts the offset, so that the difference is
not negative.  The sum could leave its word for a large size; but then the size is no less than the
length, and nothing is grouped. -/

/-- The longest text that fits into memory has fewer characters.  No allocation is larger than half
of the addresses. -/
def textLimit : Nat := 2 ^ 63

/-- `startsGroup` on words of 64 bits, which wrap around. -/
def startsGroupWord (size offset i : UInt64) : Bool := 0 < i && (i + size - offset) % size == 0

/-- `groupChars` on words of 64 bits, which wrap around. -/
def groupWords (separator : Char) (size : UInt64) (fromRight : Bool) (cs : List Char) : List Char :=
  let length := UInt64.ofNat cs.length
  if size = 0 ∨ length ≤ size then cs
  else
    let offset := if fromRight then length % size else 0
    cs.zipIdx.flatMap fun (c, i) =>
      if startsGroupWord size offset (.ofNat i) then [separator, c] else [c]

/-- **No position is computed out of range**: where the computation is reached, the size is less than the length
of the text. -/
theorem index_fits {size offset i length : Nat} (hlength : length < textLimit) (hsize : size < length)
    (hoffset : offset < size) (hi : i < length) : offset ≤ i + size ∧ i + size < 2 ^ 64 := by
  rw [textLimit] at hlength
  omega

/-- In range, words and numbers agree about where a group starts. -/
theorem startsGroupWord_eq {size offset i : UInt64} {length : Nat} (hlength : length < textLimit)
    (hsize : size.toNat < length) (hoffset : offset.toNat < size.toNat) (hi : i.toNat < length) :
    startsGroupWord size offset i = startsGroup size.toNat offset.toNat i.toNat := by
  obtain ⟨hlow, hhigh⟩ := index_fits hlength hsize hoffset hi
  have hsum : (i + size).toNat = i.toNat + size.toNat := by
    rw [UInt64.toNat_add, Nat.mod_eq_of_lt hhigh]
  have hdifference : (i + size - offset).toNat = i.toNat + size.toNat - offset.toNat := by
    rw [UInt64.toNat_sub_of_le _ _ (UInt64.le_iff_toNat_le.2 (hsum.symm ▸ hlow)), hsum]
  have hpos : (0 < i) = (0 < i.toNat) := propext UInt64.lt_iff_toNat_lt
  have hzero : ((i + size - offset) % size == 0) =
      ((i.toNat + size.toNat - offset.toNat) % size.toNat == 0) := by
    rw [Bool.eq_iff_iff, beq_iff_eq, beq_iff_eq, ← UInt64.toNat_inj, UInt64.toNat_mod, hdifference,
      UInt64.toNat_zero]
  rw [startsGroupWord, startsGroup, hzero]
  simp only [hpos]

/-- **Words of 64 bits are large enough**: a text in memory is grouped the same on them. -/
theorem groupWords_eq_groupChars {cs : List Char} (hlength : cs.length < textLimit) (separator : Char)
    (size : UInt64) (fromRight : Bool) :
    groupWords separator size fromRight cs = groupChars separator size.toNat fromRight cs := by
  have hword : ∀ {n : Nat}, n ≤ cs.length → (UInt64.ofNat n).toNat = n := fun h =>
    UInt64.toNat_ofNat_of_lt' (h.trans_lt (hlength.trans (by decide)))
  have hshort : (size = 0 ∨ UInt64.ofNat cs.length ≤ size) ↔
      (size.toNat = 0 ∨ cs.length ≤ size.toNat) := by
    rw [← UInt64.toNat_inj, UInt64.le_iff_toNat_le, hword le_rfl, UInt64.toNat_zero]
  simp only [groupWords, groupChars, hshort]
  split
  next => rfl
  next hlong =>
    obtain ⟨hzero, hsize⟩ := not_or.1 hlong
    obtain ⟨offset, hoffset⟩ : ∃ offset : UInt64,
        offset = if fromRight then UInt64.ofNat cs.length % size else 0 := ⟨_, rfl⟩
    have hoffset' : offset.toNat = if fromRight then cs.length % size.toNat else 0 := by
      rw [hoffset]
      split
      · rw [UInt64.toNat_mod, hword le_rfl]
      · rfl
    have hlt : offset.toNat < size.toNat := by
      rw [hoffset']
      split
      · exact Nat.mod_lt _ (Nat.pos_of_ne_zero hzero)
      · exact Nat.pos_of_ne_zero hzero
    rw [← hoffset, ← hoffset']
    refine List.flatMap_congr fun p hmem => ?_
    obtain ⟨c, i⟩ := p
    have hi : i < cs.length := (List.getElem?_eq_some_iff.1 (List.mem_zipIdx_iff_getElem?.1 hmem)).1
    have hstarts := startsGroupWord_eq (i := .ofNat i) hlength (Nat.not_le.1 hsize) hlt
      (by rwa [hword hi.le])
    rw [hword hi.le] at hstarts
    simp only [hstarts]

end Text

/-! ## 5. Plain text

Well-formed parts make plain text, and reading it gives these parts.  The parts are then grouped one
by one, and what comes out is described with the groups as witnesses. -/

namespace Plain

theorem wellFormed_of_ofChars? {cs : List Char} {p : Plain} (h : ofChars? cs = some p) :
    p.WellFormed := by
  simp only [ofChars?] at h
  split at h
  next => cases h
  next hempty =>
    split at h
    next hdigits =>
      rw [Bool.and_eq_true, List.all_eq_true, List.all_eq_true] at hdigits
      obtain rfl := Option.some.inj h
      exact ⟨by simpa using (not_or.1 hempty).2, hdigits.1, hdigits.2⟩
    next => cases h

/-- **What plain text is**: the text of well-formed parts.  The parts are determined by the text. -/
theorem ofChars?_eq_some_iff {cs : List Char} {p : Plain} :
    ofChars? cs = some p ↔ p.WellFormed ∧ p.toChars = cs := by
  constructor
  · exact fun h => ⟨wellFormed_of_ofChars? h, toChars_of_ofChars? h⟩
  · rintro ⟨hformed, rfl⟩
    exact hformed.ofChars?_toChars

/-- The parts with separators between groups: the whole part counted off from the right, and the fraction, if
it is grouped at all, from the point. -/
structure GroupedAs (p : Plain) (separator : Char) (size : Nat) (groupFraction : Bool)
    (grouped : List Char) (integer fraction : List (List Char)) : Prop where
  integer_flatten : integer.flatten = p.integer
  fraction_flatten : fraction.flatten = p.fraction
  toChars_eq : grouped = signChars p.negative ++
    ([separator].intercalate integer ++ pointChars ([separator].intercalate fraction))
  integer_countedOff : 0 < size → Text.CountedOff size integer.reverse
  fraction_countedOff : 0 < size → groupFraction = true → Text.CountedOff size fraction
  fraction_whole : groupFraction = false → fraction = [p.fraction]
  whole : size = 0 → integer = [p.integer] ∧ fraction = [p.fraction]

/-- Groups of size zero are none, and every part stays as it is. -/
theorem group_zero (p : Plain) (separator : Char) (groupFraction : Bool) :
    p.group separator 0 groupFraction = p := by
  cases groupFraction <;> simp [group]

/-- **Grouping makes the groups** that it should. -/
theorem exists_groupedAs (p : Plain) (separator : Char) (size : Nat) (groupFraction : Bool) :
    ∃ integer fraction, p.GroupedAs separator size groupFraction
      (p.group separator size groupFraction).toChars integer fraction := by
  rcases Nat.eq_zero_or_pos size with rfl | hsize
  · refine ⟨[p.integer], [p.fraction], by simp, by simp, ?_, nofun, nofun, fun _ => rfl,
      fun _ => ⟨rfl, rfl⟩⟩
    rw [group_zero, Plain.toChars_eq, List.intercalate_singleton, List.intercalate_singleton]
  · obtain ⟨integer, hinteger, hflatten, hcounted⟩ :=
      @Text.exists_groups separator size hsize true p.integer
    obtain ⟨fraction, hfraction, hflatten', hcounted'⟩ :=
      @Text.exists_groups separator size hsize false p.fraction
    cases groupFraction with
    | true =>
      refine ⟨integer, fraction, hflatten, hflatten', ?_, fun _ => hcounted, fun _ _ => hcounted',
        nofun, fun h => absurd h hsize.ne'⟩
      rw [Plain.toChars_eq, group, ← hinteger, ← hfraction]
      rfl
    | false =>
      refine ⟨integer, [p.fraction], hflatten, by simp, ?_, fun _ => hcounted, nofun, fun _ => rfl,
        fun h => absurd h hsize.ne'⟩
      rw [Plain.toChars_eq, group, ← hinteger, List.intercalate_singleton]
      rfl

theorem length_le_length_toChars (p : Plain) {digits : List Char}
    (h : digits ∈ [p.integer, p.fraction]) : digits.length ≤ p.toChars.length := by
  have hpoint : p.fraction.length ≤ (pointChars p.fraction).length := by
    unfold pointChars
    split
    · next hnil => simp [List.isEmpty_iff.1 hnil]
    · simp
  rw [toChars_eq, List.length_append, List.length_append]
  simp only [List.mem_cons, List.not_mem_nil, or_false] at h
  rcases h with rfl | rfl <;> omega

end Plain

/-! ## 6. Grouping number texts

The theorem is stated for texts, with the parts and the groups as what there is to be found.  It
speaks of acceptance, of the shape of the result, of reading it back and of the arithmetic on the
way. -/

/-- Grouping succeeds on plain text only, and its result is the grouped parts. -/
theorem formatBy_eq_ok_iff {text out : String} {separator : Char} {size : Nat} {groupFraction : Bool} :
    formatBy text separator size groupFraction = .ok out ↔
      ∃ p : Plain, p.WellFormed ∧ p.toChars = text.toList ∧
        out = String.ofList (p.group separator size groupFraction).toChars := by
  simp only [← and_assoc, ← Plain.ofChars?_eq_some_iff]
  rw [formatBy]
  cases Plain.ofChars? text.toList with
  | none => simp
  | some p => simp [eq_comm]

/-- **Grouping is exact.**  A text is grouped exactly if it is plain, an optional minus sign, digits, and possibly
a point with more digits behind it.  Sign, point and digits stay as they are; between the digits of the whole part
separators stand so that all groups are full but the leftmost, which is not empty; the fraction is left alone or
falls into groups that are full but the last; and a size of zero puts no separators anywhere.  Without a separator
that is no part of a number, the text is there again.  And the positions of the separators are found on words of 64
bits, for any size, without a sum or a difference that leaves their range. -/
theorem grouping_is_exact (text : String) (separator : Char) (groupFraction : Bool) :
    (∀ size, (∃ out, formatBy text separator size groupFraction = .ok out) ↔
      ∃ p : Plain, p.WellFormed ∧ p.toChars = text.toList) ∧
    (∀ size out, formatBy text separator size groupFraction = .ok out →
      (∃ (p : Plain) (integer fraction : List (List Char)), p.WellFormed ∧ p.toChars = text.toList ∧
        p.GroupedAs separator size groupFraction out.toList integer fraction) ∧
      (size = 0 → out = text) ∧
      (Config.isNumberPart separator = false →
        clearSeparators out (String.singleton separator) = text)) ∧
    (text.length < Text.textLimit → ∀ p : Plain, p.toChars = text.toList →
      ∀ digits ∈ [p.integer, p.fraction], ∀ size : UInt64,
        (∀ fromRight, Text.groupWords separator size fromRight digits =
          Text.groupChars separator size.toNat fromRight digits) ∧
        (size.toNat < digits.length → ∀ offset i, offset < size.toNat → i < digits.length →
          offset ≤ i + size.toNat ∧ i + size.toNat < 2 ^ 64)) := by
  refine ⟨?_, ?_, ?_⟩
  · intro size
    constructor
    · rintro ⟨out, h⟩
      obtain ⟨p, hformed, htext, -⟩ := formatBy_eq_ok_iff.1 h
      exact ⟨p, hformed, htext⟩
    · rintro ⟨p, hformed, htext⟩
      exact ⟨_, formatBy_eq_ok_iff.2 ⟨p, hformed, htext, rfl⟩⟩
  · intro size out h
    obtain ⟨p, hformed, htext, rfl⟩ := formatBy_eq_ok_iff.1 h
    obtain ⟨integer, fraction, hgrouped⟩ := p.exists_groupedAs separator size groupFraction
    refine ⟨⟨p, integer, fraction, hformed, htext, ?_⟩, ?_, ?_⟩
    · rwa [String.toList_ofList]
    · rintro rfl
      rw [Plain.group_zero, htext, String.ofList_toList]
    · intro hseparator
      rw [clearSeparators, String.toList_singleton, String.toList_ofList, Text.erase_singleton,
        hformed.filter_group hseparator, htext, String.ofList_toList]
  · intro hlimit p htext digits hdigits size
    have hlength : digits.length < Text.textLimit := by
      have hle := p.length_le_length_toChars hdigits
      rw [htext, String.length_toList] at hle
      omega
    exact ⟨Text.groupWords_eq_groupChars hlength separator size,
      fun hsize offset i hoffset hi => Text.index_fits hlength hsize hoffset hi⟩

/-- Both parts are grouped from the point, `7` and `1` stand alone, and the position of the last digit of the whole
part is found within the range of words. -/
theorem grouping_is_exact_from_the_point :
    (∃ out, formatBy "-1234567.1234567" ',' 3 true = .ok out) ∧
    (∃ (p : Plain) (integer fraction : List (List Char)), p.WellFormed ∧
      p.toChars = "-1234567.1234567".toList ∧
      p.GroupedAs ',' 3 true "-1,234,567.123,456,7".toList integer fraction) ∧
    clearSeparators "-1,234,567.123,456,7" "," = "-1234567.1234567" ∧
    (∀ out, formatBy "-1234567.1234567" ',' 0 true = .ok out → out = "-1234567.1234567") ∧
    Text.groupWords ',' 3 true "1234567".toList = Text.groupChars ',' 3 true "1234567".toList ∧
    1 ≤ 6 + 3 ∧ 6 + 3 < 2 ^ 64 := by
  obtain ⟨hok, hgroups, hwords⟩ := grouping_is_exact "-1234567.1234567" ',' true
  obtain ⟨hgrouped, -, hclear⟩ := hgroups 3 "-1,234,567.123,456,7" (by decide +kernel)
  obtain ⟨heq, hfits⟩ := hwords (by decide +kernel) ⟨true, "1234567".toList, "1234567".toList⟩
    (by decide +kernel) "1234567".toList (by decide +kernel) 3
  have hdigits : ∀ c ∈ "1234567".toList, c.isDigit = true := List.all_eq_true.1 (by decide +kernel)
  exact ⟨(hok 3).2 ⟨⟨true, "1234567".toList, "1234567".toList⟩,
      ⟨by decide +kernel, hdigits, hdigits⟩, by decide +kernel⟩, hgrouped, hclear (by decide +kernel),
    fun out h => (hgroups 0 out h).2.1 rfl, heq true,
    hfits (by decide +kernel) 1 6 (by decide) (by decide +kernel)⟩

end DecimalCalc
