/-
# How deep texts and trees nest

Whether parentheses match is settled when the outermost text is read, although groups are read much
later and on their own: reading counts how many groups are open, and a group that is found closed
leaves a text in which nothing is closed too early, nothing is left open, and the deepest place is
one level less deep.  Every level that is read later is of that kind.  A tree nests deeper than its
text, since a negated group and a lifted run are groups, too, but each level of the text makes three
levels of the tree at most.

The depth of a text is counted on the text, as the largest excess of opened parentheses in any
beginning of it, and has nothing to do with how it is read.  Counting in one pass, with a limit, is
a third description, between the two: it reports the first thing that is wrong, as reading does, but
goes along the characters and not along the groups.  Reading is proved to find what this finds; from
there, that texts which match and are not too deep are read is a fact about counting.

The recursion into groups ends because their texts are shorter, and it could not be too deep for a
machine either, as the depth of texts goes down with every group and is limited at the start.  For
the tree, groups are counted along paths.

* `scan_eq_error_iff`: reading finds what counting in one pass finds;
* `exists_scan_iff`: texts are read whose parentheses match, up to the depth that is allowed;
* `textDepth_lt_of_mem_scan`: the text of a group is less deep than the text around it;
* `nestsWithin_of_buildLevel`: a tree nests at most three times as deep as its text, and once more;
* `parentheses_settled_by_outermost_text`: which texts are refused for their parentheses.
-/
import DecimalCalc.Proofs.Expression.Context
import DecimalCalc.Proofs.Expression.Spacing

namespace DecimalCalc
namespace Expression

variable {cap : Nat}

/-! ## 1. The depth of a text

Both the depth and the matching are conditions on the excess of every beginning of a text.  They
are taken apart character by character, with the number of groups that are open already as what
changes. -/

/-- The number of parentheses that are open at the deepest place.  For texts that do not match it
is a number too. -/
def textDepth (cs : List Char) : Nat := (cs.inits.map fun front => (excess front).toNat).foldr max 0

theorem foldr_max_le_iff {ns : List Nat} {n : Nat} : ns.foldr max 0 ≤ n ↔ ∀ m ∈ ns, m ≤ n := by
  induction ns with
  | nil => simp
  | cons m ns ih => rw [List.foldr_cons, Nat.max_le, ih, List.forall_mem_cons]

/-- A text is no deeper than a bound if none of its beginnings has more open groups. -/
theorem textDepth_le_iff {cs : List Char} {depth : Nat} :
    textDepth cs ≤ depth ↔ ∀ front, front <+: cs → excess front ≤ depth := by
  rw [textDepth, foldr_max_le_iff, List.forall_mem_map]
  simp only [List.mem_inits, Int.toNat_le]

theorem excess_le_textDepth {cs front : List Char} (h : front <+: cs) :
    excess front ≤ textDepth cs :=
  textDepth_le_iff.1 le_rfl front h

theorem excess_cons {c : Char} (hopening : c ≠ '(') (hclosing : c ≠ ')') (cs : List Char) :
    excess (c :: cs) = excess cs := by
  rw [excess, List.count_cons_of_ne hopening, List.count_cons_of_ne hclosing, excess]

/-- Behind `depth` groups that are open, nothing is closed that was not opened, and everything is closed in the
end. -/
structure Closes (depth : Nat) (cs : List Char) : Prop where
  nonneg : ∀ front, front <+: cs → 0 ≤ depth + excess front
  settled : depth + excess cs = 0

/-- With no group open in front, this is being balanced. -/
theorem closes_zero {cs : List Char} : Closes 0 cs ↔ Balanced cs := by
  constructor
  · rintro ⟨hnonneg, hsettled⟩
    exact ⟨fun front hfront => by simpa using hnonneg front hfront, by simpa using hsettled⟩
  · rintro ⟨hnonneg, hsettled⟩
    exact ⟨fun front hfront => by simpa using hnonneg front hfront, by simpa using hsettled⟩

theorem closes_nil {depth : Nat} : Closes depth [] ↔ depth = 0 := by
  constructor
  · intro h
    simpa [excess] using h.settled
  · rintro rfl
    exact closes_zero.2 (.of_no_parenthesis (List.forall_mem_nil _))

/-- What holds in front of a text, and behind each of its beginnings, goes on behind its first character. -/
theorem forall_prefix_cons {P : List Char → Prop} {c : Char} {cs : List Char} :
    (∀ front, front <+: c :: cs → P front) ↔ P [] ∧ ∀ front, front <+: cs → P (c :: front) := by
  simp only [List.prefix_cons_iff]
  constructor
  · exact fun h => ⟨h [] (.inl rfl), fun front hfront => h _ (.inr ⟨front, rfl, hfront⟩)⟩
  · rintro ⟨hnil, hcons⟩ _ (rfl | ⟨front, rfl, hfront⟩)
    · exact hnil
    · exact hcons front hfront

/-- A character opens or closes as many groups as it adds to the excess. -/
theorem closes_cons_iff {c : Char} {depth depth' : Nat} {cs : List Char}
    (h : ∀ cs, excess (c :: cs) = excess cs + depth' - depth) :
    Closes depth (c :: cs) ↔ Closes depth' cs := by
  have hnil : excess [] = 0 := rfl
  constructor
  · rintro ⟨hnonneg, hsettled⟩
    refine ⟨fun front hfront => ?_, ?_⟩
    · have := (forall_prefix_cons.1 hnonneg).2 front hfront
      rw [h] at this
      omega
    · rw [h] at hsettled
      omega
  · rintro ⟨hnonneg, hsettled⟩
    refine ⟨forall_prefix_cons.2 ⟨?_, fun front hfront => ?_⟩, ?_⟩
    · omega
    · have := hnonneg front hfront
      rw [h]
      omega
    · rw [h]
      omega

/-- An opening parenthesis adds to the groups that are open. -/
theorem closes_opening {depth : Nat} {cs : List Char} :
    Closes depth ('(' :: cs) ↔ Closes (depth + 1) cs :=
  closes_cons_iff fun cs => by rw [excess_opening]; omega

/-- A closing one takes away, if there is something to close. -/
theorem closes_closing {depth : Nat} {cs : List Char} :
    Closes (depth + 1) (')' :: cs) ↔ Closes depth cs :=
  closes_cons_iff fun cs => by rw [excess_closing]; omega

theorem closes_cons {c : Char} (hopening : c ≠ '(') (hclosing : c ≠ ')') {depth : Nat}
    {cs : List Char} : Closes depth (c :: cs) ↔ Closes depth cs :=
  closes_cons_iff fun cs => by rw [excess_cons hopening hclosing]; omega

theorem not_closes_closing {cs : List Char} : ¬ Closes 0 (')' :: cs) := by
  intro h
  have hclosed := h.nonneg [')'] (List.prefix_append [')'] cs)
  exact absurd hclosed (by decide)

/-! ## 2. Counting in one pass

One number is enough to say what is wrong with parentheses.  The order in which things are found is
that of the characters, and reading agrees with it although it goes group by group, as it reads each
group to its end before it goes on. -/

/-- What is wrong with the parentheses of a text behind `depth` that are open, told from one
number.  Nothing is said about where. -/
def matchingFault : Nat → List Char → Option SyntaxError
  | 0, [] => none
  | _ + 1, [] => some .unclosedParenthesis
  | depth, '(' :: cs =>
    if maxNestingDepth < depth + 1 then some .nestingTooDeep else matchingFault (depth + 1) cs
  | 0, ')' :: _ => some .unmatchedClosingParenthesis
  | depth + 1, ')' :: cs => matchingFault depth cs
  | depth, _ :: cs => matchingFault depth cs

theorem matchingFault_cons {c : Char} (hopening : c ≠ '(') (hclosing : c ≠ ')') (depth : Nat)
    (cs : List Char) : matchingFault depth (c :: cs) = matchingFault depth cs := by
  rw [matchingFault]
  · exact hopening
  · exact fun _ => hclosing
  · exact fun _ _ => hclosing

theorem matchingFault_append {text : List Char} (h : ∀ c ∈ text, c ≠ '(' ∧ c ≠ ')') (depth : Nat)
    (cs : List Char) : matchingFault depth (text ++ cs) = matchingFault depth cs := by
  induction text with
  | nil => rfl
  | cons c text ih =>
    obtain ⟨hc, htext⟩ := List.forall_mem_cons.1 h
    rw [List.cons_append, matchingFault_cons hc.1 hc.2, ih htext]

/-- The group around the text is open, too, when the end of the group is looked for. -/
theorem matchingFault_of_closeGroup {depth : Nat} {cs : List Char} :
    (∀ e, closeGroup depth cs = .error e → matchingFault (depth + 1) cs = some e) ∧
    ∀ source rest, closeGroup depth cs = .ok (source, rest) →
      Closes depth source ∧ matchingFault (depth + 1) cs = matchingFault 0 rest := by
  fun_induction closeGroup depth cs with
  | case1 depth =>
    rw [matchingFault]
    exact ⟨fun e h => congrArg some (Except.error.inj h), by rintro _ _ ⟨⟩⟩
  | case2 depth cs hdeep =>
    rw [matchingFault, if_pos hdeep]
    exact ⟨fun e h => congrArg some (Except.error.inj h), by rintro _ _ ⟨⟩⟩
  | case3 depth cs hdeep ih =>
    rw [matchingFault, if_neg hdeep]
    refine ⟨fun e h => ih.1 e (error_of_map h), fun source rest h => ?_⟩
    obtain ⟨tail, htail, rfl⟩ := consSource_eq_ok_iff.1 h
    exact ⟨closes_opening.2 (ih.2 tail rest htail).1, (ih.2 tail rest htail).2⟩
  | case4 cs =>
    refine ⟨by rintro _ ⟨⟩, fun source rest h => ?_⟩
    obtain ⟨rfl, rfl⟩ := Prod.mk.inj (Except.ok.inj h)
    exact ⟨closes_nil.2 rfl, by rw [matchingFault]⟩
  | case5 cs depth ih =>
    rw [matchingFault]
    refine ⟨fun e h => ih.1 e (error_of_map h), fun source rest h => ?_⟩
    obtain ⟨tail, htail, rfl⟩ := consSource_eq_ok_iff.1 h
    exact ⟨closes_closing.2 (ih.2 tail rest htail).1, (ih.2 tail rest htail).2⟩
  | case6 depth c cs hopening hzero hsucc ih =>
    have hclosing : c ≠ ')' := by
      cases depth with
      | zero => exact hzero rfl
      | succ depth => exact hsucc depth rfl
    rw [matchingFault_cons hopening hclosing]
    refine ⟨fun e h => ih.1 e (error_of_map h), fun source rest h => ?_⟩
    obtain ⟨tail, htail, rfl⟩ := consSource_eq_ok_iff.1 h
    exact ⟨(closes_cons hopening hclosing).2 (ih.2 tail rest htail).1, (ih.2 tail rest htail).2⟩

/-- **Reading finds what counting in one pass finds**, and what is read as a group is balanced. -/
theorem matchingFault_of_scan {cs : List Char} :
    (∀ e, scan cs = .error e → matchingFault 0 cs = some e) ∧
    ∀ tokens, scan cs = .ok tokens → matchingFault 0 cs = none ∧
      ∀ source negated, .group source negated ∈ tokens → Balanced source := by
  fun_induction scan cs with
  | case1 =>
    refine ⟨by rintro _ ⟨⟩, fun tokens h => ⟨by rw [matchingFault], ?_⟩⟩
    obtain rfl := Except.ok.inj h
    rintro _ _ ⟨⟩
  | case2 cs e' hclose =>
    rw [matchingFault, if_neg (by decide), matchingFault_of_closeGroup.1 e' hclose]
    exact ⟨fun e h => congrArg some (Except.error.inj h), by rintro _ ⟨⟩⟩
  | case3 cs source rest hclose ih =>
    obtain ⟨hsource, hrest⟩ := matchingFault_of_closeGroup.2 source rest hclose
    rw [matchingFault, if_neg (by decide), hrest]
    refine ⟨fun e h => ih.1 e (error_of_map h), fun tokens h => ?_⟩
    obtain ⟨tail, htail, rfl⟩ := ok_of_map h
    refine ⟨(ih.2 tail htail).1, forall_group_cons ?_ (ih.2 tail htail).2⟩
    rintro _ _ ⟨⟩
    exact closes_zero.1 hsource
  | case4 cs =>
    rw [matchingFault]
    exact ⟨fun e h => congrArg some (Except.error.inj h), by rintro _ ⟨⟩⟩
  | case5 c cs hopening hclosing op hop ih =>
    rw [matchingFault_cons hopening hclosing]
    refine ⟨fun e h => ih.1 e (error_of_map h), fun tokens h => ?_⟩
    obtain ⟨tail, htail, rfl⟩ := ok_of_map h
    exact ⟨(ih.2 tail htail).1, forall_group_cons (by rintro _ _ ⟨⟩) (ih.2 tail htail).2⟩
  | case6 c cs hopening hclosing hop ih =>
    have hliteral : matchingFault 0 cs = matchingFault 0 (cs.dropWhile continuesLiteral) :=
      (congrArg (matchingFault 0) List.takeWhile_append_dropWhile.symm).trans
        (matchingFault_append no_parenthesis_of_mem_takeWhile 0 _)
    rw [matchingFault_cons hopening hclosing, hliteral]
    refine ⟨fun e h => ih.1 e (error_of_map h), fun tokens h => ?_⟩
    obtain ⟨tail, htail, rfl⟩ := ok_of_map h
    exact ⟨(ih.2 tail htail).1, forall_group_cons (by rintro _ _ ⟨⟩) (ih.2 tail htail).2⟩

/-- What reading fails with can be told without reading, from the parentheses alone.  No other
character makes it fail. -/
theorem scan_eq_error_iff {cs : List Char} {e : SyntaxError} :
    scan cs = .error e ↔ matchingFault 0 cs = some e := by
  refine ⟨matchingFault_of_scan.1 e, fun h => ?_⟩
  cases hscan : scan cs with
  | error e' =>
    have hfault := matchingFault_of_scan.1 e' hscan
    rw [h] at hfault
    rw [Option.some.inj hfault]
  | ok tokens =>
    have hfault := (matchingFault_of_scan.2 tokens hscan).1
    rw [h] at hfault
    cases hfault

/-- Behind `depth` groups that are open, no more groups are opened than are allowed. -/
def StaysFlat (depth : Nat) (cs : List Char) : Prop :=
  ∀ front, front <+: cs → depth + excess front ≤ maxNestingDepth

/-- With no group open in front, the depth of the text is within the limit. -/
theorem staysFlat_zero {cs : List Char} : StaysFlat 0 cs ↔ textDepth cs ≤ maxNestingDepth := by
  simp only [StaysFlat, textDepth_le_iff, Nat.cast_zero, zero_add]

theorem staysFlat_nil {depth : Nat} : StaysFlat depth [] ↔ depth ≤ maxNestingDepth := by
  simp [StaysFlat, excess]

/-- One character further: it changes the number of open groups, and that number is within the
limit already. -/
theorem staysFlat_cons_iff {c : Char} {depth depth' : Nat} {cs : List Char}
    (h : ∀ cs, excess (c :: cs) = excess cs + depth' - depth) (hdepth : depth ≤ maxNestingDepth) :
    StaysFlat depth (c :: cs) ↔ StaysFlat depth' cs := by
  have hnil : excess [] = 0 := rfl
  rw [StaysFlat, forall_prefix_cons]
  constructor
  · rintro ⟨-, hcons⟩ front hfront
    have := hcons front hfront
    rw [h] at this
    omega
  · intro hcs
    refine ⟨by omega, fun front hfront => ?_⟩
    have := hcs front hfront
    rw [h]
    omega

theorem staysFlat_opening {depth : Nat} {cs : List Char} (hdepth : depth ≤ maxNestingDepth) :
    StaysFlat depth ('(' :: cs) ↔ StaysFlat (depth + 1) cs :=
  staysFlat_cons_iff (fun cs => by rw [excess_opening]; omega) hdepth

theorem staysFlat_closing {depth : Nat} {cs : List Char} (hdepth : depth + 1 ≤ maxNestingDepth) :
    StaysFlat (depth + 1) (')' :: cs) ↔ StaysFlat depth cs :=
  staysFlat_cons_iff (fun cs => by rw [excess_closing]; omega) hdepth

theorem staysFlat_cons {c : Char} (hopening : c ≠ '(') (hclosing : c ≠ ')') {depth : Nat}
    {cs : List Char} (hdepth : depth ≤ maxNestingDepth) :
    StaysFlat depth (c :: cs) ↔ StaysFlat depth cs :=
  staysFlat_cons_iff (fun cs => by rw [excess_cons hopening hclosing]; omega) hdepth

/-- **The only thing that can be wrong with parentheses that match** is their depth. -/
theorem Closes.matchingFault_cases {depth : Nat} {cs : List Char} (h : Closes depth cs)
    (hdepth : depth ≤ maxNestingDepth) :
    (matchingFault depth cs = none ∧ StaysFlat depth cs) ∨
      (matchingFault depth cs = some .nestingTooDeep ∧ ¬ StaysFlat depth cs) := by
  fun_induction matchingFault depth cs with
  | case1 => exact .inl ⟨rfl, staysFlat_nil.2 hdepth⟩
  | case2 depth => exact absurd (closes_nil.1 h) (Nat.succ_ne_zero depth)
  | case3 depth cs hdeep =>
    refine .inr ⟨rfl, fun hflat => ?_⟩
    have hopened := hflat ['('] (List.prefix_append ['('] cs)
    rw [excess_opening, show excess [] = 0 from rfl] at hopened
    omega
  | case4 depth cs hdeep ih =>
    rw [staysFlat_opening hdepth]
    exact ih (closes_opening.1 h) (Nat.not_lt.1 hdeep)
  | case5 => exact absurd h not_closes_closing
  | case6 depth cs ih =>
    rw [staysFlat_closing hdepth]
    exact ih (closes_closing.1 h) (Nat.le_of_succ_le hdepth)
  | case7 depth c cs hopening hzero hsucc ih =>
    have hclosing : c ≠ ')' := by
      cases depth with
      | zero => exact hzero rfl
      | succ depth => exact hsucc depth rfl
    rw [staysFlat_cons hopening hclosing hdepth]
    exact ih ((closes_cons hopening hclosing).1 h) hdepth

/-! ## 3. Reading a balanced text

A text that is read is put together from the texts of its tokens, and these are balanced.  So the
text is, and its groups are less deep, since each stands between parentheses. -/

/-- The text of a token is balanced if that of a group is. -/
theorem Token.IsRead.balanced {token : Token} (h : token.IsRead)
    (hgroup : ∀ source negated, token = .group source negated → Balanced source) :
    Balanced token.toChars := by
  cases token with
  | literal text =>
    exact .of_no_parenthesis fun c hc =>
      have hc := continuesLiteral_iff.1 (h.2 c hc)
      ⟨hc.1, hc.2.1⟩
  | operator op =>
    exact .of_no_parenthesis (List.forall_mem_singleton.2 (by cases op <;> decide))
  | group source negated => exact (hgroup source negated rfl).group

theorem balanced_flatMap {tokens : List Token} (h : ∀ token ∈ tokens, Balanced token.toChars) :
    Balanced (tokens.flatMap Token.toChars) := by
  induction tokens with
  | nil => exact .of_no_parenthesis (List.forall_mem_nil _)
  | cons token tokens ih =>
    obtain ⟨htoken, htokens⟩ := List.forall_mem_cons.1 h
    exact htoken.append (ih htokens)

/-- A text that is read is balanced, token by token. -/
theorem balanced_of_scan {cs : List Char} {tokens : List Token} (h : scan cs = .ok tokens) :
    Balanced cs ∧ ∀ token ∈ tokens, Balanced token.toChars := by
  obtain ⟨htext, hread⟩ := flatMap_toChars_of_scan h
  have htokens : ∀ token ∈ tokens, Balanced token.toChars := fun token hmem =>
    (hread token hmem).balanced fun source negated htoken =>
      (matchingFault_of_scan.2 tokens h).2 source negated (htoken ▸ hmem)
  exact ⟨htext ▸ balanced_flatMap htokens, htokens⟩

/-- **Texts are read whose parentheses match**, up to the depth that is allowed. -/
theorem exists_scan_iff {cs : List Char} :
    (∃ tokens, scan cs = .ok tokens) ↔ Balanced cs ∧ textDepth cs ≤ maxNestingDepth := by
  rw [← staysFlat_zero]
  constructor
  · rintro ⟨tokens, hscan⟩
    have hbalanced := (balanced_of_scan hscan).1
    refine ⟨hbalanced, ?_⟩
    rcases (closes_zero.2 hbalanced).matchingFault_cases (Nat.zero_le _) with ⟨-, hflat⟩ | ⟨hfault, -⟩
    · exact hflat
    · rw [(matchingFault_of_scan.2 tokens hscan).1] at hfault
      cases hfault
  · rintro ⟨hbalanced, hflat⟩
    rcases (closes_zero.2 hbalanced).matchingFault_cases (Nat.zero_le _) with ⟨hfault, -⟩ | ⟨-, hdeep⟩
    · cases hscan : scan cs with
      | error e =>
        rw [scan_eq_error_iff, hfault] at hscan
        cases hscan
      | ok tokens => exact ⟨tokens, rfl⟩
    · exact absurd hflat hdeep

/-- **Where the parentheses match**, reading fails for their depth only. -/
theorem Balanced.scan_eq_nestingTooDeep_iff {cs : List Char} (h : Balanced cs) :
    scan cs = .error .nestingTooDeep ↔ maxNestingDepth < textDepth cs := by
  rw [scan_eq_error_iff, ← Nat.not_le, ← staysFlat_zero]
  rcases (closes_zero.2 h).matchingFault_cases (Nat.zero_le _) with ⟨hfault, hflat⟩ | ⟨hfault, hdeep⟩
  · rw [hfault]
    exact iff_of_false nofun (not_not_intro hflat)
  · exact iff_of_true hfault hdeep

/-- **The text of a group** is less deep than the text around it. -/
theorem textDepth_lt_of_mem_scan {cs : List Char} {tokens : List Token} (h : scan cs = .ok tokens)
    {source : List Char} {negated : Bool} (hmem : .group source negated ∈ tokens) :
    textDepth source < textDepth cs := by
  obtain ⟨before, behind, rfl⟩ := List.append_of_mem hmem
  have hbefore := balanced_flatMap fun token htoken =>
    (balanced_of_scan h).2 token (List.mem_append_left _ htoken)
  -- in the text around it, each beginning of the group stands behind one more parenthesis
  have hfront : ∀ front, front <+: source → excess front + 1 ≤ textDepth cs := by
    intro front hfront
    have hprefix : before.flatMap Token.toChars ++ '(' :: front <+: cs := by
      rw [← (flatMap_toChars_of_scan h).1, List.flatMap_append, List.flatMap_cons]
      refine (List.prefix_append_right_inj _).2 (List.cons_prefix_cons.2 ⟨rfl, ?_⟩)
      exact hfront.trans ⟨_, (List.append_assoc source [')'] _).symm⟩
    have hle := excess_le_textDepth hprefix
    rw [excess_append, excess_opening, hbefore.settled] at hle
    omega
  have hnil := hfront [] List.nil_prefix
  have hle : textDepth source ≤ textDepth cs - 1 := textDepth_le_iff.2 fun front h => by
    have := hfront front h
    omega
  rw [show excess [] = 0 from rfl] at hnil
  omega

/-! ## 4. Levels of a text

What holds of the groups of a text holds of the groups in these, and so of every level.  An error
about parentheses can then only come from the outermost text, as every other level has been settled
by it. -/

/-- **Every level of a text that is read** is balanced, not deeper than the text, and read as well. -/
theorem LevelOf.isRead {cs level : List Char} (h : LevelOf cs level) {tokens : List Token}
    (hscan : scan cs = .ok tokens) : Balanced level ∧ textDepth level ≤ textDepth cs ∧
      ∃ inner, scan level = .ok inner := by
  induction h with
  | whole => exact ⟨(balanced_of_scan hscan).1, le_rfl, tokens, hscan⟩
  | inside hlevel hread hmem ih =>
    have hbalanced := (matchingFault_of_scan.2 _ hread).2 _ _ hmem
    have hdepth := (textDepth_lt_of_mem_scan hread hmem).le.trans ih.2.1
    have hallowed := (exists_scan_iff.1 ⟨tokens, hscan⟩).2
    exact ⟨hbalanced, hdepth, exists_scan_iff.2 ⟨hbalanced, hdepth.trans hallowed⟩⟩

/-- Errors about parentheses are not about the places of operators, and by the next lemma they are
not those of the gate.  So they come from reading. -/
theorem not_mem_placeCauses {cause : SyntaxError} (h : cause ∈ matchingCauses) :
    cause ∉ .missingOperator :: placeCauses := by
  simp only [matchingCauses, List.mem_cons, List.not_mem_nil, or_false] at h
  rcases h with rfl | rfl | rfl <;> decide

theorem not_mem_gateCauses {cause : SyntaxError} (h : cause ∈ matchingCauses) :
    cause ∉ gateCauses := by
  simp only [matchingCauses, List.mem_cons, List.not_mem_nil, or_false] at h
  rcases h with rfl | rfl | rfl <;> decide

/-- **Parentheses that do not match are reported for the outermost text**, or not at all. -/
theorem buildLevel_eq_error_iff {cs : List Char} {cause : SyntaxError}
    (hcause : cause ∈ matchingCauses) : buildLevel cs = .error cause ↔ scan cs = .error cause := by
  have hread : ∀ {e}, scan cs = .error e → buildLevel cs = .error e := by
    intro e hscan
    rw [buildLevel_eq, levelTokens, hscan]
    rfl
  refine ⟨fun h => ?_, hread⟩
  cases hscan : scan cs with
  | error e =>
    rw [hread hscan] at h
    exact congrArg _ (Except.error.inj h)
  | ok tokens =>
    obtain ⟨level, hlevel, hfault⟩ := exists_levelOf_of_buildLevel h
    rcases levelTokens_error hfault with hfault | hplace
    · obtain ⟨-, -, inner, hinner⟩ := hlevel.isRead hscan
      rw [hinner] at hfault
      cases hfault
    · exact absurd (List.mem_cons_of_mem _ hplace) (not_mem_placeCauses hcause)

/-- The same for expressions, where the gate has to let the text through first. -/
theorem ofTrimmed_eq_error_iff {cs : List Char} {cause : SyntaxError}
    (hcause : cause ∈ matchingCauses) :
    Tree.ofTrimmed cs = .error cause ↔ gate cs = .ok () ∧ scan cs = .error cause := by
  rw [← buildLevel_eq_error_iff hcause]
  constructor
  · intro h
    rcases error_of_bind h with hgate | ⟨_, hgate, h⟩
    · exact absurd (mem_gateCauses hgate) (not_mem_gateCauses hcause)
    rcases error_of_bind h with hbuild | ⟨level, -, h⟩
    · exact ⟨hgate, hbuild⟩
    · cases h
  · rintro ⟨hgate, hbuild⟩
    rw [Tree.ofTrimmed, hgate, hbuild]
    rfl

/-- The evaluation adds nothing to what reading reports about parentheses. -/
theorem evaluate_eq_error_iff {expression : String} {cause : SyntaxError}
    (hcause : cause ∈ matchingCauses) : evaluate cap expression = .error (.malformed cause) ↔
      Tree.ofTrimmed (Text.trim expression.toList) = .error cause := by
  constructor
  · intro h
    rcases evaluate_malformed h with hread | ⟨tree, -, hfault⟩
    · exact hread
    · exact absurd (levelFault_mem _ _ hfault) (not_mem_placeCauses hcause)
  · intro h
    rw [evaluate, run, h]
    rfl

/-! ## 5. The depth of a tree

Depth in a tree is the length of a path.  Each group of the text may add three to it, one for
itself, one for a product with minus one, and one for a run around that. -/

/-- No more than `depth` groups are entered on any path.  Groups that lifting has made count as
well. -/
def NestsWithin (depth : Nat) (level : List Node) : Prop :=
  ∀ path inner, levelAt? level path = some inner → path.length ≤ depth

/-- A level nests one deeper than the groups in it. -/
theorem nestsWithin_of_groups {depth : Nat} {level : List Node}
    (h : ∀ inner, .group inner ∈ level → ∃ n < depth, NestsWithin n inner) :
    NestsWithin depth level := by
  intro path found hfound
  cases path with
  | nil => exact Nat.zero_le _
  | cons k path =>
    obtain ⟨inner, hmem, hfound⟩ := exists_of_levelAt?_cons hfound
    obtain ⟨n, hn, hinner⟩ := h inner hmem
    exact Nat.lt_of_le_of_lt (hinner path found hfound) hn

/-- A product with minus one nests one deeper than the group that it is made of. -/
theorem NestsWithin.minusTimes {depth : Nat} {level : List Node} (h : NestsWithin depth level) :
    NestsWithin (depth + 1) (minusTimes level) :=
  nestsWithin_of_groups fun _ hinner =>
    ⟨depth, Nat.lt_succ_self _, group_mem_minusTimes.1 hinner ▸ h⟩

/-- **A tree nests at most three times as deep as its text, and once more**: each group of the text stands in a
product with minus one at most, and that in one run at most; and there may be a run in the innermost group. -/
theorem nestsWithin_of_buildLevel {cs : List Char} {level : List Node}
    (h : buildLevel cs = .ok level) : NestsWithin (3 * textDepth cs + 1) level := by
  induction hlength : cs.length using Nat.strong_induction_on generalizing cs level with
  | _ n ih =>
  obtain ⟨folded, nodes, htokens, hnodes, rfl⟩ := exists_of_buildLevel h
  obtain ⟨tokens, hscan, hfold⟩ := ok_of_bind htokens
  have hgroups : ∀ inner, .group inner ∈ nodes → ∃ n < 3 * textDepth cs, NestsWithin n inner := by
    intro inner hinner
    obtain ⟨source, negated, built, hmem, hbuilt, hcase⟩ := exists_of_group_mem_nodes hnodes hinner
    obtain ⟨_, hread⟩ := mem_of_mem_foldSigns hfold hmem
    have hlt := textDepth_lt_of_mem_scan hscan hread
    have hsource := ih source.length (hlength ▸ length_lt_of_mem_scan hscan hread) hbuilt rfl
    rcases hcase with rfl | rfl
    · exact ⟨_, by omega, hsource⟩
    · exact ⟨_, by omega, hsource.minusTimes⟩
  refine nestsWithin_of_groups fun inner hinner => ?_
  rcases mem_liftRuns hinner with hinner | ⟨run, hrun, hinner⟩
  · obtain ⟨n, hn, hnests⟩ := hgroups inner hinner
    exact ⟨n, by omega, hnests⟩
  · obtain rfl := Node.group.inj hinner
    exact ⟨_, Nat.lt_succ_self _, nestsWithin_of_groups fun group hgroup =>
      hgroups group (mem_of_mem_levelRuns hrun hgroup)⟩

-- a run, a product with minus one, the group itself and a run in it
example : ((buildLevel "1+2*-(3+4*5)".toList).toOption.bind fun level =>
    levelAt? level [2, 2, 2, 2]).isSome = true := by decide +kernel

/-! ## 6. The outermost text

The results are put together for expressions and for trees.  That building ends is stated as a
relation between texts being well-founded, together with the equation that building satisfies. -/

/-- A group is built from a shorter text than the level around it. -/
theorem wellFounded_groups : WellFounded fun source cs : List Char =>
    ∃ tokens negated, levelTokens cs = .ok tokens ∧ .group source negated ∈ tokens := by
  refine Subrelation.wf ?_ (measure List.length).wf
  rintro source cs ⟨tokens, negated, htokens, hmem⟩
  exact length_lt_of_mem_levelTokens htokens hmem

/-- **Parentheses are settled by the outermost text.**  Building goes from a text to those of its groups, which
cannot go on forever.  Once a text is read, every level inside it is read, too, and its groups are balanced,
shorter and less deep than the level they stand in.  Parentheses that do not match, or nest too deeply, are
reported for the outermost text only; where they match, the text is refused for them exactly if it is more than 256
levels deep.  And no path in a tree enters more than `3 * 256 + 1` groups. -/
theorem parentheses_settled_by_outermost_text :
    ((WellFounded fun source cs : List Char =>
        ∃ tokens negated, levelTokens cs = .ok tokens ∧ .group source negated ∈ tokens) ∧
      ∀ cs, buildLevel cs = (do
        let tokens ← levelTokens cs
        let nodes ← tokens.mapM (nodeOfToken buildLevel)
        return liftRuns nodes)) ∧
    (∀ cs tokens, scan cs = .ok tokens → ∀ level, LevelOf cs level →
      ∃ inner, scan level = .ok inner ∧ ∀ source negated, .group source negated ∈ inner →
        Balanced source ∧ source.length < level.length ∧ textDepth source < textDepth level) ∧
    (∀ (expression : String) (cs : List Char), cs = Text.trim expression.toList →
      (∀ cause ∈ matchingCauses,
        (Tree.ofChars expression.toList = .error cause ↔ gate cs = .ok () ∧ scan cs = .error cause) ∧
        ∀ cap, evaluate cap expression = .error (.malformed cause) ↔
          gate cs = .ok () ∧ scan cs = .error cause) ∧
      (gate cs = .ok () → Balanced cs →
        (Tree.ofChars expression.toList = .error .nestingTooDeep ↔ 256 < textDepth cs) ∧
        ∀ cap, evaluate cap expression = .error (.malformed .nestingTooDeep) ↔
          256 < textDepth cs)) ∧
    ∀ cs tree, Tree.ofChars cs = .ok tree → ∀ path level, levelAt? tree.level path = some level →
      path.length ≤ 3 * 256 + 1 := by
  refine ⟨⟨wellFounded_groups, buildLevel_eq⟩, ?_, ?_, ?_⟩
  · intro cs tokens hscan level hlevel
    obtain ⟨-, -, inner, hinner⟩ := hlevel.isRead hscan
    refine ⟨inner, hinner, fun source negated hmem => ?_⟩
    exact ⟨(matchingFault_of_scan.2 inner hinner).2 source negated hmem,
      length_lt_of_mem_scan hinner hmem, textDepth_lt_of_mem_scan hinner hmem⟩
  · rintro expression cs rfl
    have hread : ∀ cause ∈ matchingCauses, ∀ cap,
        evaluate cap expression = .error (.malformed cause) ↔
          gate (Text.trim expression.toList) = .ok () ∧
            scan (Text.trim expression.toList) = .error cause := fun cause hcause cap =>
      (evaluate_eq_error_iff hcause).trans (ofTrimmed_eq_error_iff hcause)
    refine ⟨fun cause hcause => ⟨ofTrimmed_eq_error_iff hcause, hread cause hcause⟩,
      fun hgate hbalanced => ?_⟩
    have hdeep : SyntaxError.nestingTooDeep ∈ matchingCauses := by decide
    have hdepth := (and_iff_right hgate).trans hbalanced.scan_eq_nestingTooDeep_iff
    exact ⟨(ofTrimmed_eq_error_iff hdeep).trans hdepth, fun cap => (hread _ hdeep cap).trans hdepth⟩
  · intro cs tree htree path level hlevel
    obtain ⟨-, hbuild⟩ := exists_of_ofTrimmed htree
    obtain ⟨folded, -, htokens, -⟩ := exists_of_buildLevel hbuild
    obtain ⟨tokens, hscan, -⟩ := ok_of_bind htokens
    have hdepth : textDepth (Text.trim cs) ≤ 256 := (exists_scan_iff.1 ⟨tokens, hscan⟩).2
    have hlength := nestsWithin_of_buildLevel hbuild path level hlevel
    omega

/-- A sum whose second operand stands in `n` pairs of parentheses. -/
def parenthesized (n : Nat) : List Char :=
  '1' :: '+' :: (List.replicate n '(' ++ '1' :: List.replicate n ')')

theorem balanced_parenthesized (n : Nat) : Balanced (parenthesized n) := by
  have hfront : Balanced ['1', '+'] := .of_no_parenthesis (by simp)
  have hinside : Balanced (List.replicate n '(' ++ '1' :: List.replicate n ')') := by
    induction n with
    | zero => exact .of_no_parenthesis (by simp)
    | succ n ih =>
      have htext : List.replicate (n + 1) '(' ++ '1' :: List.replicate (n + 1) ')' =
          '(' :: ((List.replicate n '(' ++ '1' :: List.replicate n ')') ++ [')']) := by
        rw [List.replicate_succ, List.replicate_succ']
        simp
      rw [htext]
      exact ih.group
  exact hfront.append hinside

/-- The text nests as deep as it has pairs of parentheses: the prefix up to the last opening one
has all of them open. -/
theorem le_textDepth_parenthesized (n : Nat) : n ≤ textDepth (parenthesized n) := by
  have hexcess : excess ('1' :: '+' :: List.replicate n '(') = n := by
    simp [excess, List.count_replicate]
  have hprefix : '1' :: '+' :: List.replicate n '(' <+: parenthesized n :=
    ⟨'1' :: List.replicate n ')', by simp [parenthesized]⟩
  exact_mod_cast hexcess ▸ excess_le_textDepth hprefix

theorem parentheses_settled_by_outermost_text_too_deep :
    (gate (parenthesized 257) = .ok () ∧ Balanced (parenthesized 257) ∧
      evaluate 15 (String.ofList (parenthesized 257)) = .error (.malformed .nestingTooDeep)) ∧
    (scan "2*-(3-(4))".toList = .ok
        [.literal ['2'], .operator .multiply, .operator .subtract, .group "3-(4)".toList false] ∧
      Balanced "3-(4)".toList ∧ textDepth "3-(4)".toList < textDepth "2*-(3-(4))".toList) ∧
    (evaluate 15 "1+(2*3" = .error (.malformed .unclosedParenthesis) ∧
      scan "1+(2*3".toList = .error .unclosedParenthesis) ∧
    ∃ tree level, Tree.ofChars "1+2*-(3+4*5)".toList = .ok tree ∧
      levelAt? tree.level [2, 2, 2, 2] = some level ∧ [2, 2, 2, 2].length ≤ 3 * 256 + 1 := by
  obtain ⟨-, hlevels, hreported, hnests⟩ := parentheses_settled_by_outermost_text
  refine ⟨?_, ?_, ?_, ?_⟩
  · have hgate : gate (parenthesized 257) = .ok () := by decide +kernel
    have hbalanced := balanced_parenthesized 257
    have htrim : parenthesized 257 = Text.trim (String.ofList (parenthesized 257)).toList := by
      rw [String.toList_ofList]
      decide +kernel
    exact ⟨hgate, hbalanced, (((hreported _ _ htrim).2 hgate hbalanced).2 15).2
      (le_textDepth_parenthesized 257)⟩
  · have hscan : scan "2*-(3-(4))".toList = .ok
        [.literal ['2'], .operator .multiply, .operator .subtract, .group "3-(4)".toList false] := by
      decide +kernel
    obtain ⟨inner, hinner, hgroups⟩ := hlevels _ _ hscan _ .whole
    rw [hscan] at hinner
    obtain rfl := Except.ok.inj hinner
    obtain ⟨hbalanced, -, hdepth⟩ := hgroups "3-(4)".toList false (by decide)
    exact ⟨hscan, hbalanced, hdepth⟩
  · have hresult : evaluate 15 "1+(2*3" = .error (.malformed .unclosedParenthesis) := by
      decide +kernel
    have htrim : "1+(2*3".toList = Text.trim "1+(2*3".toList := by decide +kernel
    exact ⟨hresult, ((((hreported _ _ htrim).1 _ (by decide)).2 15).1 hresult).2⟩
  · have hcomputed : ((Tree.ofChars "1+2*-(3+4*5)".toList).toOption.bind fun tree =>
        levelAt? tree.level [2, 2, 2, 2]).isSome = true := by decide +kernel
    obtain ⟨level, hlevel⟩ := Option.isSome_iff_exists.1 hcomputed
    obtain ⟨tree, htree, hlevel⟩ := Option.bind_eq_some_iff.1 hlevel
    have hread := toOption_eq_some_iff.1 htree
    exact ⟨tree, level, hread, hlevel, hnests _ tree hread _ level hlevel⟩

end Expression
end DecimalCalc
