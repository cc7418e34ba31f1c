/-
# Tokens of one nesting level

A level is read into literals, operators and groups; the text of a group is kept as it is and read
later, as a level of its own.  Afterwards signs are folded into the operands they belong to: a minus
at the start of a level, or behind an operator, is a sign.

A group's text is found by counting parentheses, without looking at what stands in it.  Each level
is therefore scanned in full before any group in it is opened, and so an error on a level is found
before the errors inside its groups.  Nesting is limited; the count of open groups is checked
wherever a parenthesis opens, so a text that is nested too deeply is refused before anything is
built from it.

Reading goes on by recursion into the groups, and that it ends rests on their sources being shorter
than the level they were cut from.  This is proved at the end, through scanning and folding.

* `closeGroup_eq`: the text after an opening parenthesis is the group's source, the parenthesis that
  closes it, and the rest;
* `length_lt_of_mem_scan`, `length_lt_of_mem_levelTokens`: a group's source is shorter than the
  level it stands in.
-/
import DecimalCalc.Expression.Error
import DecimalCalc.Expression.Operator

namespace DecimalCalc
namespace Expression

/-- How deep groups may be nested, the outermost one counted as the first. -/
def maxNestingDepth : Nat := 256

/-- One atom of a level.  Literals and groups are operands; which operand a minus belongs to has
been settled once signs are folded. -/
inductive Token where
  /-- The text of a number, with the minus sign that was folded into it. -/
  | literal (text : List Char)
  | operator (op : Operator)
  /-- The text between two matching parentheses, and whether a minus sign stands in front. -/
  | group (source : List Char) (negated : Bool)
deriving DecidableEq, Repr

/-- Whether a token is an operand rather than an operator. -/
def Token.isOperand : Token → Bool
  | .operator _ => false
  | _ => true

/-! ## 1. Reading a level

A literal ends only where a parenthesis or an operator begins, so characters that belong to no
number become part of a literal as well and are refused when the literal is read as a number. -/

/-- Puts one more character in front of a group's source.  A failure further on remains one. -/
def consSource (c : Char) (closed : Except SyntaxError (List Char × List Char)) :
    Except SyntaxError (List Char × List Char) :=
  closed.map fun (source, rest) => (c :: source, rest)

/-- Splits the text behind an opening parenthesis at the parenthesis that closes it: the source of
the group and the rest.  `depth` counts the groups still open inside, so at zero a closing
parenthesis is the one that was looked for. -/
def closeGroup : Nat → List Char → Except SyntaxError (List Char × List Char)
  | _, [] => .error .unclosedParenthesis
  | depth, '(' :: cs =>
    if maxNestingDepth < depth + 2 then .error .nestingTooDeep
    else consSource '(' (closeGroup (depth + 1) cs)
  | 0, ')' :: cs => .ok ([], cs)
  | depth + 1, ')' :: cs => consSource ')' (closeGroup depth cs)
  | depth, c :: cs => consSource c (closeGroup depth cs)

theorem consSource_eq_ok_iff {c : Char} {closed : Except SyntaxError (List Char × List Char)}
    {source rest : List Char} :
    consSource c closed = .ok (source, rest) ↔
      ∃ tail, closed = .ok (tail, rest) ∧ source = c :: tail := by
  cases closed with
  | error e => simp [consSource, Except.map]
  | ok p => obtain ⟨tail, rest'⟩ := p; simp [consSource, Except.map]; grind

/-- Nothing is lost in the split, so the source is shorter than the text it was cut from. -/
theorem closeGroup_eq {depth : Nat} {cs source rest : List Char}
    (h : closeGroup depth cs = .ok (source, rest)) : cs = source ++ ')' :: rest := by
  fun_induction closeGroup depth cs generalizing source with
  | case1 => cases h
  | case2 => cases h
  | case3 depth cs _ ih =>
    obtain ⟨tail, htail, rfl⟩ := consSource_eq_ok_iff.1 h
    rw [ih htail]; rfl
  | case4 cs =>
    obtain ⟨rfl, rfl⟩ := Prod.mk.inj (Except.ok.inj h)
    rfl
  | case5 cs depth ih =>
    obtain ⟨tail, htail, rfl⟩ := consSource_eq_ok_iff.1 h
    rw [ih htail]; rfl
  | case6 =>
    rename_i ih
    obtain ⟨tail, htail, rfl⟩ := consSource_eq_ok_iff.1 h
    rw [ih htail]; rfl

/-- A character that goes on with the literal it follows: anything but a parenthesis or an
operator. -/
def continuesLiteral (c : Char) : Bool := c != '(' && c != ')' && (Operator.ofChar? c).isNone

/-- Reads one level.  Each literal is as long as possible, and each group is passed over as a
whole. -/
def scan (cs : List Char) : Except SyntaxError (List Token) :=
  match cs with
  | [] => .ok []
  | c :: cs =>
    if c = '(' then
      match _closed : closeGroup 0 cs with
      | .error e => .error e
      | .ok (source, rest) => (scan rest).map (.group source false :: ·)
    else if c = ')' then .error .unmatchedClosingParenthesis
    else
      match Operator.ofChar? c with
      | some op => (scan cs).map (.operator op :: ·)
      | none =>
        (scan (cs.dropWhile continuesLiteral)).map
          (.literal (c :: cs.takeWhile continuesLiteral) :: ·)
termination_by cs.length
decreasing_by
  · have := congrArg List.length (closeGroup_eq _closed)
    simp only [List.length_append, List.length_cons] at this ⊢
    omega
  · simp
  · have := (List.dropWhile_sublist continuesLiteral (l := cs)).length_le
    simp only [List.length_cons]
    omega

/-! ## 2. Folding signs

A minus is a sign where an operand is due.  There may be several in a row, and a minus may be
followed by a plus that means nothing; what is left when they are settled is either a negated
operand or none.  A plus alone is no sign. -/

/-- Puts a minus sign in front of an operand.  A literal takes it into its text, and a group is
marked; two of them on a group cancel. -/
def Token.negate : Token → Except SyntaxError Token
  | .literal text => .ok (.literal ('-' :: text))
  | .group source negated => .ok (.group source (!negated))
  | .operator _ => .error .unexpectedOperator

/-- Folds signs into their operands.  Where no operand precedes, two minus signs cancel, a minus
and a plus make a minus, and a single minus negates what follows.  The flag says whether an operand
precedes. -/
def foldSigns : Bool → List Token → Except SyntaxError (List Token)
  | _, [] => .ok []
  | false, .operator .subtract :: .operator .subtract :: rest => foldSigns false rest
  | false, [.operator .subtract, .operator .add] => .error .missingOperand
  | false, .operator .subtract :: .operator .add :: operand :: rest => do
    let operand ← operand.negate
    return operand :: (← foldSigns true rest)
  | false, [.operator .subtract] => .error .missingOperand
  | false, .operator .subtract :: operand :: rest => do
    let operand ← operand.negate
    return operand :: (← foldSigns true rest)
  | _, token :: rest => do
    return token :: (← foldSigns token.isOperand rest)

/-- The tokens of a level, with the signs folded.  This is all that is known of a level before its
groups are read. -/
def levelTokens (cs : List Char) : Except SyntaxError (List Token) :=
  scan cs >>= foldSigns false

/-! ## 3. Groups are shorter than their level

Folding may negate a group but never makes one or changes its source, so it is enough to look at
what scanning cuts out.  The lemmas about folding turn its steps in the monad of errors around. -/

theorem length_lt_of_mem_scan {cs : List Char} {tokens : List Token} (h : scan cs = .ok tokens)
    {source : List Char} {negated : Bool} (hmem : .group source negated ∈ tokens) :
    source.length < cs.length := by
  fun_induction scan cs generalizing tokens with
  | case1 => cases h; cases hmem
  | case2 => simp_all
  | case3 cs source' rest hclose ih =>
    cases hscan : scan rest with
    | error e => simp [hscan, Except.map] at h
    | ok rest' =>
      rw [hscan] at h
      obtain rfl := Except.ok.inj h
      have hlen := congrArg List.length (closeGroup_eq hclose)
      simp only [List.length_append, List.length_cons] at hlen ⊢
      rcases List.mem_cons.1 hmem with hmem | hmem
      · obtain ⟨rfl, rfl⟩ := Token.group.inj hmem
        omega
      · have := ih hscan hmem
        omega
  | case4 => cases h
  | case5 c cs _ _ op _ ih =>
    cases hscan : scan cs with
    | error e => simp [hscan, Except.map] at h
    | ok rest' =>
      rw [hscan] at h
      obtain rfl := Except.ok.inj h
      rcases List.mem_cons.1 hmem with hmem | hmem
      · cases hmem
      · have := ih hscan hmem
        simp only [List.length_cons]
        omega
  | case6 c cs _ _ _ ih =>
    cases hscan : scan (cs.dropWhile continuesLiteral) with
    | error e => simp [hscan, Except.map] at h
    | ok rest' =>
      rw [hscan] at h
      obtain rfl := Except.ok.inj h
      rcases List.mem_cons.1 hmem with hmem | hmem
      · cases hmem
      · have := ih hscan hmem
        have := (List.dropWhile_sublist continuesLiteral (l := cs)).length_le
        simp only [List.length_cons]
        omega

theorem ok_of_cons {token : Token} {rest : Except SyntaxError (List Token)} {folded : List Token}
    (h : (do return token :: (← rest)) = Except.ok folded) :
    ∃ tail, rest = .ok tail ∧ folded = token :: tail := by
  cases rest with
  | error e => cases h
  | ok tail => exact ⟨tail, rfl, (Except.ok.inj h).symm⟩

theorem ok_of_negate {operand : Token} {rest : Except SyntaxError (List Token)}
    {folded : List Token}
    (h : (do let negated ← operand.negate; return negated :: (← rest)) = Except.ok folded) :
    ∃ negated tail, operand.negate = .ok negated ∧ rest = .ok tail ∧ folded = negated :: tail := by
  cases hneg : operand.negate with
  | error e => rw [hneg] at h; cases h
  | ok negated =>
    rw [hneg] at h
    obtain ⟨tail, hrest, rfl⟩ := ok_of_cons h
    exact ⟨negated, tail, rfl, hrest, rfl⟩

theorem exists_of_negate_eq_group {operand : Token} {source : List Char} {negated : Bool}
    (h : operand.negate = .ok (.group source negated)) : operand = .group source (!negated) := by
  cases operand with
  | literal text => cases h
  | operator op => cases h
  | group source' n =>
    obtain ⟨rfl, rfl⟩ := Token.group.inj (Except.ok.inj h)
    simp

/-- Folding signs makes no new group; at most the mark of a sign on it is another. -/
theorem mem_of_mem_foldSigns {after : Bool} {tokens folded : List Token}
    (h : foldSigns after tokens = .ok folded) {source : List Char} {negated : Bool}
    (hmem : .group source negated ∈ folded) : ∃ n, .group source n ∈ tokens := by
  fun_induction foldSigns after tokens generalizing folded with
  | case1 => cases h; cases hmem
  | case2 rest ih =>
    obtain ⟨n, hn⟩ := ih h hmem
    exact ⟨n, by simp [hn]⟩
  | case3 => cases h
  | case5 => cases h
  | case4 | case6 =>
    rename_i ih
    obtain ⟨_, tail, hneg, hrest, rfl⟩ := ok_of_negate h
    rcases List.mem_cons.1 hmem with rfl | hmem
    · exact ⟨!negated, by simp [exists_of_negate_eq_group hneg]⟩
    · obtain ⟨n, hn⟩ := ih hrest hmem
      exact ⟨n, by simp [hn]⟩
  | case7 =>
    rename_i ih
    obtain ⟨tail, hrest, rfl⟩ := ok_of_cons h
    rcases List.mem_cons.1 hmem with rfl | hmem
    · exact ⟨negated, by simp⟩
    · obtain ⟨n, hn⟩ := ih hrest hmem
      exact ⟨n, by simp [hn]⟩

/-- A group's source is shorter than the level it stands in, by its two parentheses at least.
Building a tree recurs along this. -/
theorem length_lt_of_mem_levelTokens {cs : List Char} {tokens : List Token}
    (h : levelTokens cs = .ok tokens) {source : List Char} {negated : Bool}
    (hmem : .group source negated ∈ tokens) : source.length < cs.length := by
  unfold levelTokens at h
  cases hscan : scan cs with
  | error e => simp [hscan, bind, Except.bind] at h
  | ok scanned =>
    rw [hscan] at h
    obtain ⟨n, hn⟩ := mem_of_mem_foldSigns h hmem
    exact length_lt_of_mem_scan hscan hn

end Expression
end DecimalCalc
