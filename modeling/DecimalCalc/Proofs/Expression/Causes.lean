/-
# Which stage reports what

Every syntax error belongs to the stages that can find it.  The gate reports what is wrong with
single characters and their neighbours, reading a level how its parentheses match, folding an
operand that is missing or an operator in its place.  The evaluation reports the first fault of the
tree and nothing else.

Which stage an error comes from is then told by the error, and what is known about one stage can be
used for an evaluation as a whole.  The lists of causes are short, and whether a cause is among them
is decided by looking.  Building a tree goes through many levels of text, of which any may be the
one that fails; it is enough to know that it is one of them, and that its own tokens are what fails.
Evaluating meets the faults of a tree in a certain order, and if what stops it is a syntax error, it
is the first of them.

* `mem_gateCauses`, `mem_matchingCauses`, `mem_placeCauses`: what each stage can report;
* `exists_levelOf_of_buildLevel`: building reports what is wrong with one of the levels of the text;
* `levelFault_mem`: what the evaluation can find wrong with a tree;
* `evaluate_malformed`: a syntax error comes from reading the expression, or it is the first fault.
-/
import DecimalCalc.Proofs.Expression.Misplaced
import DecimalCalc.Proofs.Expression.Refusal

namespace DecimalCalc
namespace Expression

variable {cap : Nat}

/-! ## 1. Reading

Each of the three steps of reading has its own causes.  Scanning and folding come one behind the
other, so a level that cannot be read fails in one or the other. -/

/-- What the gate can report: one cause for each of its rules. -/
def gateCauses : List SyntaxError := rules.map Prod.fst

/-- What reading a level can report: the parentheses do not match, or are too many. -/
def matchingCauses : List SyntaxError :=
  [.unmatchedClosingParenthesis, .unclosedParenthesis, .nestingTooDeep]

/-- What folding signs can report: a sign with nothing behind it, or with an operator there. -/
def placeCauses : List SyntaxError := [.missingOperand, .unexpectedOperator]

theorem mem_gateCauses {cs : List Char} {e : SyntaxError} (h : gate cs = .error e) :
    e ∈ gateCauses := by
  unfold gate at h
  split at h
  next rule hrule =>
    rw [← Except.error.inj h]
    exact List.mem_map_of_mem (List.mem_of_find?_eq_some hrule)
  next => cases h

/-- What is done to a result does not change why there is none. -/
theorem error_of_map {ε α β : Type} {f : α → β} {x : Except ε α} {e : ε}
    (h : x.map f = .error e) : x = .error e := by
  cases x with
  | error e' => exact congrArg _ (Except.error.inj h)
  | ok a => cases h

/-- A sequence fails where its first part does, or behind it. -/
theorem error_of_bind {ε α β : Type} {x : Except ε α} {f : α → Except ε β} {e : ε}
    (h : x >>= f = .error e) : x = .error e ∨ ∃ a, x = .ok a ∧ f a = .error e := by
  cases x with
  | error e' => exact .inl (congrArg _ (Except.error.inj h))
  | ok a => exact .inr ⟨a, rfl, h⟩

theorem mem_matchingCauses_of_closeGroup {depth : Nat} {cs : List Char} {e : SyntaxError}
    (h : closeGroup depth cs = .error e) : e ∈ matchingCauses := by
  fun_induction closeGroup depth cs with
  | case1 =>
    rw [← Except.error.inj h]
    decide
  | case2 =>
    rw [← Except.error.inj h]
    decide
  | case3 depth cs _ ih => exact ih (error_of_map h)
  | case4 => cases h
  | case5 cs depth ih => exact ih (error_of_map h)
  | case6 =>
    rename_i ih
    exact ih (error_of_map h)

theorem mem_matchingCauses {cs : List Char} {e : SyntaxError} (h : scan cs = .error e) :
    e ∈ matchingCauses := by
  fun_induction scan cs with
  | case1 => cases h
  | case2 cs e' hclose =>
    rw [← Except.error.inj h]
    exact mem_matchingCauses_of_closeGroup hclose
  | case3 cs source rest hclose ih => exact ih (error_of_map h)
  | case4 =>
    rw [← Except.error.inj h]
    decide
  | case5 c cs _ _ op hop ih => exact ih (error_of_map h)
  | case6 c cs _ _ hop ih => exact ih (error_of_map h)

/-- The cases are those of the folding, of which only the ones that negate an operand can fail. -/
theorem mem_placeCauses {after : Bool} {tokens : List Token} {e : SyntaxError}
    (h : foldSigns after tokens = .error e) : e ∈ placeCauses := by
  have hoperand : SyntaxError.missingOperand ∈ placeCauses := by decide
  have hoperator : SyntaxError.unexpectedOperator ∈ placeCauses := by decide
  fun_induction foldSigns after tokens with
  | case1 => cases h
  | case2 rest ih => exact ih h
  | case3 => exact Except.error.inj h ▸ hoperand
  | case4 operand rest ih =>
    rcases error_of_negate h with rfl | ⟨-, h⟩
    · exact hoperator
    · exact ih h
  | case5 => exact Except.error.inj h ▸ hoperand
  | case6 operand rest _ _ _ ih =>
    rcases error_of_negate h with rfl | ⟨-, h⟩
    · exact hoperator
    · exact ih h
  | case7 after token rest _ _ _ _ _ ih => exact ih (error_of_cons h)

theorem levelTokens_error {cs : List Char} {e : SyntaxError} (h : levelTokens cs = .error e) :
    scan cs = .error e ∨ e ∈ placeCauses := by
  rcases error_of_bind h with hscan | ⟨tokens, -, hfold⟩
  · exact .inl hscan
  · exact .inr (mem_placeCauses hfold)

/-! ## 2. Building

A level that fails need not be the outermost one.  It is found by following the building into the
first group that fails, and its text is a level of the text. -/

/-- A level of a level of a text is a level of the text. -/
theorem LevelOf.trans {cs middle level : List Char} (h : LevelOf cs middle)
    (hlevel : LevelOf middle level) : LevelOf cs level := by
  induction hlevel with
  | whole => exact h
  | inside _ hscan hmem ih => exact .inside ih hscan hmem

theorem exists_of_mapM_error {α β : Type} {f : α → Except SyntaxError β} {as : List α}
    {e : SyntaxError} (h : as.mapM f = .error e) : ∃ a ∈ as, f a = .error e := by
  induction as with
  | nil => cases h
  | cons a as ih =>
    rw [List.mapM_cons] at h
    rcases error_of_bind h with ha | ⟨b, -, h⟩
    · exact ⟨a, List.mem_cons_self, ha⟩
    rcases error_of_bind h with has | ⟨bs, -, h⟩
    · obtain ⟨a', hmem, ha'⟩ := ih has
      exact ⟨a', List.mem_cons_of_mem _ hmem, ha'⟩
    · cases h

/-- The text of a token that is left by folding is that of a group of the level. -/
theorem levelOf_of_mem_levelTokens {cs : List Char} {tokens : List Token}
    (h : levelTokens cs = .ok tokens) {source : List Char} {negated : Bool}
    (hmem : .group source negated ∈ tokens) : LevelOf cs source := by
  obtain ⟨scanned, hscan, hfold⟩ := ok_of_bind h
  obtain ⟨_, hscanned⟩ := mem_of_mem_foldSigns hfold hmem
  exact .inside .whole hscan hscanned

/-- **Building reports what is wrong with one of the levels of the text.** -/
theorem exists_levelOf_of_buildLevel {cs : List Char} {e : SyntaxError}
    (h : buildLevel cs = .error e) : ∃ level, LevelOf cs level ∧ levelTokens level = .error e := by
  induction hlength : cs.length using Nat.strong_induction_on generalizing cs with
  | _ n ih =>
  rw [buildLevel_eq] at h
  rcases error_of_bind h with htokens | ⟨tokens, htokens, h⟩
  · exact ⟨cs, .whole, htokens⟩
  rcases error_of_bind h with hnodes | ⟨nodes, -, h⟩
  · -- only a group can fail to become a node, and it does so because its own level fails
    obtain ⟨token, hmem, htoken⟩ := exists_of_mapM_error hnodes
    cases token with
    | literal text => cases htoken
    | operator op => cases htoken
    | group source negated =>
      have hlt := length_lt_of_mem_levelTokens htokens hmem
      obtain ⟨level, hlevel, hfault⟩ := ih source.length (hlength ▸ hlt) (error_of_map htoken) rfl
      exact ⟨level, (levelOf_of_mem_levelTokens htokens hmem).trans hlevel, hfault⟩
  · cases h

/-! ## 3. Evaluating

Faults are computed from the tree without evaluating it, and can only be of three kinds.  A fault
that is reported is the first one in the order of evaluation. -/

mutual

/-- What can be wrong with an operand: that it is an operator, or a group whose level has a
fault. -/
theorem fault_mem : ∀ node : Node, ∀ cause ∈ node.fault, cause ∈ .missingOperator :: placeCauses
  | .literal _ => by
    rw [Node.fault]
    exact nofun
  | .operator _ => by
    rw [Node.fault]
    rintro _ ⟨⟩
    decide
  | .group level => by
    rw [Node.fault]
    exact levelFault_mem level

/-- **What the evaluation can find wrong with a level.** -/
theorem levelFault_mem : ∀ level : List Node,
    ∀ cause ∈ levelFault level, cause ∈ .missingOperator :: placeCauses
  | [] => by
    rw [levelFault]
    rintro _ ⟨⟩
    decide
  | node :: level => by
    rw [levelFault]
    intro cause hcause
    rcases Option.or_eq_some_iff.1 hcause with hcause | ⟨-, hcause⟩
    · exact fault_mem node cause hcause
    · exact stepsFault_mem level cause hcause

/-- What can be wrong behind the first operand of a level: one case for each way in which the nodes
can go on. -/
theorem stepsFault_mem : ∀ level : List Node,
    ∀ cause ∈ stepsFault level, cause ∈ .missingOperator :: placeCauses
  | [] => by
    rw [stepsFault]
    exact nofun
  | [.operator _] => by
    rw [stepsFault]
    rintro _ ⟨⟩
    decide
  | .operator _ :: node :: level => by
    rw [stepsFault]
    intro cause hcause
    rcases Option.or_eq_some_iff.1 hcause with hcause | ⟨-, hcause⟩
    · exact fault_mem node cause hcause
    · exact stepsFault_mem level cause hcause
  | .literal _ :: _ => by
    rw [stepsFault_operand rfl]
    rintro _ ⟨⟩
    decide
  | .group _ :: _ => by
    rw [stepsFault_operand rfl]
    rintro _ ⟨⟩
    decide

end

/-- A level is reported as malformed for its first fault only. -/
theorem levelFault_of_malformed {level : List Node} {cause : SyntaxError}
    (h : (evalLevel cap level).result = .error (.malformed cause)) :
    levelFault level = some cause := by
  cases hfault : levelFault level with
  | none =>
    obtain ⟨_, ⟨⟩⟩ := numeric_evalLevel cap ((levelFault_eq_none_iff level).1 hfault) _ h
  | some first =>
    rw [evalLevel_of_fault level hfault, Traced.result_bind] at h
    have hformed : ∀ node ∈ levelCompleted level, node.Formed := fun node hnode =>
      (@of_mem_levelCompleted (fun _ => True) (fun _ _ _ _ => trivial) level (fun _ _ => trivial) node
        hnode).2
    rcases error_of_bind h with hcompleted | ⟨_, -, h⟩
    · obtain ⟨_, ⟨⟩⟩ := numeric_evalAll hformed _ hcompleted
    · exact congrArg some (ExpressionError.malformed.inj (Except.error.inj h))

/-- **A syntax error comes from reading the expression, or it is the first fault of its tree.** -/
theorem evaluate_malformed {expression : String} {cause : SyntaxError}
    (h : evaluate cap expression = .error (.malformed cause)) :
    Tree.ofTrimmed (Text.trim expression.toList) = .error cause ∨
      ∃ tree, Tree.ofTrimmed (Text.trim expression.toList) = .ok tree ∧
        levelFault tree.level = some cause := by
  cases htree : Tree.ofTrimmed (Text.trim expression.toList) with
  | error e =>
    rw [evaluate, run, htree] at h
    exact .inl (congrArg _ (ExpressionError.malformed.inj (Except.error.inj h)))
  | ok tree =>
    refine .inr ⟨tree, rfl, @levelFault_of_malformed cap _ _ ?_⟩
    rw [evaluate, run_of_ofTrimmed htree] at h
    simp only [Traced.result_bind] at h
    rcases error_of_bind h with h | ⟨_, -, h⟩
    · cases h
    rcases error_of_bind h with hlevel | ⟨x, -, h⟩
    · exact hlevel
    · cases h

end Expression
end DecimalCalc
