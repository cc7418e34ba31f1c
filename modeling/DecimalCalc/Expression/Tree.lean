/-
# Expression trees

A level is a list of nodes in which operands and operators should alternate; nothing forces them to,
and what stands in the wrong place is reported when the tree is evaluated.  Where a level mixes
additive and multiplicative operators, each multiplicative run becomes a group of its own, so that
every level is of one precedence.

A tree is built from the outside in.  The tokens of a level are read in full, then the levels inside
its groups are built one after the other, and at last the runs of the level itself are lifted.  A
level is therefore lifted after the groups in it, and lifting looks at operators of its own level
only.

A group that a sign was folded into is multiplied by minus one, as a group of its own.  The tree
does not tell this factor from one that was written out, nor a lifted run from a group in
parentheses; evaluation has no need to.

* `buildLevel_eq`: how a level is built from its tokens and the levels inside its groups;
* `liftRuns_of_not_mixed`: a level of one precedence stays as it is.
-/
import DecimalCalc.Expression.Gate
import DecimalCalc.Expression.Token
import DecimalCalc.Text.Blank

namespace DecimalCalc
namespace Expression

/-! ## 1. Nodes

Nodes are tokens whose groups have been read.  A level is a list of them and has no type of its own,
so statements about levels are statements about lists, by induction along with the nodes. -/

/-- A literal, an operator, or a level in parentheses.  The text of a literal is not read as a
number before it is evaluated. -/
inductive Node where
  | literal (text : List Char)
  | operator (op : Operator)
  | group (level : List Node)
deriving Repr, BEq, Inhabited

namespace Node

/-- Whether a node is an operand rather than an operator. -/
def isOperand : Node → Bool
  | .operator _ => false
  | _ => true

/-- Whether a node is an operator of the given kind. -/
def isOperator (kind : Operator → Bool) : Node → Bool
  | .operator op => kind op
  | _ => false

mutual

/-- The text of a node.  Literals are written as they were read, signs folded into them included. -/
def toChars : Node → List Char
  | .literal text => text
  | .operator op => [op.symbol]
  | .group level => '(' :: (levelToChars level ++ [')'])

/-- The text of a level: that of its nodes, with nothing in between. -/
def levelToChars : List Node → List Char
  | [] => []
  | node :: level => toChars node ++ levelToChars level

end

end Node

/-! ## 2. Lifting multiplicative runs

A run is what stands between two additive operators of a level, or between one and an end.  It
may be a single operand, which stays as it is, and in a level that is not well formed it may be
empty. -/

/-- Splits a level at its additive operators: the first run, and each further run behind the
operator in front of it.  Joining them again gives the level. -/
def splitRuns : List Node → List Node × List (Operator × List Node)
  | [] => ([], [])
  | .operator op :: level =>
    let (run, more) := splitRuns level
    if op.isAdditive then ([], (op, run) :: more) else (.operator op :: run, more)
  | operand :: level =>
    let (run, more) := splitRuns level
    (operand :: run, more)

/-- A run with a multiplicative operator in it becomes a group.  A single operand does not, nor
does a run in which operands follow each other without any operator. -/
def liftRun (run : List Node) : List Node :=
  if run.any (Node.isOperator Operator.isMultiplicative) then [.group run] else run

/-- The level holds operators of both kinds.  Operators inside of its groups do not count. -/
def isMixed (level : List Node) : Bool :=
  level.any (Node.isOperator Operator.isAdditive) &&
    level.any (Node.isOperator Operator.isMultiplicative)

/-- In a mixed level, lifts every multiplicative run into a group, so that additive operators alone
remain.  Any other level is of one precedence already. -/
def liftRuns (level : List Node) : List Node :=
  if isMixed level then
    let (first, more) := splitRuns level
    liftRun first ++ more.flatMap fun (op, run) => .operator op :: liftRun run
  else level

theorem liftRuns_of_not_mixed {level : List Node} (h : isMixed level = false) :
    liftRuns level = level := by
  simp [liftRuns, h]

/-! ## 3. Building a level

The recursion goes from a level to the sources of its groups, which are shorter texts.  The
definition carries the membership along that termination needs; `buildLevel_eq` states it
without. -/

/-- A group, behind a factor of minus one if a sign was folded into it.  The factor and the group
are put into a group together, so that they stay together as one operand. -/
def groupNode (negated : Bool) (level : List Node) : Node :=
  if negated then .group [.literal ['-', '1'], .operator .multiply, .group level] else .group level

/-- The node of a token; `build` builds the level inside a group.  Only a group can fail to become
a node. -/
def nodeOfToken (build : List Char → Except SyntaxError (List Node)) :
    Token → Except SyntaxError Node
  | .literal text => .ok (.literal text)
  | .operator op => .ok (.operator op)
  | .group source negated => (build source).map (groupNode negated)

/-- Builds a level: its own tokens are read before any group inside is looked into.  The first
group that fails is the one that is reported. -/
def buildLevel (cs : List Char) : Except SyntaxError (List Node) :=
  match _read : levelTokens cs with
  | .error e => .error e
  | .ok tokens => do
    let nodes ← tokens.attach.mapM fun ⟨token, _mem⟩ =>
      match token, _mem with
      | .literal text, _ => .ok (.literal text)
      | .operator op, _ => .ok (.operator op)
      | .group source negated, _mem => (buildLevel source).map (groupNode negated)
    return liftRuns nodes
termination_by cs.length
decreasing_by exact length_lt_of_mem_levelTokens _read _mem

/-- **A level is built from its tokens**, each group from its source.  All proofs about building go
through this equation, since the definition itself recurs on the length of the text. -/
theorem buildLevel_eq (cs : List Char) :
    buildLevel cs = (do
      let tokens ← levelTokens cs
      let nodes ← tokens.mapM (nodeOfToken buildLevel)
      return liftRuns nodes) := by
  rw [buildLevel]
  cases levelTokens cs with
  | error e => rfl
  | ok tokens =>
    have h : (fun p : { t // t ∈ tokens } => nodeOfToken buildLevel p.1) =
        fun p : { t // t ∈ tokens } =>
          match p.1, p.2 with
          | .literal text, _ => .ok (.literal text)
          | .operator op, _ => .ok (.operator op)
          | .group source negated, _ => (buildLevel source).map (groupNode negated) := by
      funext ⟨token, hmem⟩
      cases token <;> rfl
    have hmap : tokens.mapM (nodeOfToken buildLevel) =
        tokens.attach.mapM fun p => nodeOfToken buildLevel p.1 := by
      conv => lhs; rw [← List.attach_map_subtype_val tokens]
      rw [List.mapM_map]
      rfl
    show _ = (tokens.mapM (nodeOfToken buildLevel) >>= fun nodes => pure (liftRuns nodes))
    rw [hmap, h]

/-! ## 4. Trees

A tree is the outermost level of an expression whose text passed the gate.  Reading and evaluating
are separate steps, and a tree that was read may still have no value. -/

/-- An expression that passed the gate and was built.  Its operands and operators may stand in the
wrong order all the same. -/
structure Tree where
  level : List Node
deriving Repr, BEq, Inhabited

namespace Tree

/-- Reads an expression that is free of blanks around it: the gate is asked first, and nothing is
built from what it refuses. -/
def ofTrimmed (cs : List Char) : Except SyntaxError Tree := do
  gate cs
  return ⟨← buildLevel cs⟩

/-- Reads an expression.  Blanks around it are allowed, blanks inside are not. -/
def ofChars (cs : List Char) : Except SyntaxError Tree := ofTrimmed (Text.trim cs)

/-- The number of operands of the outermost level, lifted runs counting as one each. -/
def termCount (t : Tree) : Nat := t.level.countP Node.isOperand

/-- The text of a tree, which has parentheses where runs were lifted. -/
def toChars (t : Tree) : List Char := Node.levelToChars t.level

end Tree
end Expression
end DecimalCalc
