/-
# Levels inside levels

A tree is a level with groups in it, each of which is a level again.  Not every group was one in the
text: folding a sign puts one around the product with minus one, and lifting puts one around each
run.  What holds of the levels of a tree, wherever they stand, is proved here once, by going along
with the building: it is enough that it holds of a product with minus one, of what is lifted and of
what the lifting leaves, one text at a time.

A level inside is named by a path, the places of the groups that lead to it.  This makes "every
level" a quantifier over paths, and going into a group is going one step along a path.  The theorem
on building is stated with a second property, of texts, which goes from a text to the sources of its
groups; it carries what the gate has made sure of down to where a level is built.

* `everywhere_iff`: every level is the outermost one, or it stands in a group;
* `mem_liftRuns`: lifting makes groups of runs, and nothing else;
* `exists_of_group_mem_nodes`: which groups are built before the lifting;
* `everywhere_of_buildLevel`: what holds of every level that is built.
-/
import DecimalCalc.Proofs.Expression.Causes
import DecimalCalc.Proofs.Expression.Performed

namespace DecimalCalc
namespace Expression

/-! ## 1. Paths into a level

A path leads through groups only; where it meets a literal or an operator, or goes past the end of a
level, there is no level.  The empty path leads to the level itself. -/

theorem levelAt?_cons {level inner : List Node} {k : Nat} (h : level[k]? = some (.group inner))
    (path : List Nat) : levelAt? level (k :: path) = levelAt? inner path := by
  rw [levelAt?, h]

/-- A path that leads somewhere leads through a group first. -/
theorem exists_of_levelAt?_cons {level found : List Node} {k : Nat} {path : List Nat}
    (h : levelAt? level (k :: path) = some found) :
    ∃ inner, .group inner ∈ level ∧ levelAt? inner path = some found := by
  rw [levelAt?] at h
  split at h
  next inner hinner => exact ⟨inner, List.mem_of_getElem? hinner, h⟩
  next => cases h

/-- The property holds of the level and of every level inside it, at any depth. -/
def Everywhere (P : List Node → Prop) (level : List Node) : Prop :=
  ∀ path inner, levelAt? level path = some inner → P inner

/-- **Every level is the outermost one, or it stands in a group.** -/
theorem everywhere_iff {P : List Node → Prop} {level : List Node} :
    Everywhere P level ↔ P level ∧ ∀ inner, .group inner ∈ level → Everywhere P inner := by
  constructor
  · intro h
    refine ⟨h [] level rfl, fun inner hmem path found hfound => ?_⟩
    obtain ⟨k, hk⟩ := List.mem_iff_getElem?.1 hmem
    exact h (k :: path) found ((levelAt?_cons hk path).trans hfound)
  · rintro ⟨hlevel, hinner⟩ path found hfound
    cases path with
    | nil =>
      rw [levelAt?] at hfound
      exact Option.some.inj hfound ▸ hlevel
    | cons k path =>
      obtain ⟨inner, hmem, hfound⟩ := exists_of_levelAt?_cons hfound
      exact hinner inner hmem path found hfound

theorem Everywhere.here {P : List Node → Prop} {level : List Node} (h : Everywhere P level) :
    P level :=
  (everywhere_iff.1 h).1

theorem Everywhere.inside {P : List Node → Prop} : ∀ {path : List Nat} {level inner : List Node},
    Everywhere P level → levelAt? level path = some inner → Everywhere P inner
  | [], _, _, h, hinner => Option.some.inj hinner ▸ h
  | _ :: _, _, _, h, hinner =>
    have ⟨group, hmem, hinner⟩ := exists_of_levelAt?_cons hinner
    Everywhere.inside ((everywhere_iff.1 h).2 group hmem) hinner

/-! ## 2. Runs

The runs that lifting looks at are the parts between additive operators.  A group that appears in a
lifted level either was there before or is one of these runs as a whole. -/

/-- The runs of a level, between its additive operators. -/
def levelRuns (level : List Node) : List (List Node) :=
  (splitRuns level).1 :: (splitRuns level).2.map Prod.snd

/-- The nodes of a run are nodes of the level. -/
theorem mem_of_mem_levelRuns {level run : List Node} (hrun : run ∈ levelRuns level) {node : Node}
    (hnode : node ∈ run) : node ∈ level := by
  rw [← joinRuns_splitRuns level, joinRuns]
  rcases List.mem_cons.1 hrun with rfl | hrun
  · exact List.mem_append_left _ hnode
  · obtain ⟨p, hp, rfl⟩ := List.mem_map.1 hrun
    exact List.mem_append_right _ (List.mem_flatMap.2 ⟨p, hp, List.mem_cons_of_mem _ hnode⟩)

/-- A run becomes a group or stays as it is. -/
theorem mem_liftRun {run : List Node} {node : Node} (h : node ∈ liftRun run) :
    node = .group run ∨ node ∈ run := by
  unfold liftRun at h
  split at h
  · exact .inl (List.mem_singleton.1 h)
  · exact .inr h

/-- **Lifting makes groups of runs**, and nothing else. -/
theorem mem_liftRuns {level : List Node} {node : Node} (h : node ∈ liftRuns level) :
    node ∈ level ∨ ∃ run ∈ levelRuns level, node = .group run := by
  unfold liftRuns at h
  split at h
  next =>
    have hlifted : ∀ run ∈ levelRuns level, node ∈ liftRun run →
        node ∈ level ∨ ∃ run ∈ levelRuns level, node = .group run := fun run hrun hnode =>
      (mem_liftRun hnode).symm.imp (mem_of_mem_levelRuns hrun) fun hgroup => ⟨run, hrun, hgroup⟩
    rcases List.mem_append.1 h with hfirst | hmore
    · exact hlifted _ List.mem_cons_self hfirst
    · obtain ⟨p, hp, hnode⟩ := List.mem_flatMap.1 hmore
      rcases List.mem_cons.1 hnode with rfl | hnode
      · refine .inl ?_
        rw [← joinRuns_splitRuns level, joinRuns]
        exact List.mem_append_right _ (List.mem_flatMap.2 ⟨p, hp, List.mem_cons_self⟩)
      · exact hlifted _ (List.mem_cons_of_mem _ (List.mem_map_of_mem hp)) hnode
  next => exact .inl h

/-! ## 3. Building

Building a level goes from tokens to nodes and then to lifted nodes.  The groups before the
lifting come from the text, and those that are lifted are runs of nodes from the text; there are
no others. -/

/-- The product with minus one that a negated group is, as a level of three nodes. -/
def minusTimes (level : List Node) : List Node :=
  [.literal ['-', '1'], .operator .multiply, .group level]

theorem group_mem_minusTimes {level inner : List Node} :
    .group inner ∈ minusTimes level ↔ inner = level := by
  simp [minusTimes]

theorem exists_of_mem_mapM {α β : Type} {f : α → Except SyntaxError β} {as : List α} {bs : List β}
    (h : as.mapM f = .ok bs) {b : β} (hmem : b ∈ bs) : ∃ a ∈ as, f a = .ok b := by
  induction as generalizing bs with
  | nil =>
    obtain rfl := Except.ok.inj h
    cases hmem
  | cons a as ih =>
    obtain ⟨b', rest, ha, hrest, rfl⟩ := ok_of_mapM_cons h
    rcases List.mem_cons.1 hmem with rfl | hmem
    · exact ⟨a, List.mem_cons_self, ha⟩
    · obtain ⟨a', hmem', ha'⟩ := ih hrest hmem
      exact ⟨a', List.mem_cons_of_mem _ hmem', ha'⟩

/-- **Which groups are built before the lifting**: those of the text, negated or not. -/
theorem exists_of_group_mem_nodes {tokens : List Token} {nodes : List Node}
    (h : tokens.mapM (nodeOfToken buildLevel) = .ok nodes) {inner : List Node}
    (hmem : .group inner ∈ nodes) : ∃ source negated level, .group source negated ∈ tokens ∧
      buildLevel source = .ok level ∧ (inner = level ∨ inner = minusTimes level) := by
  obtain ⟨token, htoken, hnode⟩ := exists_of_mem_mapM h hmem
  cases token with
  | literal text => cases hnode
  | operator op => cases hnode
  | group source negated =>
    obtain ⟨level, hlevel, hgroup⟩ := ok_of_map hnode
    refine ⟨source, negated, level, htoken, hlevel, ?_⟩
    cases negated with
    | false => exact .inl (Node.group.inj hgroup).symm
    | true => exact .inr (Node.group.inj hgroup).symm

/-- Where a level was built, its tokens were read and its nodes were made, and it is what lifting
left. -/
theorem exists_of_buildLevel {cs : List Char} {level : List Node} (h : buildLevel cs = .ok level) :
    ∃ tokens nodes, levelTokens cs = .ok tokens ∧
      tokens.mapM (nodeOfToken buildLevel) = .ok nodes ∧ level = liftRuns nodes := by
  rw [buildLevel_eq] at h
  obtain ⟨tokens, htokens, h⟩ := ok_of_bind h
  obtain ⟨nodes, hnodes, h⟩ := ok_of_bind h
  exact ⟨tokens, nodes, htokens, hnodes, (Except.ok.inj h).symm⟩

/-- **What holds of every level that is built.**  `Q` is what is known of the texts of the levels.
The induction is on the length of the text, as the building is. -/
theorem everywhere_of_buildLevel {Q : List Char → Prop} {P : List Node → Prop}
    (hgroup : ∀ {cs tokens source negated}, Q cs → levelTokens cs = .ok tokens →
      .group source negated ∈ tokens → Q source)
    (hminus : ∀ level, P (minusTimes level))
    (hbuilt : ∀ {cs tokens nodes}, Q cs → levelTokens cs = .ok tokens →
      tokens.mapM (nodeOfToken buildLevel) = .ok nodes →
        P (liftRuns nodes) ∧ ∀ run ∈ levelRuns nodes, P run)
    {cs : List Char} {level : List Node} (hcs : Q cs) (h : buildLevel cs = .ok level) :
    Everywhere P level := by
  induction hlength : cs.length using Nat.strong_induction_on generalizing cs level with
  | _ n ih =>
  obtain ⟨tokens, nodes, htokens, hnodes, rfl⟩ := exists_of_buildLevel h
  obtain ⟨hlifted, hruns⟩ := hbuilt hcs htokens hnodes
  -- the groups that stand in the level before the lifting
  have hinside : ∀ inner, .group inner ∈ nodes → Everywhere P inner := by
    intro inner hinner
    obtain ⟨source, negated, level, hmem, hlevel, hcase⟩ := exists_of_group_mem_nodes hnodes hinner
    have hsource := ih source.length (hlength ▸ length_lt_of_mem_levelTokens htokens hmem)
      (hgroup hcs htokens hmem) hlevel rfl
    rcases hcase with rfl | rfl
    · exact hsource
    · exact everywhere_iff.2 ⟨hminus level, fun inner hinner =>
        group_mem_minusTimes.1 hinner ▸ hsource⟩
  refine everywhere_iff.2 ⟨hlifted, fun inner hinner => ?_⟩
  rcases mem_liftRuns hinner with hinner | ⟨run, hrun, hinner⟩
  · exact hinside inner hinner
  · obtain rfl := Node.group.inj hinner
    exact everywhere_iff.2 ⟨hruns _ hrun, fun group hgroup =>
      hinside group (mem_of_mem_levelRuns hrun hgroup)⟩

end Expression
end DecimalCalc
