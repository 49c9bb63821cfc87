import Esconf.PropTreeReset

/-! What the two traversals of a recursive reset leave of a property tree. -/

namespace Esconf

open NamedTree

/-- The two traversals at the node a path leads to. -/
def resetAt (proptree : PropTree) (path : List CString) : PropTree :=
  let cleared := change nodesDoPropReset path proptree
  (alterAt nodesCleanUp path cleared).getD cleared

def EsconfProperty.lasting (prop : EsconfProperty) : Bool := prop.systemValue.isSet || prop.locked

theorem EsconfProperty.dangling_cleared (prop : EsconfProperty) :
    (prop.withValue .invalid).dangling = !prop.lasting := by
  obtain ⟨value, systemValue, locked⟩ := prop
  unfold dangling lasting withValue
  cases systemValue.isSet <;> cases locked <;> rfl

/-- The second tree is what a recursive reset at a path has to leave of the first one. -/
structure PrunedAt (path : List CString) (before after : PropTree) : Prop where
  /-- No user value is left at or below the path. -/
  values : ∀ rest node, descend after (path ++ rest) = some node → node.data.value = .invalid
  /-- A node there is left exactly if a default or a lock is at or below it. -/
  survives : ∀ rest, (descend after (path ++ rest)).isSome = true ↔
    ∃ more sub, descend before (path ++ rest ++ more) = some sub ∧
      (sub.data.systemValue.isSet = true ∨ sub.data.locked = true)
  kept : ∀ rest node, descend after (path ++ rest) = some node →
    ∃ old, descend before (path ++ rest) = some old ∧
      node.data.systemValue = old.data.systemValue ∧ node.data.locked = old.data.locked
  /-- The nodes of the whole tree have the children they had, without those that are gone. -/
  order : InOrderOf before after
  outside : ∀ other, ¬path <+: other →
    (descend after other).map NamedTree.data = (descend before other).map NamedTree.data

section Reset

variable {proptree top : PropTree} {path : List CString}

theorem descend_nodesDoPropReset (top : PropTree) (path : List CString) :
    descend (nodesDoPropReset top) path = (descend top path).map nodesDoPropReset :=
  descend_mapData _ top path

theorem resetAt_inside (distinct : Distinct proptree) (full : path ≠ [])
    (found : descend proptree path = some top) (rest : List CString) :
    descend (resetAt proptree path) (path ++ rest) =
      (descend top rest).bind fun node => nodesCleanUp (nodesDoPropReset node) := by
  have cleared := descend_nodesDoPropReset_top found
  have distinct' := distinct_nodesDoPropReset path distinct
  obtain ⟨after, done⟩ := alterAt_nonroot (f := nodesCleanUp) full
    (change nodesDoPropReset path proptree)
  have result : resetAt proptree path = after := by
    change (alterAt nodesCleanUp _ (change _ _ _)).getD (change _ _ _) = _
    rw [done]
    rfl
  have below := @descend_prune _ _ _ EsconfProperty.dangling _ (distinct'.descend cleared) rest
  rw [descend_nodesDoPropReset, Option.bind_map] at below
  rw [result]
  refine Eq.trans ?_ below
  cases image : nodesCleanUp (nodesDoPropReset top) with
  | none =>
      have gone : prune EsconfProperty.dangling (nodesDoPropReset top) = none := image
      rw [descend_alterAt_removed (prune_keepsKey _) distinct' done cleared image, gone]
      rfl
  | some top' =>
      have kept : prune EsconfProperty.dangling (nodesDoPropReset top) = some top' := image
      rw [descend_alterAt_inside (prune_keepsKey _) done cleared image, kept]
      rfl

theorem lasting_below (distinct : Distinct top) :
    (nodesCleanUp (nodesDoPropReset top)).isSome = true ↔
      ∃ more sub, descend top more = some sub ∧
        (sub.data.systemValue.isSet = true ∨ sub.data.locked = true) := by
  have alive : ∀ sub : PropTree, (nodesDoPropReset sub).data.dangling = false ↔
      (sub.data.systemValue.isSet = true ∨ sub.data.locked = true) := by
    intro sub
    have data : (nodesDoPropReset sub).data = sub.data.withValue .invalid := mapData_data _ sub
    rw [data, EsconfProperty.dangling_cleared, EsconfProperty.lasting, Bool.not_eq_false',
      Bool.or_eq_true]
  have cleared : Distinct (nodesDoPropReset top) := distinct_mapData _ distinct
  unfold nodesCleanUp
  rw [prune_isSome_iff cleared]
  constructor
  · intro living
    obtain ⟨more, sub, found, lives⟩ := living
    rw [descend_nodesDoPropReset] at found
    obtain ⟨old, here, rfl⟩ := Option.map_eq_some_iff.mp found
    exact ⟨more, old, here, (alive old).mp lives⟩
  · intro lasting
    obtain ⟨more, sub, found, lasts⟩ := lasting
    refine ⟨more, nodesDoPropReset sub, ?_, (alive sub).mpr lasts⟩
    rw [descend_nodesDoPropReset, found]
    rfl

theorem resetAt_order (distinct : Distinct proptree) (path : List CString) :
    InOrderOf proptree (resetAt proptree path) := by
  have keeps : KeepsKey fun sub : PropTree => some (nodesDoPropReset sub) := mapData_keepsKey _
  have distinct' := distinct_nodesDoPropReset path distinct
  have first : InOrderOf proptree (change nodesDoPropReset path proptree) := by
    apply inOrderOf_alterAt keeps distinct _ (alterAt_change _ _ proptree)
    intro sub sub' _ done
    cases done
    exact inOrderOf_mapData _ sub
  change InOrderOf _ ((alterAt nodesCleanUp _ (change _ _ _)).getD (change _ _ _))
  cases done : alterAt nodesCleanUp path (change nodesDoPropReset path proptree) with
  | none => exact first
  | some after =>
      apply first.trans
      apply inOrderOf_alterAt (prune_keepsKey _) distinct' _ done
      intro sub sub' here kept
      exact inOrderOf_prune (distinct'.descend here) kept

theorem resetAt_outside (proptree : PropTree) {path other : List CString}
    (outside : ¬path <+: other) :
    (descend (resetAt proptree path) other).map NamedTree.data =
      (descend proptree other).map NamedTree.data :=
  descend_nodesCleanUp_outside proptree outside

end Reset

/-- A recursive reset prunes the dead part of the subtree and nothing else. -/
theorem resetAt_prunes (proptree top : PropTree) (path : List CString)
    (distinct : Distinct proptree) (full : path ≠ [])
    (found : descend proptree path = some top) :
    PrunedAt path proptree (resetAt proptree path) := by
  have inside := resetAt_inside distinct full found
  have before : ∀ rest, descend proptree (path ++ rest) = descend top rest := by
    intro rest
    rw [descend_append, found]
    rfl
  -- A node that is left is one of the tree with its user value taken away.
  have origin : ∀ rest node, descend (resetAt proptree path) (path ++ rest) = some node →
      ∃ old, descend proptree (path ++ rest) = some old ∧
        node.data = old.data.withValue .invalid := by
    intro rest node here
    rw [inside] at here
    obtain ⟨old, there, kept⟩ := Option.bind_eq_some_iff.mp here
    refine ⟨old, (before rest).trans there, ?_⟩
    rw [(prune_key kept).2]
    exact mapData_data _ old
  constructor
  · intro rest node here
    obtain ⟨old, _, data⟩ := origin rest node here
    rw [data]
    rfl
  · intro rest
    rw [inside]
    cases there : descend top rest with
    | none =>
        apply iff_of_false
        · exact Bool.false_ne_true
        · intro living
          obtain ⟨more, sub, reached, _⟩ := living
          rw [List.append_assoc, before, descend_append, there] at reached
          cases reached
    | some node =>
        have tops : Distinct top := distinct.descend found
        rw [Option.bind_some, lasting_below (tops.descend there)]
        have deeper : ∀ more, descend proptree (path ++ rest ++ more) = descend node more := by
          intro more
          rw [List.append_assoc, before, descend_append, there]
          rfl
        constructor
        · intro living
          obtain ⟨more, sub, reached, lasts⟩ := living
          exact ⟨more, sub, (deeper more).trans reached, lasts⟩
        · intro living
          obtain ⟨more, sub, reached, lasts⟩ := living
          exact ⟨more, sub, (deeper more).symm.trans reached, lasts⟩
  · intro rest node here
    obtain ⟨old, there, data⟩ := origin rest node here
    refine ⟨old, there, ?_⟩
    rw [data]
    exact ⟨rfl, rfl⟩
  · exact resetAt_order distinct path
  · exact fun other apart => resetAt_outside proptree apart

def mixedTree : PropTree :=
  .node "/".toList .blank [
    .node "a".toList ⟨.int 1, .invalid, false⟩ [
      .node "x".toList ⟨.int 2, .invalid, false⟩ [.node "y".toList ⟨.int 3, .invalid, false⟩ []],
      .node "z".toList ⟨.int 4, .invalid, true⟩ []],
    .node "b".toList ⟨.int 5, .invalid, false⟩ []]

example : (resetAt mixedTree ["a".toList]).slot ["a".toList, "z".toList] =
    ⟨.invalid, .invalid, true⟩ := by decide

theorem resetAt_prunes_mixed :
    PrunedAt ["a".toList] mixedTree (resetAt mixedTree ["a".toList]) := by
  have leaf : ∀ name prop, Distinct (.node name prop [] : PropTree) :=
    fun _ _ => .node (by simp) nofun
  have distinct : Distinct mixedTree := by
    refine .node (by decide) (List.forall_mem_cons.mpr ⟨?_, List.forall_mem_singleton.mpr
      (leaf _ _)⟩)
    refine .node (by decide) (List.forall_mem_cons.mpr ⟨?_, List.forall_mem_singleton.mpr
      (leaf _ _)⟩)
    exact .node (by decide) (List.forall_mem_singleton.mpr (leaf _ _))
  exact resetAt_prunes mixedTree _ ["a".toList] distinct (by simp) rfl

end Esconf
