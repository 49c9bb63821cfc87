import Esconf.PropTree

/-! What the two kinds of reset do to the slots of a property tree, and which
nodes they keep. -/

namespace Esconf

open NamedTree

namespace EsconfProperty

def valueless (prop : EsconfProperty) : Bool := !prop.value.isSet && !prop.systemValue.isSet

theorem valueless_unlocked {prop : EsconfProperty} (empty : prop.valueless = true)
    (unlocked : prop.locked = false) : prop = blank := by
  apply dangling_blank
  rw [valueless] at empty
  rw [dangling, empty, unlocked]
  rfl

@[simp] theorem withValue_systemValue (value : GValue) (prop : EsconfProperty) :
    (prop.withValue value).systemValue = prop.systemValue := rfl

@[simp] theorem withValue_locked (value : GValue) (prop : EsconfProperty) :
    (prop.withValue value).locked = prop.locked := rfl

@[simp] theorem withValue_value (value : GValue) (prop : EsconfProperty) :
    (prop.withValue value).value = value := rfl

theorem withValue_unset {prop : EsconfProperty} (unset : prop.value = .invalid) :
    prop.withValue .invalid = prop := by
  obtain ⟨value, systemValue, locked⟩ := prop
  cases unset
  rfl

end EsconfProperty

theorem removeParents_step (name : CString) (above : List CString) (proptree : PropTree) :
    (∃ key prop, descend proptree (above.reverse ++ [name]) = some (.node key prop []) ∧
      prop.valueless = true ∧ removeParents (name :: above) proptree =
        removeParents above (unlink (above.reverse ++ [name]) proptree)) ∨
      removeParents (name :: above) proptree = proptree := by
  rw [removeParents, List.reverse_cons]
  split
  · next key prop found =>
      split
      · next stop =>
          simp only [Bool.and_eq_true] at stop
          exact Or.inl ⟨key, prop, found, by simp [EsconfProperty.valueless, stop.1], rfl⟩
      · exact Or.inr rfl
  · exact Or.inr rfl

theorem removeParents_slot (upward : List CString) {proptree : PropTree}
    (distinct : Distinct proptree) (unlocked : ∀ path, (proptree.slot path).locked = false) :
    (∀ path, (removeParents upward proptree).slot path = proptree.slot path) ∧
      Distinct (removeParents upward proptree) := by
  induction upward generalizing proptree with
  | nil => exact ⟨fun _ => rfl, distinct⟩
  | cons name above ih =>
      rcases removeParents_step name above proptree with ⟨key, prop, found, empty, step⟩ | stays
      · have here : proptree.slot (above.reverse ++ [name]) = prop := lookup_of_descend found
        have isBlank : prop = .blank :=
          EsconfProperty.valueless_unlocked empty (by rw [← here]; exact unlocked _)
        subst isBlank
        have same : ∀ path, PropTree.slot (unlink (above.reverse ++ [name]) proptree) path =
            proptree.slot path := lookup_unlink_leaf distinct found
        have later := ih (distinct_unlink (above.reverse ++ [name]) distinct)
          (fun path => by rw [same]; exact unlocked path)
        rw [step]
        exact ⟨fun path => (later.1 path).trans (same path), later.2⟩
      · rw [stays]
        exact ⟨fun _ => rfl, distinct⟩

theorem proptreeReset_spec {proptree : PropTree} {name : CString}
    (valid : propNameIsValid name = true) (distinct : Distinct proptree)
    (unlocked : ∀ path, (proptree.slot path).locked = false)
    (set : (proptree.slot (nameParts name)).value.isSet = true) :
    ∃ after, proptreeReset proptree name = some after ∧ Distinct after ∧
      ∀ path, after.slot path = if path = nameParts name then
        (proptree.slot path).withValue .invalid else proptree.slot path := by
  cases found : descend proptree (nameParts name) with
  | none =>
      rw [PropTree.slot, lookup_of_missing found] at set
      cases set
  | some node =>
      obtain ⟨key, prop, children⟩ := node
      have here : proptree.slot (nameParts name) = prop := lookup_of_descend found
      rw [here] at set
      have looked : proptreeLookupNode proptree name = some (.node key prop children) :=
        proptreeLookupNode_some.mpr ⟨valid, found⟩
      rw [proptreeReset, looked]
      simp only [set, ↓reduceIte]
      by_cases kept : (!children.isEmpty || prop.systemValue.isSet) = true
      · rw [if_pos kept]
        refine ⟨_, rfl, distinct_update _ _ distinct, ?_⟩
        intro path
        rw [PropTree.slot, lookup_update .blank _ found path]
        split
        · next same => rw [same, here]; rfl
        · rfl
      · rw [if_neg kept]
        simp only [Bool.or_eq_true, Bool.not_eq_true', not_or, Bool.not_eq_false,
          Bool.not_eq_true, List.isEmpty_iff, GValue.isSet_eq_false] at kept
        obtain ⟨rfl, system⟩ := kept
        have full := nameParts_ne_nil valid
        have open' : prop.locked = false := by rw [← here]; exact unlocked _
        have after : ∀ path, PropTree.slot (unlink (nameParts name) proptree) path =
            if path = nameParts name then (proptree.slot path).withValue .invalid
            else proptree.slot path := by
          intro path
          by_cases inside : nameParts name <+: path
          · obtain ⟨rest, rfl⟩ := inside
            rw [PropTree.slot, lookup_of_missing (descend_unlink_inside distinct full rest)]
            cases rest with
            | nil =>
                have empty : (prop.withValue .invalid).valueless = true := by
                  simp [EsconfProperty.valueless, system]
                rw [List.append_nil, if_pos rfl, here]
                exact (EsconfProperty.valueless_unlocked empty open').symm
            | cons step rest =>
                rw [if_neg (by simp), PropTree.slot, lookup_of_missing]
                rw [descend_append, found]
                rfl
          · rw [PropTree.slot, lookup_unlink_outside .blank proptree inside, if_neg]
            · rfl
            · rintro rfl
              exact inside (List.prefix_refl _)
        have unlocked' : ∀ path, (PropTree.slot (unlink (nameParts name) proptree) path).locked =
            false := by
          intro path
          rw [after path]
          split <;> exact unlocked path
        have loop := removeParents_slot (nameParts name).reverse.tail
          (distinct_unlink (nameParts name) distinct) unlocked'
        exact ⟨_, rfl, loop.2, fun path => (loop.1 path).trans (after path)⟩

theorem proptreeReset_unset {proptree : PropTree} {name : CString}
    (unset : (proptree.slot (nameParts name)).value.isSet = false) :
    proptreeReset proptree name = none := by
  unfold proptreeReset
  split
  · rfl
  · next key prop children looked =>
      have here : proptree.slot (nameParts name) = prop :=
        lookup_of_descend (proptreeLookupNode_some.mp looked).2
      rw [here] at unset
      rw [unset]
      rfl

theorem distinct_nodesDoPropReset {proptree : PropTree} (path : List CString)
    (distinct : Distinct proptree) : Distinct (change nodesDoPropReset path proptree) := by
  apply Distinct.alterAt (mapData_keepsKey _) distinct _ (alterAt_change _ _ proptree)
  intro sub sub' _ here done
  cases done
  exact distinct_mapData _ here

theorem descend_nodesDoPropReset_top {proptree top : PropTree} {path : List CString}
    (found : descend proptree path = some top) :
    descend (change nodesDoPropReset path proptree) path = some (nodesDoPropReset top) := by
  have keeps : KeepsKey fun sub : PropTree => some (nodesDoPropReset sub) := mapData_keepsKey _
  have moved := descend_change_inside keeps found []
  rwa [List.append_nil] at moved

theorem descend_nodesCleanUp_outside (proptree : PropTree) {path other : List CString}
    (outside : ¬ path <+: other) :
    (descend ((alterAt nodesCleanUp path (change nodesDoPropReset path proptree)).getD
      (change nodesDoPropReset path proptree)) other).map NamedTree.data =
      (descend proptree other).map NamedTree.data := by
  have cleared := descend_alterAt_outside (mapData_keepsKey _)
    (alterAt_change nodesDoPropReset path proptree) outside
  cases done : alterAt nodesCleanUp path (change nodesDoPropReset path proptree) with
  | none => exact cleared
  | some after =>
      rw [← cleared]
      exact descend_alterAt_outside (prune_keepsKey _) done outside

theorem distinct_resetBelow {proptree : PropTree} (name : CString) (distinct : Distinct proptree) :
    Distinct (resetBelow proptree name) := by
  have cleared := distinct_nodesDoPropReset (nameParts name) distinct
  change Distinct ((alterAt nodesCleanUp _ (change _ _ _)).getD (change _ _ _))
  cases done : alterAt nodesCleanUp (nameParts name)
      (change nodesDoPropReset (nameParts name) proptree) with
  | none => exact cleared
  | some after =>
      refine Distinct.alterAt (prune_keepsKey _) cleared ?_ done
      intro sub sub' _ here kept
      exact distinct_prune here sub' kept

theorem alterAt_nonroot {f : PropTree → Option PropTree} {path : List CString} (full : path ≠ [])
    (proptree : PropTree) : ∃ after, alterAt f path proptree = some after := by
  cases path with
  | nil => exact absurd rfl full
  | cons name rest => obtain ⟨key, prop, children⟩ := proptree; exact ⟨_, rfl⟩

/-- A recursive reset erases the user values at and below its name, and nothing else. -/
theorem resetBelow_slot {proptree : PropTree} {name : CString} (valid : propNameIsValid name = true)
    (distinct : Distinct proptree) (path : List CString) :
    (resetBelow proptree name).slot path = if nameParts name <+: path then
      (proptree.slot path).withValue .invalid else proptree.slot path := by
  have full := nameParts_ne_nil valid
  cases found : descend proptree (nameParts name) with
  | none =>
      have idle : change nodesDoPropReset (nameParts name) proptree = proptree :=
        change_missing _ found
      have same : resetBelow proptree name = proptree := by
        change (alterAt nodesCleanUp _ (change _ _ _)).getD (change _ _ _) = _
        rw [idle, alterAt_missing found]
        rfl
      rw [same]
      split
      · next inside =>
          obtain ⟨rest, rfl⟩ := inside
          have gone : descend proptree (nameParts name ++ rest) = none := by
            rw [descend_append, found]
            rfl
          rw [PropTree.slot, lookup_of_missing gone]
          rfl
      · rfl
  | some top =>
      have cleared := descend_nodesDoPropReset_top found
      have distinct' := distinct_nodesDoPropReset (nameParts name) distinct
      obtain ⟨after, done⟩ := alterAt_nonroot (f := nodesCleanUp) full
        (change nodesDoPropReset (nameParts name) proptree)
      have result : resetBelow proptree name = after := by
        change (alterAt nodesCleanUp _ (change _ _ _)).getD (change _ _ _) = _
        rw [done]
        rfl
      rw [result]
      split
      · next inside =>
          obtain ⟨rest, rfl⟩ := inside
          rw [PropTree.slot, lookup_alterAt_inside (prune_keepsKey _) .blank distinct' done cleared,
            lookup_prune EsconfProperty.dangling_blank (distinct'.descend cleared)]
          rw [PropTree.slot, lookup, lookup, descend_append, found, Option.bind_some,
            nodesDoPropReset, descend_mapData]
          cases descend top rest with
          | none => rfl
          | some sub => simp [mapData_data]
      · next outside =>
          have same := descend_nodesCleanUp_outside proptree outside
          rw [done, Option.getD_some] at same
          rw [PropTree.slot, lookup, same]
          rfl

end Esconf
