import Esconf.PropTreeReset

/-! Which nodes of a property tree a reset keeps: all but the one it names, what
is below it, and the parents it leaves hollow. -/

namespace Esconf

open NamedTree

/-- A chain of only children along a path, all without values, down to a leaf
whose property is accepted. -/
def chainTo (tip : EsconfProperty → Bool) : List CString → PropTree → Bool
  | [], .node _ prop [] => tip prop
  | name :: rest, .node _ prop [child] =>
    prop.valueless && decide (child.key = name) && chainTo tip rest child
  | _, _ => false

/-- A leaf that `esconf_proptree_reset` unlinks. -/
def removableTip (prop : EsconfProperty) : Bool := prop.value.isSet && !prop.systemValue.isSet

theorem chainTo_valueless {tip : EsconfProperty → Bool} {name : CString} {rest : List CString}
    {node : PropTree} (chain : chainTo tip (name :: rest) node = true) :
    node.data.valueless = true := by
  obtain ⟨key, prop, children⟩ := node
  match children with
  | [] => cases chain
  | [child] =>
      simp only [chainTo, Bool.and_eq_true] at chain
      exact chain.1.1
  | _ :: _ :: _ => cases chain

theorem chainTo_of_unlink {tip : EsconfProperty → Bool} {front : List CString} {last : CString}
    {node : PropTree} {key : CString} {prop : EsconfProperty}
    (leaf : descend node (front ++ [last]) = some (.node key prop [])) (accepted : tip prop = true)
    (chain : chainTo EsconfProperty.valueless front (unlink (front ++ [last]) node) = true) :
    chainTo tip (front ++ [last]) node = true := by
  induction front generalizing node with
  | nil =>
      obtain ⟨top, here, children⟩ := node
      obtain ⟨child, found, step⟩ := Option.bind_eq_some_iff.mp leaf
      cases step
      change chainTo _ [] (.node top here (alterFirst last (fun _ => none) children)) = true at chain
      rw [children_node] at found
      cases children with
      | nil => cases found
      | cons first later =>
          by_cases same : first.key = last
          · rw [alterFirst, if_pos same, Option.toList_none, List.nil_append] at chain
            cases later with
            | nil =>
                simp only [child?, List.find?_cons, same, decide_true, Option.some.injEq] at found
                subst found
                simpa [chainTo, same, accepted] using chain
            | cons _ _ => cases chain
          · rw [alterFirst, if_neg same] at chain
            cases chain
  | cons name front ih =>
      obtain ⟨top, here, children⟩ := node
      obtain ⟨child, found, step⟩ := Option.bind_eq_some_iff.mp leaf
      rw [children_node] at found
      have inner : alterAt (fun _ => none) (front ++ [last]) child =
          some (unlink (front ++ [last]) child) := by
        cases front with
        | nil => exact alterAt_unlink child last []
        | cons next front => exact alterAt_unlink child next (front ++ [last])
      change chainTo _ (name :: front) (.node top here
        (alterFirst name (alterAt (fun _ => none) (front ++ [last])) children)) = true at chain
      cases children with
      | nil => cases found
      | cons first later =>
          by_cases same : first.key = name
          · simp only [child?, List.find?_cons, same, decide_true, Option.some.injEq] at found
            subst found
            rw [alterFirst, if_pos same, inner, Option.toList_some, List.singleton_append] at chain
            cases later with
            | nil =>
                simp only [chainTo, Bool.and_eq_true] at chain
                simp only [List.cons_append, chainTo, same, decide_true, Bool.and_true,
                  Bool.and_eq_true]
                exact ⟨chain.1.1, ih step chain.2⟩
            | cons _ _ => cases chain
          · rw [alterFirst, if_neg same] at chain
            generalize alterFirst name _ later = others at chain
            cases others with
            | nil => simp [chainTo, same] at chain
            | cons _ _ => cases chain

theorem removeParents_aside {upward path : List CString} {proptree node : PropTree}
    (aside : ¬ path <+: upward.reverse) (found : descend proptree path = some node) :
    ∃ node', descend (removeParents upward proptree) path = some node' ∧ node'.data = node.data := by
  induction upward generalizing proptree node with
  | nil => exact ⟨node, found, rfl⟩
  | cons name above ih =>
      rw [List.reverse_cons] at aside
      rcases removeParents_step name above proptree with ⟨key, prop, leaf, _, step⟩ | stays
      · have apart : path ≠ above.reverse ++ [name] := by
          rintro rfl
          exact aside (List.prefix_refl _)
        obtain ⟨middle, here, same⟩ := descend_unlink_leaf leaf apart found
        have aside' : ¬ path <+: above.reverse :=
          fun inside => aside (inside.trans (List.prefix_append _ _))
        obtain ⟨last, there, same'⟩ := ih aside' here
        rw [step]
        exact ⟨last, there, same'.trans same⟩
      · rw [stays]
        exact ⟨node, found, rfl⟩

theorem removeParents_below {path front : List CString} {proptree node : PropTree}
    (found : descend proptree path = some node)
    (solid : chainTo EsconfProperty.valueless front node = false) :
    ∃ node', descend (removeParents (path ++ front).reverse proptree) path = some node' ∧
      node'.data = node.data := by
  induction front using List.reverseRecOn generalizing proptree node with
  | nil =>
      rw [List.append_nil]
      rcases List.eq_nil_or_concat path with rfl | ⟨above, name, rfl⟩
      · exact ⟨node, found, rfl⟩
      rw [List.concat_eq_append] at found ⊢
      rw [List.reverse_append, List.reverse_singleton, List.singleton_append]
      rcases removeParents_step name above.reverse proptree with
        ⟨key, prop, leaf, empty, _⟩ | stays
      · rw [List.reverse_reverse, found] at leaf
        cases leaf
        rw [chainTo, empty] at solid
        cases solid
      · rw [stays]
        exact ⟨node, found, rfl⟩
  | append_singleton front name ih =>
      rw [← List.append_assoc, List.reverse_append, List.reverse_singleton,
        List.singleton_append]
      rcases removeParents_step name (path ++ front).reverse proptree with
        ⟨key, prop, leaf, empty, step⟩ | stays
      · rw [List.reverse_reverse, List.append_assoc] at leaf step
        have deeper : ∃ first rest, front ++ [name] = first :: rest := by
          cases front with
          | nil => exact ⟨name, [], rfl⟩
          | cons first rest => exact ⟨first, rest ++ [name], rfl⟩
        obtain ⟨first, rest, shape⟩ := deeper
        have here : descend (unlink (path ++ (front ++ [name])) proptree) path =
            some (unlink (front ++ [name]) node) := by
          rw [shape]
          exact descend_unlink_above found
        have below : descend node (front ++ [name]) = some (.node key prop []) := by
          rw [descend_append, found, Option.bind_some] at leaf
          exact leaf
        have solid' : chainTo EsconfProperty.valueless front (unlink (front ++ [name]) node) =
            false := by
          by_contra chain
          rw [chainTo_of_unlink below empty (by simpa using chain)] at solid
          cases solid
        obtain ⟨node', there, same⟩ := ih here solid'
        refine ⟨node', by rw [step]; exact there, same.trans ?_⟩
        rw [shape]
        obtain ⟨key, prop, children⟩ := node
        rfl
      · rw [stays]
        exact ⟨node, found, rfl⟩

theorem proptreeReset_keeps {proptree after node : PropTree} {name : CString}
    {path : List CString} (found : descend proptree path = some node)
    (apart : path ≠ nameParts name)
    (solid : ∀ rest, nameParts name = path ++ rest → chainTo removableTip rest node = false)
    (done : proptreeReset proptree name = some after) :
    ∃ node', descend after path = some node' ∧ node'.data = node.data := by
  unfold proptreeReset at done
  split at done
  · cases done
  · next key prop children looked =>
      have tip := (proptreeLookupNode_some.mp looked).2
      split at done
      · next set =>
          split at done
          · cases done
            exact descend_update_ne _ apart found
          · next bare =>
              cases done
              simp only [Bool.or_eq_true, Bool.not_eq_true', not_or, Bool.not_eq_false,
                Bool.not_eq_true, List.isEmpty_iff] at bare
              obtain ⟨rfl, system⟩ := bare
              have accepted : removableTip prop = true := by
                rw [removableTip, set, system]
                rfl
              rcases List.eq_nil_or_concat (nameParts name) with top | ⟨above, last, split⟩
              · rw [top]
                rw [top] at apart
                exact ⟨node, found, rfl⟩
              rw [List.concat_eq_append] at split
              rw [split] at tip apart solid ⊢
              rw [List.reverse_append, List.reverse_singleton, List.singleton_append,
                List.tail_cons]
              by_cases inside : path <+: above
              · obtain ⟨front, rfl⟩ := inside
                have below : descend node (front ++ [last]) = some (.node key prop []) := by
                  rw [List.append_assoc, descend_append, found, Option.bind_some] at tip
                  exact tip
                have deeper : ∃ first rest, front ++ [last] = first :: rest := by
                  cases front with
                  | nil => exact ⟨last, [], rfl⟩
                  | cons first rest => exact ⟨first, rest ++ [last], rfl⟩
                obtain ⟨first, rest, shape⟩ := deeper
                have here : descend (unlink (path ++ front ++ [last]) proptree) path =
                    some (unlink (front ++ [last]) node) := by
                  rw [List.append_assoc, shape]
                  exact descend_unlink_above found
                have solid' : chainTo EsconfProperty.valueless front
                    (unlink (front ++ [last]) node) = false := by
                  by_contra chain
                  have hollow := chainTo_of_unlink below accepted (by simpa using chain)
                  rw [solid (front ++ [last]) (List.append_assoc _ _ _)] at hollow
                  cases hollow
                obtain ⟨node', there, same⟩ := removeParents_below here solid'
                refine ⟨node', there, same.trans ?_⟩
                rw [shape]
                obtain ⟨key, prop, children⟩ := node
                rfl
              · obtain ⟨middle, here, same⟩ := descend_unlink_leaf tip apart found
                have aside : ¬ path <+: above.reverse.reverse := by
                  rw [List.reverse_reverse]
                  exact inside
                obtain ⟨node', there, same'⟩ := removeParents_aside aside here
                exact ⟨node', there, same'.trans same⟩
      · cases done

theorem resetBelow_aside {proptree : PropTree} {name : CString} {path : List CString}
    (aside : ¬ nameParts name <+: path) :
    (descend (resetBelow proptree name) path).map NamedTree.data =
      (descend proptree path).map NamedTree.data :=
  descend_nodesCleanUp_outside proptree aside

theorem resetBelow_keeps {proptree node : PropTree} {name : CString} {path : List CString}
    (inside : nameParts name <+: path) (found : descend proptree path = some node)
    (alive : (node.data.withValue .invalid).dangling = false) :
    ∃ node', descend (resetBelow proptree name) path = some node' ∧
      node'.data = node.data.withValue .invalid := by
  obtain ⟨rest, rfl⟩ := inside
  rw [descend_append] at found
  obtain ⟨top, here, below⟩ := Option.bind_eq_some_iff.mp found
  have cleared := descend_nodesDoPropReset_top here
  have below' : descend (nodesDoPropReset top) rest =
      some (mapData (·.withValue .invalid) node) := by
    rw [nodesDoPropReset, descend_mapData, below]
    rfl
  obtain ⟨top', kept, node', there, same⟩ :=
    descend_prune_alive below' (by rw [mapData_data]; exact alive)
  have done : ∃ after, alterAt nodesCleanUp (nameParts name)
      (change nodesDoPropReset (nameParts name) proptree) = some after := by
    cases parts : nameParts name with
    | nil =>
        rw [parts] at cleared
        exact ⟨top', by rw [alterAt, Option.some.inj cleared]; exact kept⟩
    | cons first later => exact alterAt_nonroot (by simp) _
  obtain ⟨after, done⟩ := done
  refine ⟨node', ?_, same.trans (mapData_data _ _)⟩
  change descend ((alterAt nodesCleanUp _ (change _ _ _)).getD (change _ _ _)) _ = _
  rw [done, Option.getD_some, descend_alterAt_inside (prune_keepsKey _) done cleared kept]
  exact there

end Esconf
