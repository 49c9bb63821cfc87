import Esconf.Backend

/-! Names of any length: which of them are found again once their property is added. -/

namespace Esconf

open NamedTree

/-- The property of a name is in the tree with its value, every other name has the property
it had, and siblings still have different names. -/
def AddsFindable (proptree : PropTree) (name : CString) (value : GValue) (locked : Bool) : Prop :=
  ∃ grown, proptreeAddProperty proptree name value locked = some grown ∧
    (∃ prop, proptreeLookup grown name = some prop ∧ prop.value = value) ∧
    (∀ other, other ≠ name → (proptreeLookup grown other).getD .blank =
      (proptreeLookup proptree other).getD .blank) ∧
    Distinct grown

theorem proptreeLookup_getD {proptree : PropTree} {name : CString}
    (valid : propNameIsValid name = true) :
    (proptreeLookup proptree name).getD .blank = proptree.slot (nameParts name) := by
  cases looked : proptreeLookup proptree name with
  | some prop => exact (proptreeLookup_slot looked).symm
  | none => exact (proptreeLookup_none_slot valid looked).symm

theorem proptreeLookup_invalid {proptree : PropTree} {name : CString}
    (wrong : ¬propNameIsValid name = true) : proptreeLookup proptree name = none := by
  rw [proptreeLookup, proptreeLookupNode, if_neg wrong]
  rfl

theorem names_above {name : CString} (valid : propNameIsValid name = true)
    {above : List CString} (below : above <+: nameParts name) (full : above ≠ []) :
    propNameIsValid (partsName above) = true ∧ nameParts (partsName above) = above := by
  obtain ⟨rest, whole⟩ := below
  have plain := nameParts_plain name
  rw [← whole] at plain
  have plainAbove := (SeparatedWords.plain_append.mp plain).1
  have written := partsName_nameParts valid
  have validAbove : propNameIsValid (partsName above) = true := by
    clear plain
    induction rest using List.reverseRecOn generalizing name with
    | nil =>
        rw [List.append_nil] at whole
        rw [whole, written]
        exact valid
    | append_singleton front last ih =>
        rw [← List.append_assoc] at whole
        have longer : above ++ front ≠ [] := by simp [full]
        have shorter : propNameIsValid (partsName (above ++ front)) = true := by
          apply propNameIsValid_front longer
          rw [whole, written]
          exact valid
        have plain' : SeparatedWords.Plain '/' (above ++ front) := by
          have all := nameParts_plain name
          rw [← whole] at all
          exact (SeparatedWords.plain_append.mp all).1
        exact ih shorter (nameParts_partsName plain' shorter).symm
          (partsName_nameParts shorter)
  exact ⟨validAbove, nameParts_partsName plainAbove validAbove⟩

/-- The names left in the buffer are those of a node above, of the parent if they fit. -/
theorem cut_parts {name : CString} (valid : propNameIsValid name = true) {front : List CString}
    {last : CString} (split : nameParts name = front ++ [last]) :
    ∃ above, above <+: nameParts name ∧ above.length ≤ front.length ∧
      uptoLastSlash (gStrlcpy name maxPropPath) = partsName above ∧
      (maxPropPath ≤ (partsName front).length + 1 → above.length < front.length) := by
  have written := partsName_nameParts valid
  have plain := nameParts_plain name
  rw [split] at plain
  obtain ⟨plainFront, plainLast⟩ := SeparatedWords.plain_append.mp plain
  by_cases fits : (partsName front).length + 1 < maxPropPath
  · refine ⟨front, ⟨[last], split.symm⟩, Nat.le_refl _, ?_, fun long => by omega⟩
    rw [← written, split]
    exact uptoLastSlash_cut last (plainLast last (by simp)) fits
  · have within : maxPropPath - 1 ≤ (partsName front).length := by omega
    have top : front ≠ [] := by
      intro none
      rw [none] at within
      exact absurd within (by decide)
    obtain ⟨above, below, shorter, same⟩ := uptoLastSlash_take plainFront top within
    refine ⟨above, below.trans ⟨[last], split.symm⟩, by omega, ?_, fun _ => shorter⟩
    rw [← same, gStrlcpy, ← written, split, partsName_snoc,
      List.take_append_of_le_length within]

theorem addPropertyWithin_depth {fuel : Nat} {proptree grown : PropTree} {name : CString}
    {prop : EsconfProperty} (done : addPropertyWithin fuel proptree name prop = some grown)
    {path : List CString} (there : (descend grown path).isSome = true) :
    (descend proptree path).isSome = true ∨ path.length ≤ (nameParts name).length ∧
      (maxPropPath ≤ (partsName (nameParts name).dropLast).length + 1 →
        path.length < (nameParts name).length) := by
  induction fuel generalizing name prop grown path with
  | zero => cases done
  | succ fuel ih =>
      rw [addPropertyWithin] at done
      split at done
      · next valid =>
          obtain ⟨front, last, split⟩ : ∃ front last, nameParts name = front ++ [last] :=
            ⟨_, _, (List.dropLast_append_getLast (nameParts_ne_nil valid)).symm⟩
          have size : (nameParts name).length = front.length + 1 := by simp [split]
          obtain ⟨above, below, depth, same, deep⟩ := cut_parts valid split
          have drop : (nameParts name).dropLast = front := by rw [split, List.dropLast_concat]
          -- A node that is no old one is the leaf below the node above.
          have leaf : path = above ++ [pastLastSlash name] →
              path.length ≤ (nameParts name).length ∧
                (maxPropPath ≤ (partsName (nameParts name).dropLast).length + 1 →
                  path.length < (nameParts name).length) := by
            intro new
            rw [new, List.length_append, List.length_singleton, drop, size]
            constructor
            · omega
            · intro long
              have := deep long
              omega
          simp only [same] at done
          split at done
          · next top =>
              cases done
              have none : above = [] := by
                cases above with
                | nil => rfl
                | cons first rest => cases top
              rcases descend_graft_isSome there with old | new
              · exact Or.inl old
              · exact Or.inr (leaf (by rw [new, none]))
          · next nonempty =>
              have inside : above ≠ [] := fun none => nonempty (by rw [none]; rfl)
              obtain ⟨validAbove, names⟩ := names_above valid below inside
              rw [names] at done
              split at done
              · cases done
                rcases descend_graft_isSome there with old | new
                · exact Or.inl old
                · exact Or.inr (leaf new)
              · cases done
                rcases descend_graft_isSome there with old | new
                · cases inner : addPropertyWithin fuel proptree (partsName above) .blank with
                  | none =>
                      rw [inner] at old
                      exact Or.inl old
                  | some middle =>
                      rw [inner] at old
                      rcases ih inner old with before | ⟨bound, _⟩
                      · exact Or.inl before
                      · rw [names] at bound
                        exact Or.inr ⟨by omega, fun _ => by omega⟩
                · exact Or.inr (leaf new)
      · cases done

theorem uptoLastSlash_parts {name : CString} (valid : propNameIsValid name = true) :
    uptoLastSlash name = partsName (nameParts name).dropLast := by
  have full := nameParts_ne_nil valid
  have written := partsName_nameParts valid
  have plain := nameParts_plain name
  obtain ⟨front, last, split⟩ : ∃ front last, nameParts name = front ++ [last] :=
    ⟨_, _, (List.dropLast_append_getLast full).symm⟩
  rw [split] at plain written ⊢
  rw [List.dropLast_concat, ← written]
  exact uptoLastSlash_snoc front last ((SeparatedWords.plain_append.mp plain).2 last (by simp))

/-- A new property is found under its name exactly if what stands before the last slash
fits into the path buffer with that slash. -/
theorem add_findable_iff (proptree : PropTree) (name : CString) (value : GValue) (locked : Bool)
    (distinct : Distinct proptree) (accepted : esconfPropertyIsValid name = none)
    (fresh : proptreeLookup proptree name = none) :
    AddsFindable proptree name value locked ↔ (uptoLastSlash name).length + 1 < maxPropPath := by
  have valid := propNameIsValid_of_property accepted
  rw [uptoLastSlash_parts valid]
  constructor
  · intro findable
    obtain ⟨grown, done, ⟨prop, found, _⟩, _⟩ := findable
    by_contra long
    obtain ⟨_, node, here, _⟩ := proptreeLookup_some.mp found
    rcases addPropertyWithin_depth done (by rw [here]; rfl) with old | ⟨_, deep⟩
    · obtain ⟨node, there⟩ := Option.isSome_iff_exists.mp old
      have looked : proptreeLookup proptree name = some node.data :=
        proptreeLookup_some.mpr ⟨valid, node, there, rfl⟩
      rw [fresh] at looked
      cases looked
    · exact Nat.lt_irrefl _ (deep (by omega))
  · intro fits
    obtain ⟨grown, done, found, slots, kept⟩ :=
      proptreeAddProperty_fits value locked valid fits fresh
    refine ⟨grown, done, ⟨_, found, rfl⟩, ?_, kept distinct⟩
    intro other apart
    by_cases plain : propNameIsValid other = true
    · rw [proptreeLookup_getD plain, proptreeLookup_getD plain, slots, if_neg]
      exact fun same => apart (nameParts_inj plain valid same)
    · rw [proptreeLookup_invalid plain, proptreeLookup_invalid plain]

section Boundary

/-- A name of two components, the first of `n` letters. -/
def longName (n : Nat) : CString := partsName [List.replicate n 'a', "b".toList]

theorem propertyTailError_letters (n : Nat) (rest : CString) :
    propertyTailError 'a' (List.replicate n 'a' ++ rest) = propertyTailError 'a' rest := by
  induction n with
  | zero => rfl
  | succ n ih =>
      rw [List.replicate_succ, List.cons_append, propertyTailError, if_neg (by decide),
        if_neg (by decide)]
      exact ih

theorem longName_accepted {n : Nat} (full : 0 < n) : esconfPropertyIsValid (longName n) = none := by
  obtain ⟨m, rfl⟩ : ∃ m, n = m + 1 := ⟨n - 1, by omega⟩
  have shape : longName (m + 1) = '/' :: 'a' :: (List.replicate m 'a' ++ "/b".toList) := by
    simp [longName, partsName, List.replicate_succ]
  rw [shape, esconfPropertyIsValid, if_neg (by decide), if_neg (by simp), propertyTailError,
    if_neg (by decide), if_neg (by decide), propertyTailError_letters]
  rfl

theorem longName_upto (n : Nat) : (uptoLastSlash (longName n)).length = n + 1 := by
  have cut := uptoLastSlash_snoc [List.replicate n 'a'] "b".toList (by decide)
  have same : longName n = partsName ([List.replicate n 'a'] ++ ["b".toList]) := rfl
  rw [same, cut]
  simp [partsName]

theorem longName_fresh (n : Nat) : proptreeLookup .root (longName n) = none := by
  cases looked : proptreeLookup .root (longName n) with
  | none => rfl
  | some prop =>
      obtain ⟨valid, node, here, _⟩ := proptreeLookup_some.mp looked
      cases parts : nameParts (longName n) with
      | nil => exact absurd parts (nameParts_ne_nil valid)
      | cons name rest =>
          rw [parts] at here
          cases here

theorem distinct_root : Distinct PropTree.root := .node (by simp) nofun

/-- A name whose last slash is the first character behind the buffer is not found again. -/
theorem long_name_not_found :
    Distinct PropTree.root ∧ esconfPropertyIsValid (longName 4094) = none ∧
      proptreeLookup .root (longName 4094) = none ∧
      ¬AddsFindable .root (longName 4094) (.int 1) false := by
  refine ⟨distinct_root, longName_accepted (by omega), longName_fresh _, ?_⟩
  intro findable
  obtain ⟨grown, done, ⟨prop, found, _⟩, _⟩ := findable
  obtain ⟨valid, node, here, _⟩ := proptreeLookup_some.mp found
  have parts : (partsName (nameParts (longName 4094)).dropLast).length = 4095 := by
    rw [← uptoLastSlash_parts valid, longName_upto]
  rcases addPropertyWithin_depth done (by rw [here]; rfl) with old | ⟨_, deep⟩
  · obtain ⟨node, there⟩ := Option.isSome_iff_exists.mp old
    have looked : proptreeLookup .root (longName 4094) = some node.data :=
      proptreeLookup_some.mpr ⟨valid, node, there, rfl⟩
    rw [longName_fresh] at looked
    cases looked
  · rw [parts] at deep
    exact Nat.lt_irrefl _ (deep (by decide))

/-- One letter less, and the name is found although it has the length of the buffer. -/
theorem add_findable_boundary : AddsFindable .root (longName 4093) (.int 1) false := by
  apply (add_findable_iff .root (longName 4093) (.int 1) false distinct_root
    (longName_accepted (by omega)) (longName_fresh _)).mpr
  rw [longName_upto]
  decide

end Boundary

end Esconf
