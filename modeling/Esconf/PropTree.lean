import Esconf.Library.TreeUpdates
import Esconf.GValue

/-! The property tree of a channel: `esconf_proptree_*` and the two traversals
of a recursive reset in `esconfd/esconf-backend-perchannel-xml.c`. -/

namespace Esconf

open NamedTree

/-- The fields of an `EsconfProperty` besides its name, which is the key of its node. -/
structure EsconfProperty where
  value : GValue
  systemValue : GValue
  locked : Bool
  deriving DecidableEq

namespace EsconfProperty

def blank : EsconfProperty := ⟨.invalid, .invalid, false⟩

def withValue (value : GValue) (prop : EsconfProperty) : EsconfProperty := { prop with value := value }

def withSystemValue (value : GValue) (prop : EsconfProperty) : EsconfProperty :=
  { prop with systemValue := value }

def withLocked (locked : Bool) (prop : EsconfProperty) : EsconfProperty :=
  { prop with locked := locked }

/-- The GValue the getters copy: the user value if set, else the system value. -/
def effective (prop : EsconfProperty) : GValue :=
  if prop.value.isSet then prop.value else prop.systemValue

/-- The condition of `nodes_clean_up` besides having no children. -/
def dangling (prop : EsconfProperty) : Bool :=
  !prop.value.isSet && !prop.systemValue.isSet && !prop.locked

theorem dangling_blank (prop : EsconfProperty) (dangles : prop.dangling = true) : prop = blank := by
  obtain ⟨value, systemValue, locked⟩ := prop
  simp only [dangling, Bool.and_eq_true, Bool.not_eq_true', GValue.isSet_eq_false] at dangles
  obtain ⟨⟨rfl, rfl⟩, rfl⟩ := dangles
  rfl

end EsconfProperty

abbrev PropTree := NamedTree CString EsconfProperty

def PropTree.root : PropTree := .node "/".toList .blank []

/-- The slot a path of components leads to. -/
def PropTree.slot (proptree : PropTree) (path : List CString) : EsconfProperty :=
  lookup .blank proptree path

/-- `esconf_proptree_lookup_node`. -/
def proptreeLookupNode (proptree : PropTree) (name : CString) : Option PropTree :=
  if propNameIsValid name then descend proptree (nameParts name) else none

/-- `esconf_proptree_lookup`. -/
def proptreeLookup (proptree : PropTree) (name : CString) : Option EsconfProperty :=
  (proptreeLookupNode proptree name).map NamedTree.data

/-- `esconf_proptree_add_property`, the recursion for missing ancestors bounded
by `fuel`; `none` is the refused name. A node appended to a missing parent is
in no tree. -/
def addPropertyWithin : Nat → PropTree → CString → EsconfProperty → Option PropTree
  | 0, _, _, _ => none
  | fuel + 1, proptree, name, prop =>
    if propNameIsValid name then
      let tmp := uptoLastSlash (gStrlcpy name maxPropPath)
      let node : PropTree := .node (pastLastSlash name) prop []
      if tmp = [] then some (graft [] node proptree)
      else match proptreeLookupNode proptree tmp with
        | some _ => some (graft (nameParts tmp) node proptree)
        | none =>
          -- Whether adding the parent succeeds is not looked at.
          let grown := (addPropertyWithin fuel proptree tmp .blank).getD proptree
          some (graft (nameParts tmp) node grown)
    else none

/-- Each round drops a component, so the length of the name bounds the rounds. -/
def proptreeAddProperty (proptree : PropTree) (name : CString) (value : GValue) (locked : Bool) :
    Option PropTree :=
  addPropertyWithin name.length proptree name ⟨value, .invalid, locked⟩

/-- The upward loop of `esconf_proptree_reset` from the parent whose path, read
upward, is given. It stops at the root, which is named "/". -/
def removeParents : List CString → PropTree → PropTree
  | [], proptree => proptree
  | name :: above, proptree =>
    match descend proptree (name :: above).reverse with
    | some (.node key prop []) =>
      if !prop.value.isSet && !prop.systemValue.isSet && key != "/".toList then
        removeParents above (unlink (name :: above).reverse proptree)
      else proptree
    | _ => proptree

/-- `esconf_proptree_reset`; `none` is its FALSE. -/
def proptreeReset (proptree : PropTree) (name : CString) : Option PropTree :=
  match proptreeLookupNode proptree name with
  | none => none
  | some (.node _ prop children) =>
    if prop.value.isSet then
      if !children.isEmpty || prop.systemValue.isSet then
        some (update (·.withValue .invalid) (nameParts name) proptree)
      else
        some (removeParents (nameParts name).reverse.tail (unlink (nameParts name) proptree))
    else none

/-- `nodes_do_prop_reset` on every node of a subtree. -/
def nodesDoPropReset (top : PropTree) : PropTree := mapData (·.withValue .invalid) top

/-- `nodes_clean_up` on every node of a subtree, children first. -/
def nodesCleanUp (top : PropTree) : Option PropTree := prune EsconfProperty.dangling top

def resetBelow (proptree : PropTree) (name : CString) : PropTree :=
  let cleared := change nodesDoPropReset (nameParts name) proptree
  (alterAt nodesCleanUp (nameParts name) cleared).getD cleared

/-- `esconf_proptree_build_propname` for a node with the given names from itself
up to the root. -/
def proptreeBuildPropname (upward : List CString) : CString :=
  -- A name of one character is taken for the root.
  (upward.takeWhile fun name => decide (2 ≤ name.length)).reverse.foldl
    (fun buf name => gStrlcat (gStrlcat buf "/".toList maxPropPath) name maxPropPath) []

mutual

/-- The names `nodes_do_prop_reset` reports, in post-order. -/
def resetNotices (above : List CString) : PropTree → List CString
  | .node key prop children =>
    resetNoticesAll (key :: above) children ++
      if prop.value.isSet then [proptreeBuildPropname (key :: above)] else []

def resetNoticesAll (above : List CString) : List PropTree → List CString
  | [] => []
  | child :: rest => resetNotices above child ++ resetNoticesAll above rest

end

theorem proptreeLookupNode_some {proptree node : PropTree} {name : CString} :
    proptreeLookupNode proptree name = some node ↔
      propNameIsValid name = true ∧ descend proptree (nameParts name) = some node := by
  unfold proptreeLookupNode
  split <;> simp_all

theorem proptreeLookup_some {proptree : PropTree} {name : CString} {prop : EsconfProperty} :
    proptreeLookup proptree name = some prop ↔ propNameIsValid name = true ∧
      ∃ node, descend proptree (nameParts name) = some node ∧ node.data = prop := by
  simp only [proptreeLookup, Option.map_eq_some_iff, proptreeLookupNode_some]
  constructor
  · rintro ⟨node, ⟨valid, found⟩, rfl⟩
    exact ⟨valid, node, found, rfl⟩
  · rintro ⟨valid, node, found, rfl⟩
    exact ⟨node, ⟨valid, found⟩, rfl⟩

theorem proptreeLookup_slot {proptree : PropTree} {name : CString} {prop : EsconfProperty}
    (found : proptreeLookup proptree name = some prop) : proptree.slot (nameParts name) = prop := by
  obtain ⟨_, node, here, rfl⟩ := proptreeLookup_some.mp found
  exact lookup_of_descend here

theorem proptreeLookup_none_slot {proptree : PropTree} {name : CString}
    (valid : propNameIsValid name = true) (missing : proptreeLookup proptree name = none) :
    proptree.slot (nameParts name) = .blank := by
  rw [proptreeLookup, Option.map_eq_none_iff, proptreeLookupNode, if_pos valid] at missing
  exact lookup_of_missing missing

theorem nameParts_partsName {parts : List CString} (plain : SeparatedWords.Plain '/' parts)
    (valid : propNameIsValid (partsName parts) = true) : nameParts (partsName parts) = parts :=
  SeparatedWords.join_inj (nameParts_plain _) plain (partsName_nameParts valid)

theorem propNameIsValid_front {front : List CString} {last : CString} (full : front ≠ [])
    (valid : propNameIsValid (partsName (front ++ [last])) = true) :
    propNameIsValid (partsName front) = true := by
  obtain ⟨_, _, _, clean⟩ := propNameIsValid_iff.mp valid
  have cut : partsName front = (partsName (front ++ [last])).take (partsName front).length := by
    rw [partsName_snoc, List.take_left']
    rfl
  have clean' : hasDoubleSlash (partsName front) = false := by
    rw [cut]
    exact hasDoubleSlash_take clean _
  cases front with
  | nil => exact absurd rfl full
  | cons piece rest =>
      cases piece with
      | cons c more =>
          exact propNameIsValid_iff.mpr ⟨c, more ++ partsName rest, rfl, clean'⟩
      | nil =>
          exfalso
          have start : ∃ later, partsName (([] :: rest) ++ [last]) = '/' :: '/' :: later := by
            cases rest with
            | nil => exact ⟨last, by simp [partsName]⟩
            | cons next rest => exact ⟨next ++ partsName (rest ++ [last]), by simp [partsName]⟩
          obtain ⟨later, shape⟩ := start
          rw [shape] at clean
          simp [hasDoubleSlash] at clean

theorem partsName_length (parts : List CString) : parts.length ≤ (partsName parts).length := by
  induction parts with
  | nil => simp
  | cons piece rest ih =>
      rw [partsName, SeparatedWords.join_cons]
      simp only [List.length_cons, List.cons_append, List.length_append]
      rw [partsName] at ih
      omega

/-- The buffer holds the parent's name if it fits with its slash. -/
theorem uptoLastSlash_cut {front : List CString} (last : CString) (plain : '/' ∉ last)
    (short : (partsName front).length + 1 < maxPropPath) :
    uptoLastSlash (gStrlcpy (partsName (front ++ [last])) maxPropPath) = partsName front := by
  obtain ⟨room, enough⟩ : ∃ room, maxPropPath - 1 = (partsName front).length + (room + 1) :=
    ⟨maxPropPath - 1 - (partsName front).length - 1, by omega⟩
  rw [partsName_snoc, gStrlcpy, enough, List.take_append, List.take_of_length_le (by omega),
    Nat.add_sub_cancel_left, List.take_succ_cons]
  exact SeparatedWords.beforeLast_snoc _ _ fun member => plain (List.take_subset _ _ member)

theorem partsName_dropLast {parts : List CString} (full : parts ≠ [])
    (short : (partsName parts).length + 1 < maxPropPath) :
    (partsName parts.dropLast).length + 1 < maxPropPath := by
  rcases List.eq_nil_or_concat parts with none | ⟨front, last, rfl⟩
  · exact absurd none full
  · rw [List.concat_eq_append] at short ⊢
    rw [partsName_snoc, List.length_append, List.length_cons] at short
    rw [List.dropLast_concat]
    omega

theorem addPropertyWithin_snoc (fuel : Nat) (proptree : PropTree) {front : List CString}
    {last : CString} (prop : EsconfProperty)
    (plain : SeparatedWords.Plain '/' (front ++ [last]))
    (valid : propNameIsValid (partsName (front ++ [last])) = true)
    (short : (partsName front).length + 1 < maxPropPath) :
    addPropertyWithin (fuel + 1) proptree (partsName (front ++ [last])) prop =
      some (graft front (.node last prop [])
        (if (descend proptree front).isSome then proptree
          else (addPropertyWithin fuel proptree (partsName front) .blank).getD proptree)) := by
  obtain ⟨plainFront, plainLast⟩ := SeparatedWords.plain_append.mp plain
  have lastPlain : '/' ∉ last := plainLast last (by simp)
  rw [addPropertyWithin, if_pos valid, uptoLastSlash_cut last lastPlain short,
    pastLastSlash_snoc front last lastPlain]
  by_cases top : front = []
  · subst top
    rfl
  · have validFront := propNameIsValid_front top valid
    have names := nameParts_partsName plainFront validFront
    have nonempty : partsName front ≠ [] := by
      intro empty
      rw [empty] at validFront
      cases validFront
    simp only [nonempty, ↓reduceIte, names]
    rw [proptreeLookupNode, if_pos validFront, names]
    cases descend proptree front <;> rfl

theorem addPropertyWithin_spec {fuel : Nat} {proptree : PropTree} {parts : List CString}
    (prop : EsconfProperty) (enough : parts.length ≤ fuel) (plain : SeparatedWords.Plain '/' parts)
    (valid : propNameIsValid (partsName parts) = true)
    (short : (partsName parts.dropLast).length + 1 < maxPropPath)
    (fresh : descend proptree parts = none) :
    ∃ grown, addPropertyWithin fuel proptree (partsName parts) prop = some grown ∧
      (∃ name, descend grown parts = some (.node name prop [])) ∧
      (∀ path, grown.slot path = if path = parts then prop else proptree.slot path) ∧
      (Distinct proptree → Distinct grown) ∧
      ∀ path, (descend grown path).isSome → (descend proptree path).isSome ∨ path <+: parts := by
  induction fuel generalizing parts prop with
  | zero =>
      have none : parts = [] := List.length_eq_zero_iff.mp (Nat.le_zero.mp enough)
      subst none
      cases fresh
  | succ fuel ih =>
      rcases List.eq_nil_or_concat parts with rfl | ⟨front, last, rfl⟩
      · cases fresh
      rw [List.concat_eq_append] at *
      rw [List.dropLast_concat] at short
      have plainFront := (SeparatedWords.plain_append.mp plain).1
      rw [addPropertyWithin_snoc fuel proptree prop plain valid short]
      cases found : descend proptree front with
      | some parent =>
          rw [Option.isSome_some, if_pos rfl]
          refine ⟨_, rfl, ⟨last, descend_graft_new found fresh⟩, ?_,
            fun distinct => distinct_graft distinct fresh, ?_⟩
          · exact lookup_graft .blank found fresh
          · intro path there
            rcases descend_graft_isSome there with old | new
            · exact Or.inl old
            · exact Or.inr (new ▸ List.prefix_refl _)
      | none =>
          have top : front ≠ [] := by
            rintro rfl
            cases found
          have fewer : front.length ≤ fuel := by
            rw [List.length_append, List.length_singleton] at enough
            omega
          obtain ⟨middle, done, ⟨name, here⟩, slots, distinct, nodes⟩ :=
            ih .blank fewer plainFront (propNameIsValid_front top valid)
              (partsName_dropLast top short) found
          have leaf : descend middle (front ++ [last]) = none := by
            rw [descend_append, here]
            rfl
          have unchanged : ∀ path, middle.slot path = proptree.slot path := by
            intro path
            rw [slots path]
            split
            · next same => rw [same, PropTree.slot, lookup_of_missing found]
            · rfl
          rw [done, Option.isSome_none, if_neg Bool.false_ne_true, Option.getD_some]
          refine ⟨_, rfl, ⟨last, descend_graft_new here leaf⟩, ?_, ?_, ?_⟩
          · intro path
            rw [← unchanged path]
            exact lookup_graft .blank here leaf path
          · exact fun before => distinct_graft (distinct before) leaf
          · intro path there
            rcases descend_graft_isSome there with old | new
            · rcases nodes path old with before | above
              · exact Or.inl before
              · exact Or.inr (above.trans (List.prefix_append _ _))
            · exact Or.inr (new ▸ List.prefix_refl _)

theorem proptreeAddProperty_fits {proptree : PropTree} {name : CString} (value : GValue)
    (locked : Bool) (valid : propNameIsValid name = true)
    (short : (partsName (nameParts name).dropLast).length + 1 < maxPropPath)
    (fresh : proptreeLookup proptree name = none) :
    ∃ grown, proptreeAddProperty proptree name value locked = some grown ∧
      proptreeLookup grown name = some ⟨value, .invalid, locked⟩ ∧
      (∀ path, grown.slot path =
        if path = nameParts name then ⟨value, .invalid, locked⟩ else proptree.slot path) ∧
      (Distinct proptree → Distinct grown) := by
  have written := partsName_nameParts valid
  have absent : descend proptree (nameParts name) = none := by
    rwa [proptreeLookup, Option.map_eq_none_iff, proptreeLookupNode, if_pos valid] at fresh
  have enough : (nameParts name).length ≤ name.length := by
    have bound := partsName_length (nameParts name)
    rwa [written] at bound
  obtain ⟨grown, done, ⟨key, here⟩, slots, distinct, _⟩ :=
    addPropertyWithin_spec ⟨value, .invalid, locked⟩ enough (nameParts_plain name)
      (by rwa [written]) short absent
  rw [written] at done
  exact ⟨grown, done, proptreeLookup_some.mpr ⟨valid, _, here, rfl⟩, slots, distinct⟩

theorem short_parent {name : CString} (valid : propNameIsValid name = true)
    (short : name.length < maxPropPath) :
    (partsName (nameParts name).dropLast).length + 1 < maxPropPath := by
  rcases List.eq_nil_or_concat (nameParts name) with none | ⟨front, last, split⟩
  · exact absurd none (nameParts_ne_nil valid)
  · rw [List.concat_eq_append] at split
    have written := partsName_nameParts valid
    rw [split, partsName_snoc] at written
    rw [← written, List.length_append, List.length_cons] at short
    rw [split, List.dropLast_concat]
    omega

theorem proptreeAddProperty_spec {proptree : PropTree} {name : CString} (value : GValue)
    (locked : Bool) (valid : propNameIsValid name = true) (short : name.length < maxPropPath)
    (fresh : proptreeLookup proptree name = none) :
    ∃ grown, proptreeAddProperty proptree name value locked = some grown ∧
      proptreeLookup grown name = some ⟨value, .invalid, locked⟩ ∧
      (∀ path, grown.slot path =
        if path = nameParts name then ⟨value, .invalid, locked⟩ else proptree.slot path) ∧
      (Distinct proptree → Distinct grown) :=
  proptreeAddProperty_fits value locked valid (short_parent valid short) fresh

theorem proptreeAddProperty_nodes {proptree grown : PropTree} {name : CString} {value : GValue}
    {locked : Bool} (valid : propNameIsValid name = true) (short : name.length < maxPropPath)
    (fresh : proptreeLookup proptree name = none)
    (done : proptreeAddProperty proptree name value locked = some grown) {path : List CString}
    (there : (descend grown path).isSome = true) :
    (descend proptree path).isSome = true ∨ path <+: nameParts name := by
  have written := partsName_nameParts valid
  have absent : descend proptree (nameParts name) = none := by
    rwa [proptreeLookup, Option.map_eq_none_iff, proptreeLookupNode, if_pos valid] at fresh
  have enough : (nameParts name).length ≤ name.length := by
    have bound := partsName_length (nameParts name)
    rwa [written] at bound
  obtain ⟨other, done', _, _, _, nodes⟩ :=
    addPropertyWithin_spec ⟨value, .invalid, locked⟩ enough (nameParts_plain name)
      (by rwa [written]) (short_parent valid short) absent
  rw [written] at done'
  have same : grown = other := Option.some.inj (done.symm.trans done')
  rw [same] at there
  exact nodes path there

theorem addPropertyWithin_extends {fuel : Nat} {proptree grown : PropTree} {name : CString}
    {prop : EsconfProperty} (done : addPropertyWithin fuel proptree name prop = some grown) :
    Extends proptree grown := by
  induction fuel generalizing name prop grown with
  | zero => cases done
  | succ fuel ih =>
      rw [addPropertyWithin] at done
      split at done
      · simp only at done
        split at done
        · cases done; exact extends_graft _ _ _
        · split at done
          · cases done; exact extends_graft _ _ _
          · cases done
            refine Extends.trans ?_ (extends_graft _ _ _)
            cases inner : addPropertyWithin fuel proptree
              (uptoLastSlash (gStrlcpy name maxPropPath)) .blank with
            | none => exact Extends.refl proptree
            | some middle => exact ih inner
      · cases done

theorem proptreeAddProperty_extends {proptree grown : PropTree} {name : CString} {value : GValue}
    {locked : Bool} (done : proptreeAddProperty proptree name value locked = some grown) :
    Extends proptree grown :=
  addPropertyWithin_extends done

theorem proptreeAddProperty_valid {proptree grown : PropTree} {name : CString} {value : GValue}
    {locked : Bool} (done : proptreeAddProperty proptree name value locked = some grown) :
    propNameIsValid name = true := by
  unfold proptreeAddProperty at done
  cases length : name.length with
  | zero => rw [length] at done; cases done
  | succ fuel =>
      rw [length, addPropertyWithin] at done
      split at done
      · assumption
      · cases done

theorem slot_update (g : EsconfProperty → EsconfProperty) (path : List CString)
    (proptree : PropTree) (other : List CString) :
    PropTree.slot (update g path proptree) other =
      if other = path ∧ (descend proptree path).isSome then g (proptree.slot path)
      else proptree.slot other := by
  cases found : descend proptree path with
  | none =>
      have idle : update g path proptree = proptree := change_missing _ found
      rw [idle]
      simp
  | some node =>
      have here : proptree.slot path = node.data := lookup_of_descend found
      rw [PropTree.slot, lookup_update .blank g found other, here]
      simp [PropTree.slot]

theorem descend_update_isSome (g : EsconfProperty → EsconfProperty) (path other : List CString)
    (proptree : PropTree) (there : (descend proptree other).isSome) :
    (descend (update g path proptree) other).isSome := by
  obtain ⟨node, found⟩ := Option.isSome_iff_exists.mp there
  by_cases same : other = path
  · subst same
    rw [descend_update_self g found]
    rfl
  · obtain ⟨node', found', _⟩ := descend_update_ne g same found
    rw [found']
    rfl

end Esconf
