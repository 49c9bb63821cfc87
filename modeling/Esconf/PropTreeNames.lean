import Esconf.PropTree
import Esconf.Library.TreeWalk

/-! Property trees in which every node has a full name of its own. -/

namespace Esconf

open NamedTree

/-- The trees of the backend: below the root, which is named "/" and never holds
anything, every node has a valid full name that fits into the path buffers. -/
structure WellNamed (tree : PropTree) : Prop where
  root : tree.key = "/".toList
  blank : tree.data = .blank
  distinct : Distinct tree
  plain : ∀ path node, descend tree path = some node → SeparatedWords.Plain '/' path
  valid : ∀ path node, path ≠ [] → descend tree path = some node →
    propNameIsValid (partsName path) = true
  short : ∀ path node, descend tree path = some node → (partsName path).length < maxPropPath

/-- Components that are not empty and have no slash make valid full names. It is
enough to look at what a walk over the tree visits. -/
theorem wellNamed_of_names {tree : PropTree} (root : tree.key = "/".toList)
    (blank : tree.data = .blank) (distinct : Distinct tree)
    (names : ∀ visited ∈ preorder [] tree,
      (∀ name ∈ visited.1, name ≠ [] ∧ '/' ∉ name) ∧ (partsName visited.1).length < maxPropPath) :
    WellNamed tree := by
  have visits : ∀ path node, descend tree path = some node → (path, node.data) ∈ preorder [] tree := by
    intro path node found
    exact (mem_preorder distinct).mpr ⟨path, node, rfl, found, rfl⟩
  refine ⟨root, blank, distinct, ?_, ?_, ?_⟩
  · intro path node found name member
    exact ((names _ (visits path node found)).1 name member).2
  · intro path node full found
    exact propNameIsValid_partsName full (names _ (visits path node found)).1
  · intro path node found
    exact (names _ (visits path node found)).2

/-- A tree has no nodes but those of another and the ones on the way to given paths. -/
structure Grown (paths : List (List CString)) (before after : PropTree) : Prop where
  distinct : Distinct before → Distinct after
  nodes : ∀ path, (descend after path).isSome = true →
    (descend before path).isSome = true ∨ ∃ parts ∈ paths, path <+: parts

theorem Grown.refl (tree : PropTree) : Grown [] tree tree :=
  ⟨id, fun _ there => Or.inl there⟩

theorem Grown.trans {first second : List (List CString)} {before middle after : PropTree}
    (one : Grown first before middle) (two : Grown second middle after) :
    Grown (first ++ second) before after := by
  constructor
  · exact fun distinct => two.distinct (one.distinct distinct)
  · intro path there
    rcases two.nodes path there with old | ⟨parts, member, below⟩
    · rcases one.nodes path old with older | ⟨parts, member, below⟩
      · exact Or.inl older
      · exact Or.inr ⟨parts, List.mem_append_left _ member, below⟩
    · exact Or.inr ⟨parts, List.mem_append_right _ member, below⟩

theorem Grown.update (g : EsconfProperty → EsconfProperty) (path : List CString)
    (tree : PropTree) : Grown [] tree (update g path tree) := by
  constructor
  · exact distinct_update g path
  · intro other there
    rw [isSome_descend_update] at there
    exact Or.inl there

theorem Grown.add {tree grown : PropTree} {name : CString} {value : GValue} {locked : Bool}
    (valid : propNameIsValid name = true) (short : name.length < maxPropPath)
    (fresh : proptreeLookup tree name = none)
    (done : proptreeAddProperty tree name value locked = some grown) :
    Grown [nameParts name] tree grown := by
  obtain ⟨other, done', _, _, distinct⟩ := proptreeAddProperty_spec value locked valid short fresh
  have same : grown = other := Option.some.inj (done.symm.trans done')
  constructor
  · rw [same]
    exact distinct
  · intro path there
    rcases proptreeAddProperty_nodes valid short fresh done there with old | new
    · exact Or.inl old
    · exact Or.inr ⟨_, List.mem_singleton_self _, new⟩

end Esconf
