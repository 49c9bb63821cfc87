import Esconf.Library.NamedTree

/-! The nodes of a named tree in the two orders of a depth-first walk, each with
the path that leads to it. -/

namespace NamedTree

variable {κ α : Type}

mutual

/-- Every node before its children, below the path of the tree itself. -/
def preorder (path : List κ) : NamedTree κ α → List (List κ × α)
  | node _ data children => (path, data) :: preorderAll path children

def preorderAll (path : List κ) : List (NamedTree κ α) → List (List κ × α)
  | [] => []
  | child :: rest => preorder (path ++ [child.key]) child ++ preorderAll path rest

end

mutual

/-- Every node after its children, below the path of the tree itself. -/
def postorder (path : List κ) : NamedTree κ α → List (List κ × α)
  | node _ data children => postorderAll path children ++ [(path, data)]

def postorderAll (path : List κ) : List (NamedTree κ α) → List (List κ × α)
  | [] => []
  | child :: rest => postorder (path ++ [child.key]) child ++ postorderAll path rest

end

theorem mem_preorderAll {path : List κ} {children : List (NamedTree κ α)} {entry : List κ × α} :
    entry ∈ preorderAll path children ↔
      ∃ child ∈ children, entry ∈ preorder (path ++ [child.key]) child := by
  induction children with
  | nil => simp [preorderAll]
  | cons child rest ih => simp [preorderAll, ih]

theorem mem_postorderAll {path : List κ} {children : List (NamedTree κ α)} {entry : List κ × α} :
    entry ∈ postorderAll path children ↔
      ∃ child ∈ children, entry ∈ postorder (path ++ [child.key]) child := by
  induction children with
  | nil => simp [postorderAll]
  | cons child rest ih => simp [postorderAll, ih]

theorem mem_postorder {path : List κ} {tree : NamedTree κ α} {entry : List κ × α} :
    entry ∈ postorder path tree ↔ entry ∈ preorder path tree := by
  induction tree using byChildren generalizing path with
  | step key data children ih =>
      rw [postorder, preorder, List.mem_append, List.mem_singleton, List.mem_cons,
        mem_postorderAll, mem_preorderAll]
      constructor
      · intro visited
        rcases visited with ⟨child, member, below⟩ | here
        · exact Or.inr ⟨child, member, (ih child member).mp below⟩
        · exact Or.inl here
      · intro visited
        rcases visited with here | ⟨child, member, below⟩
        · exact Or.inr here
        · exact Or.inl ⟨child, member, (ih child member).mpr below⟩

variable [DecidableEq κ]

/-- A walk visits what can be descended to, under the path that leads there. -/
theorem mem_preorder {front : List κ} {tree : NamedTree κ α} (distinct : Distinct tree)
    {path : List κ} {data : α} :
    (path, data) ∈ preorder front tree ↔
      ∃ more node, path = front ++ more ∧ descend tree more = some node ∧ node.data = data := by
  induction tree using byChildren generalizing front with
  | step key here children ih =>
      rw [preorder, List.mem_cons, mem_preorderAll]
      constructor
      · intro visited
        rcases visited with top | ⟨child, member, below⟩
        · cases top
          exact ⟨[], _, (List.append_nil _).symm, descend_nil _, rfl⟩
        · obtain ⟨more, node, same, found, held⟩ :=
            (ih child member (distinct.child member)).mp below
          refine ⟨child.key :: more, node, ?_, ?_, held⟩
          · rw [same, List.append_assoc]
            rfl
          · have step : child? child.key children = some child :=
              child?_of_mem distinct.siblings member
            rw [descend_cons, children_node, step]
            exact found
      · intro reached
        obtain ⟨more, node, same, found, held⟩ := reached
        cases more with
        | nil =>
            cases found
            rw [List.append_nil] at same
            exact Or.inl (by rw [same, ← held, data_node])
        | cons name rest =>
            obtain ⟨child, step, later⟩ := Option.bind_eq_some_iff.mp found
            have member := child?_mem step
            have named := child?_key step
            refine Or.inr ⟨child, member, (ih child member (distinct.child member)).mpr ?_⟩
            refine ⟨rest, node, ?_, later, held⟩
            rw [same, named, List.append_assoc]
            rfl

theorem preorder_prefix {front path : List κ} {tree : NamedTree κ α} (distinct : Distinct tree)
    (visited : path ∈ (preorder front tree).map Prod.fst) : front <+: path := by
  obtain ⟨entry, member, same⟩ := List.mem_map.mp visited
  have found : (entry.1, entry.2) ∈ preorder front tree := member
  obtain ⟨more, _, whole, _⟩ := (mem_preorder distinct).mp found
  exact ⟨more, whole.symm.trans same⟩

theorem nodup_preorderAll {front : List κ} {children : List (NamedTree κ α)}
    (siblings : (children.map key).Nodup) (below : ∀ child ∈ children, Distinct child)
    (each : ∀ child ∈ children, ∀ front, ((preorder front child).map Prod.fst).Nodup) :
    ((preorderAll front children).map Prod.fst).Nodup := by
  induction children with
  | nil => exact List.nodup_nil
  | cons child rest ih =>
      rw [List.map_cons, List.nodup_cons] at siblings
      have later := fun other member => below other (List.mem_cons_of_mem child member)
      rw [preorderAll, List.map_append, List.nodup_append]
      refine ⟨each child List.mem_cons_self _, ih siblings.2 later
        (fun other member => each other (List.mem_cons_of_mem _ member)), ?_⟩
      intro path first other second same
      subst same
      have one := preorder_prefix (below child List.mem_cons_self) first
      obtain ⟨entry, member, reached⟩ := List.mem_map.mp second
      obtain ⟨sibling, inside, visited⟩ := mem_preorderAll.mp member
      have two := preorder_prefix (later sibling inside)
        (List.mem_map.mpr ⟨entry, visited, reached⟩)
      have lengths : (front ++ [child.key]).length = (front ++ [sibling.key]).length := by simp
      have keys := (List.prefix_of_prefix_length_le one two (Nat.le_of_eq lengths)).eq_of_length lengths
      have named : child.key = sibling.key := by simpa using keys
      exact siblings.1 (List.mem_map.mpr ⟨sibling, inside, named.symm⟩)

theorem nodup_preorder {tree : NamedTree κ α} (distinct : Distinct tree) (front : List κ) :
    ((preorder front tree).map Prod.fst).Nodup := by
  induction tree using byChildren generalizing front with
  | step name data children ih =>
      rw [preorder, List.map_cons, List.nodup_cons]
      constructor
      · intro again
        obtain ⟨entry, member, same⟩ := List.mem_map.mp again
        obtain ⟨child, inside, visited⟩ := mem_preorderAll.mp member
        have longer := preorder_prefix (distinct.child inside)
          (List.mem_map.mpr ⟨entry, visited, same⟩)
        have lengths := longer.length_le
        rw [List.length_append, List.length_singleton] at lengths
        exact Nat.not_succ_le_self _ lengths
      · exact nodup_preorderAll distinct.siblings (fun child member => distinct.child member)
          fun child member => ih child member (distinct.child member)

end NamedTree
