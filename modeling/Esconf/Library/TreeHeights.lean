import Esconf.Library.TreeUpdates

/-! How many levels a named tree has below its root, and what the updates make of it. -/

namespace NamedTree

variable {κ α : Type}

mutual

def height : NamedTree κ α → Nat
  | node _ _ children => heights children

def heights : List (NamedTree κ α) → Nat
  | [] => 0
  | child :: rest => max (height child + 1) (heights rest)

end

theorem height_eq (tree : NamedTree κ α) : height tree = heights tree.children := by
  obtain ⟨key, data, children⟩ := tree
  rw [height, children_node]

theorem height_lt_of_mem {children : List (NamedTree κ α)} {child : NamedTree κ α}
    (member : child ∈ children) : height child < heights children := by
  induction children with
  | nil => cases member
  | cons first rest ih =>
      rw [heights]
      rcases List.mem_cons.mp member with rfl | later
      · omega
      · have lower := ih later
        omega

theorem exists_mem_height {children : List (NamedTree κ α)} (full : children ≠ []) :
    ∃ child ∈ children, heights children = height child + 1 := by
  induction children with
  | nil => exact absurd rfl full
  | cons first rest ih =>
      by_cases higher : heights rest ≤ height first + 1
      · exact ⟨first, List.mem_cons_self, by rw [heights]; omega⟩
      · have more : rest ≠ [] := by
          rintro rfl
          exact higher (Nat.zero_le _)
        obtain ⟨child, member, same⟩ := ih more
        exact ⟨child, List.mem_cons_of_mem _ member, by rw [heights]; omega⟩

theorem heights_snoc (children : List (NamedTree κ α)) (child : NamedTree κ α) :
    heights (children ++ [child]) = max (heights children) (height child + 1) := by
  induction children with
  | nil =>
      rw [List.nil_append, heights, heights, heights]
      omega
  | cons first rest ih =>
      rw [List.cons_append, heights, heights, ih]
      omega

theorem height_withData (g : α → α) (tree : NamedTree κ α) :
    height (withData g tree) = height tree := by
  obtain ⟨key, data, children⟩ := tree
  rw [withData, height, height]

theorem height_withChild (child tree : NamedTree κ α) :
    height (withChild child tree) = max (height tree) (height child + 1) := by
  obtain ⟨key, data, children⟩ := tree
  rw [withChild, height, height, heights_snoc]

variable [DecidableEq κ]

theorem length_add_height_le {path : List κ} {tree sub : NamedTree κ α}
    (found : descend tree path = some sub) : path.length + height sub ≤ height tree := by
  induction path generalizing tree with
  | nil =>
      cases found
      exact Nat.le_of_eq (Nat.zero_add _)
  | cons name rest ih =>
      obtain ⟨child, there, below⟩ := Option.bind_eq_some_iff.mp found
      have lower := height_lt_of_mem (child?_mem there)
      have reached := ih below
      rw [height_eq tree, List.length_cons]
      omega

/-- The first child of a name is changed and reaches `n` levels below itself then. -/
theorem heights_alterFirst {name : κ} {f : NamedTree κ α → NamedTree κ α} {n : Nat}
    {children : List (NamedTree κ α)} {child : NamedTree κ α}
    (there : child? name children = some child) (risen : height (f child) = max (height child) n) :
    heights (alterFirst name (fun sub => some (f sub)) children) =
      max (heights children) (n + 1) := by
  induction children with
  | nil => cases there
  | cons first rest ih =>
      rw [child?, List.find?_cons] at there
      by_cases same : first.key = name
      · rw [decide_eq_true same] at there
        cases there
        rw [alterFirst, if_pos same, Option.toList_some, List.singleton_append, heights, heights,
          risen]
        omega
      · rw [decide_eq_false same] at there
        rw [alterFirst, if_neg same, heights, heights, ih there]
        omega

/-- A change that makes a node at least `n` high makes the tree as high as that takes. -/
theorem height_change {f : NamedTree κ α → NamedTree κ α} {n : Nat}
    (rises : ∀ sub, height (f sub) = max (height sub) n) {path : List κ} {tree sub : NamedTree κ α}
    (found : descend tree path = some sub) :
    height (change f path tree) = max (height tree) (path.length + n) := by
  induction path generalizing tree with
  | nil =>
      change height (f tree) = _
      rw [rises tree, List.length_nil, Nat.zero_add]
  | cons name rest ih =>
      obtain ⟨key, data, children⟩ := tree
      obtain ⟨child, there, below⟩ := Option.bind_eq_some_iff.mp found
      have first : child? name children = some child := there
      have inner : alterAt (fun sub => some (f sub)) rest = fun sub => some (change f rest sub) :=
        funext (alterAt_change f rest)
      have shape : change f (name :: rest) (node key data children) =
          node key data (alterFirst name (alterAt (fun sub => some (f sub)) rest) children) := rfl
      rw [shape, inner, height, height, heights_alterFirst first (ih below), List.length_cons]
      omega

theorem height_update (g : α → α) (path : List κ) (tree : NamedTree κ α) :
    height (update g path tree) = height tree := by
  cases found : descend tree path with
  | none => rw [update, change_missing _ found]
  | some sub =>
      have kept : ∀ sub : NamedTree κ α, height (withData g sub) = max (height sub) 0 :=
        fun sub => by rw [height_withData, Nat.max_zero]
      have within := length_add_height_le found
      rw [update, height_change kept found]
      omega

theorem height_graft {path : List κ} {tree parent : NamedTree κ α} (child : NamedTree κ α)
    (found : descend tree path = some parent) :
    height (graft path child tree) = max (height tree) (path.length + (height child + 1)) :=
  height_change (height_withChild child) found

end NamedTree
