import Mathlib.Data.List.Basic
import Mathlib.Data.List.Nodup
import Mathlib.Tactic.Cases

/-! Trees whose nodes carry a key and a payload, addressed by paths of keys.
The first child with a key answers for it, so a tree whose siblings share keys
still has one meaning. -/

inductive NamedTree (κ α : Type) where
  | node (key : κ) (data : α) (children : List (NamedTree κ α))

namespace NamedTree

variable {κ α : Type}

def key : NamedTree κ α → κ
  | node key _ _ => key

def data : NamedTree κ α → α
  | node _ data _ => data

def children : NamedTree κ α → List (NamedTree κ α)
  | node _ _ children => children

@[simp] theorem key_node (key : κ) (data : α) (children : List (NamedTree κ α)) :
    (node key data children).key = key := rfl

@[simp] theorem data_node (key : κ) (data : α) (children : List (NamedTree κ α)) :
    (node key data children).data = data := rfl

@[simp] theorem children_node (key : κ) (data : α) (children : List (NamedTree κ α)) :
    (node key data children).children = children := rfl

/-- Induction over a tree with the hypothesis for every child. -/
theorem byChildren {motive : NamedTree κ α → Prop}
    (step : ∀ key data children, (∀ child ∈ children, motive child) →
      motive (node key data children)) : ∀ tree, motive tree
  | node key data children => step key data children fun child _ => byChildren step child

/-- No two siblings share a key, at any node. -/
inductive Distinct : NamedTree κ α → Prop where
  | node {key : κ} {data : α} {children : List (NamedTree κ α)}
      (siblings : (children.map NamedTree.key).Nodup)
      (below : ∀ child ∈ children, Distinct child) : Distinct (node key data children)

theorem Distinct.siblings {tree : NamedTree κ α} (distinct : Distinct tree) :
    (tree.children.map key).Nodup := by
  cases distinct with
  | node siblings below => exact siblings

theorem Distinct.child {tree child : NamedTree κ α} (distinct : Distinct tree)
    (member : child ∈ tree.children) : Distinct child := by
  cases distinct with
  | node siblings below => exact below child member

inductive All (P : α → Prop) : NamedTree κ α → Prop where
  | node {key : κ} {data : α} {children : List (NamedTree κ α)}
      (here : P data) (below : ∀ child ∈ children, All P child) : All P (node key data children)

variable [DecidableEq κ]

def child? (name : κ) (children : List (NamedTree κ α)) : Option (NamedTree κ α) :=
  children.find? fun child => decide (child.key = name)

def descend (tree : NamedTree κ α) : List κ → Option (NamedTree κ α)
  | [] => some tree
  | name :: rest => (child? name tree.children).bind fun child => descend child rest

/-- The payload a path leads to, with `blank` for a path that leads nowhere. -/
def lookup (blank : α) (tree : NamedTree κ α) (path : List κ) : α :=
  ((descend tree path).map data).getD blank

@[simp] theorem descend_nil (tree : NamedTree κ α) : descend tree [] = some tree := rfl

theorem descend_cons (tree : NamedTree κ α) (name : κ) (rest : List κ) :
    descend tree (name :: rest) =
      (child? name tree.children).bind fun child => descend child rest := rfl

theorem child?_key {name : κ} {children : List (NamedTree κ α)} {child : NamedTree κ α}
    (found : child? name children = some child) : child.key = name := by
  simpa using List.find?_some found

theorem child?_mem {name : κ} {children : List (NamedTree κ α)} {child : NamedTree κ α}
    (found : child? name children = some child) : child ∈ children :=
  List.mem_of_find?_eq_some found

theorem child?_of_mem {children : List (NamedTree κ α)} {child : NamedTree κ α}
    (siblings : (children.map key).Nodup) (member : child ∈ children) :
    child? child.key children = some child := by
  induction children with
  | nil => cases member
  | cons first rest ih =>
      rw [List.map_cons, List.nodup_cons] at siblings
      rw [child?, List.find?_cons]
      rcases List.mem_cons.mp member with rfl | later
      · rw [decide_eq_true rfl]
      · have apart : first.key ≠ child.key := fun same =>
          siblings.1 (same ▸ List.mem_map_of_mem later)
        rw [decide_eq_false apart]
        exact ih siblings.2 later

theorem child?_append (name : κ) (front back : List (NamedTree κ α)) :
    child? name (front ++ back) = (child? name front).or (child? name back) :=
  List.find?_append

theorem descend_append (tree : NamedTree κ α) (front back : List κ) :
    descend tree (front ++ back) = (descend tree front).bind fun sub => descend sub back := by
  induction front generalizing tree with
  | nil => rfl
  | cons name rest ih =>
      rw [List.cons_append, descend_cons, descend_cons]
      cases child? name tree.children with
      | none => rfl
      | some child => exact ih child

theorem descend_child {tree sub child : NamedTree κ α} {path : List κ} (distinct : Distinct sub)
    (found : descend tree path = some sub) (member : child ∈ sub.children) :
    descend tree (path ++ [child.key]) = some child := by
  rw [descend_append, found]
  change descend sub [child.key] = some child
  rw [descend_cons, child?_of_mem distinct.siblings member]
  rfl

theorem descend_key {tree sub : NamedTree κ α} {path : List κ} {name : κ}
    (found : descend tree (path ++ [name]) = some sub) : sub.key = name := by
  rw [descend_append] at found
  obtain ⟨parent, _, step⟩ := Option.bind_eq_some_iff.mp found
  obtain ⟨child, here, same⟩ := Option.bind_eq_some_iff.mp step
  cases same
  exact child?_key here

theorem Distinct.descend {tree sub : NamedTree κ α} {path : List κ} (distinct : Distinct tree)
    (found : descend tree path = some sub) : Distinct sub := by
  induction path generalizing tree with
  | nil => cases found; exact distinct
  | cons name rest ih =>
      obtain ⟨child, here, step⟩ := Option.bind_eq_some_iff.mp found
      exact ih (distinct.child (child?_mem here)) step

theorem All.descend {P : α → Prop} {tree sub : NamedTree κ α} {path : List κ} (all : All P tree)
    (found : descend tree path = some sub) : P sub.data := by
  induction path generalizing tree with
  | nil =>
      cases found
      cases all with
      | node here below => exact here
  | cons name rest ih =>
      obtain ⟨child, here, step⟩ := Option.bind_eq_some_iff.mp found
      cases all with
      | node top below => exact ih (below child (child?_mem here)) step

theorem Distinct.all_children {P : α → Prop} {tree : NamedTree κ α} (distinct : Distinct tree)
    (each : ∀ path sub, path ≠ [] → NamedTree.descend tree path = some sub → P sub.data) :
    ∀ child ∈ tree.children, All P child := by
  have inside : ∀ (node : NamedTree κ α) path, path ≠ [] →
      NamedTree.descend tree path = some node → All P node := by
    intro node
    induction node using byChildren with
    | step key data children ih =>
        intro path full here
        refine .node (each path _ full here) ?_
        intro child member
        exact ih child member (path ++ [child.key]) (by simp)
          (descend_child (distinct.descend here) here member)
  intro child member
  have root : NamedTree.descend tree [] = some tree := rfl
  exact inside child [child.key] (by simp) (descend_child distinct root member)

theorem All.lookup {P : α → Prop} {blank : α} {tree : NamedTree κ α} (all : All P tree)
    (base : P blank) (path : List κ) : P (lookup blank tree path) := by
  unfold NamedTree.lookup
  cases found : NamedTree.descend tree path with
  | none => exact base
  | some sub => exact all.descend found

theorem lookup_of_descend {blank : α} {tree sub : NamedTree κ α} {path : List κ}
    (found : descend tree path = some sub) : lookup blank tree path = sub.data := by
  simp [lookup, found]

theorem lookup_of_missing {blank : α} {tree : NamedTree κ α} {path : List κ}
    (missing : descend tree path = none) : lookup blank tree path = blank := by
  simp [lookup, missing]

theorem lookup_cons (blank : α) (tree : NamedTree κ α) (name : κ) (rest : List κ) :
    lookup blank tree (name :: rest) =
      ((child? name tree.children).map fun child => lookup blank child rest).getD blank := by
  unfold lookup
  rw [descend_cons]
  cases child? name tree.children <;> rfl

/-- Rewrite the first child with the given key; `none` removes it. -/
def alterFirst (name : κ) (f : NamedTree κ α → Option (NamedTree κ α)) :
    List (NamedTree κ α) → List (NamedTree κ α)
  | [] => []
  | child :: rest =>
    if child.key = name then (f child).toList ++ rest else child :: alterFirst name f rest

def alterAt (f : NamedTree κ α → Option (NamedTree κ α)) :
    List κ → NamedTree κ α → Option (NamedTree κ α)
  | [], tree => f tree
  | name :: rest, node key data children =>
    some (node key data (alterFirst name (alterAt f rest) children))

def KeepsKey (f : NamedTree κ α → Option (NamedTree κ α)) : Prop :=
  ∀ tree tree', f tree = some tree' → tree'.key = tree.key

theorem alterAt_append (f : NamedTree κ α → Option (NamedTree κ α)) (front back : List κ) :
    alterAt f (front ++ back) = alterAt (alterAt f back) front := by
  induction front with
  | nil => rfl
  | cons name rest ih =>
      funext tree
      obtain ⟨key, data, children⟩ := tree
      rw [List.cons_append, alterAt, alterAt, ih]

theorem alterAt_keepsKey {f : NamedTree κ α → Option (NamedTree κ α)} (keeps : KeepsKey f)
    (path : List κ) : KeepsKey (alterAt f path) := by
  intro tree tree' done
  cases path with
  | nil => exact keeps tree tree' done
  | cons name rest =>
      obtain ⟨key, data, children⟩ := tree
      cases done
      rfl

theorem alterFirst_missing {name : κ} {f : NamedTree κ α → Option (NamedTree κ α)}
    {children : List (NamedTree κ α)} (missing : child? name children = none) :
    alterFirst name f children = children := by
  induction children with
  | nil => rfl
  | cons child rest ih =>
      simp only [child?, List.find?_cons] at missing
      by_cases same : child.key = name
      · simp [same] at missing
      · simp only [same, decide_false] at missing
        rw [alterFirst, if_neg same, ih missing]

theorem child?_alterFirst_ne {name other : κ} {f : NamedTree κ α → Option (NamedTree κ α)}
    (keeps : KeepsKey f) (children : List (NamedTree κ α)) (apart : other ≠ name) :
    child? other (alterFirst name f children) = child? other children := by
  induction children with
  | nil => rfl
  | cons child rest ih =>
      by_cases same : child.key = name
      · have skipped : child.key ≠ other := by rw [same]; exact apart.symm
        rw [alterFirst, if_pos same]
        cases image : f child with
        | none => simp [child?, skipped]
        | some child' =>
            have key' : child'.key ≠ other := by rw [keeps child child' image]; exact skipped
            simp [child?, skipped, key']
      · rw [alterFirst, if_neg same]
        simp only [child?, List.find?_cons] at ih ⊢
        rw [ih]

theorem child?_alterFirst_some {name : κ} {f : NamedTree κ α → Option (NamedTree κ α)}
    (keeps : KeepsKey f) {children : List (NamedTree κ α)} {child child' : NamedTree κ α}
    (found : child? name children = some child) (image : f child = some child') :
    child? name (alterFirst name f children) = some child' := by
  induction children with
  | nil => cases found
  | cons head rest ih =>
      simp only [child?, List.find?_cons] at found
      by_cases same : head.key = name
      · simp only [same, decide_true, Option.some.injEq] at found
        subst found
        have key' : child'.key = name := (keeps head child' image).trans same
        simp [alterFirst, same, image, child?, key']
      · simp only [same, decide_false] at found
        rw [alterFirst, if_neg same]
        simpa [child?, same] using ih found

theorem child?_alterFirst_none {name : κ} {f : NamedTree κ α → Option (NamedTree κ α)}
    {children : List (NamedTree κ α)} {child : NamedTree κ α}
    (siblings : (children.map key).Nodup)
    (found : child? name children = some child) (image : f child = none) :
    child? name (alterFirst name f children) = none := by
  induction children with
  | nil => cases found
  | cons head rest ih =>
      simp only [child?, List.find?_cons] at found
      rw [List.map_cons, List.nodup_cons] at siblings
      by_cases same : head.key = name
      · simp only [same, decide_true, Option.some.injEq] at found
        subst found
        rw [alterFirst, if_pos same, image]
        simp only [Option.toList_none, List.nil_append, child?, List.find?_eq_none,
          decide_eq_true_eq]
        intro later member clash
        exact siblings.1 (List.mem_map.mpr ⟨later, member, clash.trans same.symm⟩)
      · simp only [same, decide_false] at found
        rw [alterFirst, if_neg same]
        simpa [child?, same] using ih siblings.2 found

theorem alterAt_missing {f : NamedTree κ α → Option (NamedTree κ α)} {path : List κ}
    {tree : NamedTree κ α} (missing : descend tree path = none) : alterAt f path tree = some tree := by
  induction path generalizing tree with
  | nil => cases missing
  | cons name rest ih =>
      obtain ⟨key, data, children⟩ := tree
      rw [descend_cons, children_node] at missing
      cases here : child? name children with
      | none => rw [alterAt, alterFirst_missing here]
      | some child =>
          rw [here, Option.bind_some] at missing
          rw [alterAt]
          congr 2
          have fixed := ih missing
          clear missing ih
          induction children with
          | nil => rfl
          | cons head later step =>
              simp only [child?, List.find?_cons] at here
              by_cases same : head.key = name
              · simp only [same, decide_true, Option.some.injEq] at here
                subst here
                simp [alterFirst, same, fixed]
              · simp only [same, decide_false] at here
                rw [alterFirst, if_neg same, step here]

theorem descend_alterAt_outside {f : NamedTree κ α → Option (NamedTree κ α)} (keeps : KeepsKey f)
    {path other : List κ} {tree tree' : NamedTree κ α} (done : alterAt f path tree = some tree')
    (outside : ¬ path <+: other) :
    (descend tree' other).map data = (descend tree other).map data := by
  induction path generalizing tree tree' other with
  | nil => exact absurd (List.nil_prefix) outside
  | cons name rest ih =>
      obtain ⟨key, payload, children⟩ := tree
      cases done
      cases other with
      | nil => rfl
      | cons step later =>
          rw [descend_cons, descend_cons, children_node, children_node]
          by_cases same : step = name
          · subst same
            have deeper : ¬ rest <+: later := fun inside =>
              outside ((List.prefix_cons_inj step).mpr inside)
            cases here : child? step children with
            | none => rw [alterFirst_missing here, here]
            | some child =>
                cases rest with
                | nil => exact absurd List.nil_prefix deeper
                | cons next rest =>
                    obtain ⟨childKey, childData, grand⟩ := child
                    rw [child?_alterFirst_some (alterAt_keepsKey keeps _) here rfl]
                    exact ih rfl deeper
          · rw [child?_alterFirst_ne (alterAt_keepsKey keeps rest) children same]

theorem descend_alterAt_inside {f : NamedTree κ α → Option (NamedTree κ α)} (keeps : KeepsKey f)
    {path : List κ} {tree tree' sub sub' : NamedTree κ α} (done : alterAt f path tree = some tree')
    (found : descend tree path = some sub) (image : f sub = some sub') (rest : List κ) :
    descend tree' (path ++ rest) = descend sub' rest := by
  induction path generalizing tree tree' with
  | nil =>
      cases found
      rw [alterAt, image] at done
      cases done
      rfl
  | cons name deeper ih =>
      obtain ⟨key, payload, children⟩ := tree
      cases done
      obtain ⟨child, here, step⟩ := Option.bind_eq_some_iff.mp found
      have altered : ∃ child', alterAt f deeper child = some child' := by
        cases deeper with
        | nil => cases step; exact ⟨sub', image⟩
        | cons next deeper =>
            obtain ⟨childKey, childData, grand⟩ := child
            exact ⟨_, rfl⟩
      obtain ⟨child', image'⟩ := altered
      rw [children_node] at here
      rw [List.cons_append, descend_cons, children_node,
        child?_alterFirst_some (alterAt_keepsKey keeps deeper) here image']
      exact ih image' step

theorem descend_alterAt_removed {f : NamedTree κ α → Option (NamedTree κ α)} (keeps : KeepsKey f)
    {path : List κ} {tree tree' sub : NamedTree κ α} (distinct : Distinct tree)
    (done : alterAt f path tree = some tree')
    (found : descend tree path = some sub) (image : f sub = none) (rest : List κ) :
    descend tree' (path ++ rest) = none := by
  induction path generalizing tree tree' with
  | nil => cases found; rw [alterAt, image] at done; cases done
  | cons name deeper ih =>
      obtain ⟨key, payload, children⟩ := tree
      cases done
      obtain ⟨child, here, step⟩ := Option.bind_eq_some_iff.mp found
      rw [children_node] at here
      rw [List.cons_append, descend_cons, children_node]
      cases deeper with
      | nil =>
          cases step
          have siblings : (children.map NamedTree.key).Nodup := distinct.siblings
          have gone : alterAt f [] sub = none := image
          rw [child?_alterFirst_none siblings here gone]
          rfl
      | cons next deeper =>
          obtain ⟨childKey, childData, grand⟩ := child
          rw [child?_alterFirst_some (alterAt_keepsKey keeps _) here rfl]
          exact ih (distinct.child (child?_mem here)) rfl step

theorem alterFirst_keys {name : κ} {f : NamedTree κ α → Option (NamedTree κ α)} (keeps : KeepsKey f)
    (children : List (NamedTree κ α)) :
    ((alterFirst name f children).map key).Sublist (children.map key) := by
  induction children with
  | nil => exact List.Sublist.refl _
  | cons child rest ih =>
      by_cases same : child.key = name
      · rw [alterFirst, if_pos same]
        cases image : f child with
        | none => simp
        | some child' => simp [keeps child child' image]
      · rw [alterFirst, if_neg same]
        simpa using ih

theorem alterFirst_mem {name : κ} {f : NamedTree κ α → Option (NamedTree κ α)}
    {children : List (NamedTree κ α)} {changed : NamedTree κ α}
    (member : changed ∈ alterFirst name f children) :
    changed ∈ children ∨
      ∃ child, child? name children = some child ∧ f child = some changed := by
  induction children with
  | nil => cases member
  | cons child rest ih =>
      by_cases same : child.key = name
      · rw [alterFirst, if_pos same, List.mem_append, Option.mem_toList] at member
        rcases member with image | later
        · exact Or.inr ⟨child, by simp [child?, same], image⟩
        · exact Or.inl (List.mem_cons_of_mem _ later)
      · rw [alterFirst, if_neg same, List.mem_cons] at member
        rcases member with rfl | later
        · exact Or.inl (List.mem_cons_self)
        · rcases ih later with old | ⟨first, here, image⟩
          · exact Or.inl (List.mem_cons_of_mem _ old)
          · exact Or.inr ⟨first, by simpa [child?, same] using here, image⟩

theorem Distinct.alterAt {f : NamedTree κ α → Option (NamedTree κ α)} (keeps : KeepsKey f)
    {path : List κ} {tree tree' : NamedTree κ α} (distinct : Distinct tree)
    (preserves : ∀ sub sub', NamedTree.descend tree path = some sub → Distinct sub →
      f sub = some sub' → Distinct sub')
    (done : alterAt f path tree = some tree') : Distinct tree' := by
  induction path generalizing tree tree' with
  | nil => exact preserves tree tree' rfl distinct done
  | cons name rest ih =>
      obtain ⟨key, payload, children⟩ := tree
      cases done
      refine Distinct.node
        (List.Nodup.sublist (alterFirst_keys (alterAt_keepsKey keeps rest) children)
          distinct.siblings) ?_
      intro changed member
      rcases alterFirst_mem member with old | ⟨child, here, image⟩
      · exact distinct.child old
      · refine ih (distinct.child (child?_mem here)) ?_ image
        intro sub sub' found
        exact preserves sub sub' (by rw [descend_cons, children_node, here]; exact found)

end NamedTree
