import Esconf.Library.NamedTree

/-! Updating, grafting, unlinking and pruning nodes of a named tree, and what
each does to the payload found at every path. -/

namespace NamedTree

variable {κ α : Type} [DecidableEq κ]

def change (f : NamedTree κ α → NamedTree κ α) (path : List κ) (tree : NamedTree κ α) :
    NamedTree κ α :=
  (alterAt (fun sub => some (f sub)) path tree).getD tree

def withData (g : α → α) : NamedTree κ α → NamedTree κ α
  | node key data children => node key (g data) children

def withChild (child : NamedTree κ α) : NamedTree κ α → NamedTree κ α
  | node key data children => node key data (children ++ [child])

/-- Replace the payload of the node a path leads to. -/
def update (g : α → α) (path : List κ) (tree : NamedTree κ α) : NamedTree κ α :=
  change (withData g) path tree

/-- Append a last child to the node a path leads to. -/
def graft (path : List κ) (child : NamedTree κ α) (tree : NamedTree κ α) : NamedTree κ α :=
  change (withChild child) path tree

/-- Cut off the node a path leads to; the root stays. -/
def unlink (path : List κ) (tree : NamedTree κ α) : NamedTree κ α :=
  (alterAt (fun _ => none) path tree).getD tree

omit [DecidableEq κ] in
theorem withData_keepsKey (g : α → α) : KeepsKey fun sub : NamedTree κ α => some (withData g sub) := by
  intro tree tree' done
  obtain ⟨key, data, children⟩ := tree
  cases done
  rfl

omit [DecidableEq κ] in
theorem withChild_keepsKey (child : NamedTree κ α) :
    KeepsKey fun sub => some (withChild child sub) := by
  intro tree tree' done
  obtain ⟨key, data, children⟩ := tree
  cases done
  rfl

theorem alterAt_change (f : NamedTree κ α → NamedTree κ α) (path : List κ) (tree : NamedTree κ α) :
    alterAt (fun sub => some (f sub)) path tree = some (change f path tree) := by
  unfold change
  cases path with
  | nil => rfl
  | cons name rest =>
      obtain ⟨key, data, children⟩ := tree
      rfl

/-- Two rewritings of one node, the first of which keeps it and its name. -/
theorem alterAt_after_change {f : NamedTree κ α → NamedTree κ α}
    (keeps : KeepsKey fun sub => some (f sub)) (g : NamedTree κ α → Option (NamedTree κ α))
    (path : List κ) (tree : NamedTree κ α) :
    alterAt g path (change f path tree) = alterAt (fun sub => g (f sub)) path tree := by
  induction path generalizing tree with
  | nil => rfl
  | cons name rest ih =>
      obtain ⟨key, data, children⟩ := tree
      have inner : alterAt (fun sub => some (f sub)) rest = fun sub => some (change f rest sub) :=
        funext (alterAt_change f rest)
      have named : ∀ sub, (change f rest sub).key = sub.key := fun sub =>
        alterAt_keepsKey keeps rest sub _ (alterAt_change f rest sub)
      have first : alterFirst name (alterAt g rest)
          (alterFirst name (fun sub => some (change f rest sub)) children) =
          alterFirst name (alterAt (fun sub => g (f sub)) rest) children := by
        induction children with
        | nil => rfl
        | cons child others later =>
            by_cases same : child.key = name
            · simp [alterFirst, same, named, ih]
            · simp [alterFirst, same, later]
      change some (node key data (alterFirst name _ (alterFirst name _ children))) = _
      rw [inner, first]
      rfl

theorem change_missing (f : NamedTree κ α → NamedTree κ α) {path : List κ} {tree : NamedTree κ α}
    (missing : descend tree path = none) : change f path tree = tree := by
  rw [change, alterAt_missing missing]
  rfl

theorem lookup_change_outside {f : NamedTree κ α → NamedTree κ α}
    (keeps : KeepsKey fun sub => some (f sub)) (blank : α) (tree : NamedTree κ α)
    {path other : List κ} (outside : ¬ path <+: other) :
    lookup blank (change f path tree) other = lookup blank tree other := by
  unfold lookup
  rw [descend_alterAt_outside keeps (alterAt_change f path tree) outside]

theorem descend_change_inside {f : NamedTree κ α → NamedTree κ α}
    (keeps : KeepsKey fun sub => some (f sub)) {tree sub : NamedTree κ α} {path : List κ}
    (found : descend tree path = some sub) (rest : List κ) :
    descend (change f path tree) (path ++ rest) = descend (f sub) rest :=
  descend_alterAt_inside keeps (alterAt_change f path tree) found rfl rest

theorem descend_withData (g : α → α) (tree : NamedTree κ α) (name : κ) (rest : List κ) :
    descend (withData g tree) (name :: rest) = descend tree (name :: rest) := by
  obtain ⟨key, data, children⟩ := tree
  rfl

theorem lookup_update (blank : α) (g : α → α) {tree sub : NamedTree κ α} {path : List κ}
    (found : descend tree path = some sub) (other : List κ) :
    lookup blank (update g path tree) other =
      if other = path then g sub.data else lookup blank tree other := by
  by_cases inside : path <+: other
  · obtain ⟨rest, rfl⟩ := inside
    have moved := descend_change_inside (withData_keepsKey g) found rest
    have before : descend tree (path ++ rest) = descend sub rest := by
      rw [descend_append, found, Option.bind_some]
    cases rest with
    | nil =>
        obtain ⟨key, data, children⟩ := sub
        simp only [List.append_nil, ↓reduceIte] at moved ⊢
        rw [update, lookup_of_descend moved]
        rfl
    | cons name rest =>
        rw [if_neg (by simp), update, lookup, lookup, moved, before, descend_withData]
  · have apart : other ≠ path := by
      rintro rfl
      exact inside (List.prefix_refl _)
    rw [if_neg apart, update, lookup_change_outside (withData_keepsKey g) blank tree inside]

theorem descend_update_self (g : α → α) {tree sub : NamedTree κ α} {path : List κ}
    (found : descend tree path = some sub) :
    descend (update g path tree) path = some (withData g sub) := by
  have moved := descend_change_inside (withData_keepsKey g) found []
  rwa [List.append_nil] at moved

theorem child?_withChild (tree child : NamedTree κ α) (name : κ) :
    child? name (withChild child tree).children =
      (child? name tree.children).or (if child.key = name then some child else none) := by
  obtain ⟨key, data, children⟩ := tree
  rw [withChild, children_node, children_node, child?_append]
  congr 1
  by_cases same : child.key = name <;> simp [child?, same]

theorem lookup_graft (blank : α) {tree parent : NamedTree κ α} {path : List κ} {name : κ} {d : α}
    (found : descend tree path = some parent) (fresh : descend tree (path ++ [name]) = none)
    (other : List κ) :
    lookup blank (graft path (node name d []) tree) other =
      if other = path ++ [name] then d else lookup blank tree other := by
  have absent : child? name parent.children = none := by
    rw [descend_append, found, Option.bind_some, descend_cons] at fresh
    simpa using fresh
  by_cases inside : path <+: other
  · obtain ⟨rest, rfl⟩ := inside
    have moved := descend_change_inside (withChild_keepsKey (node name d [])) found rest
    have before : descend tree (path ++ rest) = descend parent rest := by
      rw [descend_append, found, Option.bind_some]
    simp only [List.append_cancel_left_eq]
    rw [graft, lookup, moved, lookup, before]
    cases rest with
    | nil =>
        obtain ⟨key, data, children⟩ := parent
        simp [withChild]
    | cons step rest =>
        rw [descend_cons, child?_withChild, descend_cons]
        by_cases same : step = name
        · subst same
          rw [absent]
          cases rest with
          | nil => simp
          | cons next rest => simp [descend_cons, child?]
        · have other : name ≠ step := fun clash => same clash.symm
          simp [same, other]
  · have apart : other ≠ path ++ [name] := by
      rintro rfl
      exact inside (List.prefix_append _ _)
    rw [if_neg apart, graft, lookup_change_outside (withChild_keepsKey _) blank tree inside]

theorem descend_graft_new {tree parent : NamedTree κ α} {path : List κ} {name : κ} {d : α}
    (found : descend tree path = some parent) (fresh : descend tree (path ++ [name]) = none) :
    descend (graft path (node name d []) tree) (path ++ [name]) = some (node name d []) := by
  have absent : child? name parent.children = none := by
    rw [descend_append, found, Option.bind_some, descend_cons] at fresh
    simpa using fresh
  rw [graft, descend_change_inside (withChild_keepsKey (node name d [])) found [name], descend_cons,
    child?_withChild, absent]
  simp

theorem descend_graft_isSome {tree : NamedTree κ α} {path other : List κ} {name : κ} {d : α}
    (there : (descend (graft path (node name d []) tree) other).isSome = true) :
    (descend tree other).isSome = true ∨ other = path ++ [name] := by
  cases found : descend tree path with
  | none =>
      rw [graft, change_missing _ found] at there
      exact Or.inl there
  | some parent =>
      by_cases inside : path <+: other
      · obtain ⟨rest, rfl⟩ := inside
        have moved := descend_change_inside (withChild_keepsKey (node name d [])) found rest
        rw [graft, moved] at there
        rw [descend_append, found, Option.bind_some]
        cases rest with
        | nil => exact Or.inl rfl
        | cons step rest =>
            rw [descend_cons, child?_withChild] at there
            rw [descend_cons]
            cases old : child? step parent.children with
            | some child =>
                rw [old, Option.some_or] at there
                exact Or.inl there
            | none =>
                rw [old, Option.none_or, key_node] at there
                split at there
                · next same =>
                    cases rest with
                    | nil => exact Or.inr (by rw [same])
                    | cons next rest => cases there
                · cases there
      · have outside := descend_alterAt_outside (withChild_keepsKey (node name d []))
          (alterAt_change _ path tree) inside
        rw [← Option.isSome_map (f := data), ← outside, Option.isSome_map]
        exact Or.inl there

/-- Every node of the first tree is still there in the second, with its payload. -/
def Extends (tree tree' : NamedTree κ α) : Prop :=
  ∀ path sub, descend tree path = some sub →
    ∃ sub', descend tree' path = some sub' ∧ sub'.data = sub.data

theorem Extends.refl (tree : NamedTree κ α) : Extends tree tree :=
  fun _ sub found => ⟨sub, found, rfl⟩

theorem Extends.trans {first second third : NamedTree κ α} (one : Extends first second)
    (two : Extends second third) : Extends first third := by
  intro path sub found
  obtain ⟨middle, here, same⟩ := one path sub found
  obtain ⟨last, there, same'⟩ := two path middle here
  exact ⟨last, there, same'.trans same⟩

theorem Extends.isSome {tree tree' : NamedTree κ α} (keeps : Extends tree tree') (path : List κ)
    (there : (descend tree path).isSome) : (descend tree' path).isSome := by
  obtain ⟨sub, found⟩ := Option.isSome_iff_exists.mp there
  obtain ⟨sub', found', _⟩ := keeps path sub found
  rw [found']
  rfl

theorem extends_graft (path : List κ) (child tree : NamedTree κ α) :
    Extends tree (graft path child tree) := by
  intro other sub found
  cases reached : descend tree path with
  | none => rw [graft, change_missing _ reached]; exact ⟨sub, found, rfl⟩
  | some parent =>
      by_cases inside : path <+: other
      · obtain ⟨rest, rfl⟩ := inside
        have moved := descend_change_inside (withChild_keepsKey child) reached rest
        rw [descend_append, reached, Option.bind_some] at found
        rw [graft, moved]
        cases rest with
        | nil =>
            cases found
            exact ⟨_, rfl, by obtain ⟨key, data, children⟩ := sub; rfl⟩
        | cons step rest =>
            obtain ⟨next, here, deeper⟩ := Option.bind_eq_some_iff.mp found
            exact ⟨sub, by rw [descend_cons, child?_withChild, here]; exact deeper, rfl⟩
      · have same := descend_alterAt_outside (withChild_keepsKey child)
          (alterAt_change (withChild child) path tree) inside
        rw [found] at same
        obtain ⟨sub', here, data'⟩ := Option.map_eq_some_iff.mp same
        exact ⟨sub', here, data'⟩

theorem descend_update_ne (g : α → α) {tree sub : NamedTree κ α} {path other : List κ}
    (apart : other ≠ path) (found : descend tree other = some sub) :
    ∃ sub', descend (update g path tree) other = some sub' ∧ sub'.data = sub.data := by
  cases reached : descend tree path with
  | none => rw [update, change_missing _ reached]; exact ⟨sub, found, rfl⟩
  | some target =>
      by_cases inside : path <+: other
      · obtain ⟨rest, rfl⟩ := inside
        rw [descend_append, reached, Option.bind_some] at found
        rw [update, descend_change_inside (withData_keepsKey g) reached]
        cases rest with
        | nil => simp at apart
        | cons name rest => rw [descend_withData]; exact ⟨sub, found, rfl⟩
      · have same := descend_alterAt_outside (withData_keepsKey g)
          (alterAt_change (withData g) path tree) inside
        rw [found] at same
        exact Option.map_eq_some_iff.mp same

theorem isSome_descend_update (g : α → α) (path other : List κ) (tree : NamedTree κ α) :
    (descend (update g path tree) other).isSome = (descend tree other).isSome := by
  cases reached : descend tree path with
  | none => rw [update, change_missing _ reached]
  | some sub =>
      by_cases inside : path <+: other
      · obtain ⟨rest, rfl⟩ := inside
        rw [update, descend_change_inside (withData_keepsKey g) reached, descend_append, reached,
          Option.bind_some]
        cases rest with
        | nil => rfl
        | cons name rest => rw [descend_withData]
      · have same := descend_alterAt_outside (withData_keepsKey g)
          (alterAt_change (withData g) path tree) inside
        rw [← Option.isSome_map, update, same, Option.isSome_map]

theorem distinct_update (g : α → α) (path : List κ) {tree : NamedTree κ α}
    (distinct : Distinct tree) : Distinct (update g path tree) := by
  refine Distinct.alterAt (withData_keepsKey g) distinct ?_ (alterAt_change _ path tree)
  intro sub sub' _ here done
  obtain ⟨key, data, children⟩ := sub
  cases done
  exact Distinct.node here.siblings fun child member => here.child member

theorem distinct_graft {tree : NamedTree κ α} {path : List κ} {name : κ} {d : α}
    (distinct : Distinct tree) (fresh : descend tree (path ++ [name]) = none) :
    Distinct (graft path (node name d []) tree) := by
  refine Distinct.alterAt (withChild_keepsKey _) distinct ?_ (alterAt_change _ path tree)
  intro sub sub' found here done
  have absent : child? name sub.children = none := by
    rw [descend_append, found, Option.bind_some, descend_cons] at fresh
    simpa using fresh
  obtain ⟨key, data, children⟩ := sub
  cases done
  refine Distinct.node ?_ ?_
  · rw [List.map_append, List.nodup_append]
    refine ⟨here.siblings, by simp, ?_⟩
    intro taken member other same
    obtain ⟨child, inside, rfl⟩ := List.mem_map.mp member
    simp only [List.map_cons, key_node, List.map_nil, List.mem_singleton] at same
    subst same
    exact fun clash => List.find?_eq_none.mp absent child inside (by simpa using clash)
  · intro child member
    rcases List.mem_append.mp member with old | new
    · exact here.child old
    · rw [List.mem_singleton.mp new]
      exact Distinct.node (by simp) (by simp)

omit [DecidableEq κ] in
theorem cut_keepsKey : KeepsKey fun _ : NamedTree κ α => none := by
  intro tree tree' done
  cases done

theorem alterAt_unlink (tree : NamedTree κ α) (name : κ) (rest : List κ) :
    alterAt (fun _ => none) (name :: rest) tree = some (unlink (name :: rest) tree) := by
  obtain ⟨key, data, children⟩ := tree
  rfl

theorem lookup_unlink_outside (blank : α) (tree : NamedTree κ α) {path other : List κ}
    (outside : ¬ path <+: other) :
    lookup blank (unlink path tree) other = lookup blank tree other := by
  cases path with
  | nil => exact absurd List.nil_prefix outside
  | cons name rest =>
      unfold lookup
      rw [descend_alterAt_outside cut_keepsKey (alterAt_unlink tree name rest) outside]

theorem descend_unlink_outside (tree : NamedTree κ α) {path other : List κ}
    (outside : ¬ path <+: other) :
    (descend (unlink path tree) other).map data = (descend tree other).map data := by
  cases path with
  | nil => exact absurd List.nil_prefix outside
  | cons name rest => exact descend_alterAt_outside cut_keepsKey (alterAt_unlink tree name rest) outside

theorem descend_unlink_inside {tree : NamedTree κ α} (distinct : Distinct tree) {path : List κ}
    (nonroot : path ≠ []) (rest : List κ) : descend (unlink path tree) (path ++ rest) = none := by
  cases path with
  | nil => exact absurd rfl nonroot
  | cons name deeper =>
      cases found : descend tree (name :: deeper) with
      | none =>
          rw [unlink, alterAt_missing found, Option.getD_some, descend_append, found]
          rfl
      | some sub =>
          exact descend_alterAt_removed cut_keepsKey distinct (alterAt_unlink tree name deeper)
            found rfl rest

theorem distinct_unlink (path : List κ) {tree : NamedTree κ α} (distinct : Distinct tree) :
    Distinct (unlink path tree) := by
  cases path with
  | nil => exact distinct
  | cons name rest =>
      refine Distinct.alterAt cut_keepsKey distinct ?_ (alterAt_unlink tree name rest)
      intro sub sub' _ _ done
      cases done

theorem descend_unlink_leaf {tree sub : NamedTree κ α} {path other : List κ} {key : κ} {d : α}
    (leaf : descend tree path = some (node key d [])) (apart : other ≠ path)
    (found : descend tree other = some sub) :
    ∃ sub', descend (unlink path tree) other = some sub' ∧ sub'.data = sub.data := by
  by_cases inside : path <+: other
  · obtain ⟨rest, rfl⟩ := inside
    rw [descend_append, leaf, Option.bind_some] at found
    cases rest with
    | nil => simp at apart
    | cons name rest => cases found
  · have same := descend_unlink_outside tree inside
    rw [found] at same
    exact Option.map_eq_some_iff.mp same

theorem descend_unlink_above {tree sub : NamedTree κ α} {path : List κ} {name : κ} {rest : List κ}
    (found : descend tree path = some sub) :
    descend (unlink (path ++ name :: rest) tree) path = some (unlink (name :: rest) sub) := by
  induction path generalizing tree with
  | nil => cases found; rfl
  | cons step deeper ih =>
      obtain ⟨key, payload, children⟩ := tree
      obtain ⟨child, here, found'⟩ := Option.bind_eq_some_iff.mp found
      rw [children_node] at here
      have inner : alterAt (fun _ => none) (deeper ++ name :: rest) child =
          some (unlink (deeper ++ name :: rest) child) := by
        cases deeper with
        | nil => exact alterAt_unlink child name rest
        | cons next later => exact alterAt_unlink child next (later ++ name :: rest)
      rw [List.cons_append, descend_cons]
      change (child? step (alterFirst step _ children)).bind _ = _
      rw [child?_alterFirst_some (alterAt_keepsKey cut_keepsKey _) here inner]
      exact ih found'

theorem lookup_alterAt_inside {f : NamedTree κ α → Option (NamedTree κ α)} (keeps : KeepsKey f)
    (blank : α) {path : List κ} {tree tree' sub : NamedTree κ α} (distinct : Distinct tree)
    (done : alterAt f path tree = some tree') (found : descend tree path = some sub)
    (rest : List κ) :
    lookup blank tree' (path ++ rest) =
      ((f sub).map fun kept => lookup blank kept rest).getD blank := by
  cases image : f sub with
  | none => exact lookup_of_missing (descend_alterAt_removed keeps distinct done found image rest)
  | some sub' => rw [lookup, descend_alterAt_inside keeps done found image rest]; rfl

theorem lookup_unlink_leaf {blank : α} {tree : NamedTree κ α} (distinct : Distinct tree)
    {path : List κ} {key : κ} (found : descend tree path = some (node key blank []))
    (other : List κ) : lookup blank (unlink path tree) other = lookup blank tree other := by
  by_cases inside : path <+: other
  · obtain ⟨rest, rfl⟩ := inside
    by_cases root : path = []
    · subst root; rfl
    · rw [lookup_of_missing (descend_unlink_inside distinct root rest)]
      have before : descend tree (path ++ rest) = descend (node key blank []) rest := by
        rw [descend_append, found, Option.bind_some]
      rw [lookup, before]
      cases rest with
      | nil => rfl
      | cons step rest => rfl
  · exact lookup_unlink_outside blank tree inside

mutual

def mapData (g : α → α) : NamedTree κ α → NamedTree κ α
  | node key data children => node key (g data) (mapDataAll g children)

def mapDataAll (g : α → α) : List (NamedTree κ α) → List (NamedTree κ α)
  | [] => []
  | child :: rest => mapData g child :: mapDataAll g rest

end

mutual

/-- Remove, bottom up, every leaf whose payload is dead. -/
def prune (dead : α → Bool) : NamedTree κ α → Option (NamedTree κ α)
  | node key data children =>
    match pruneAll dead children with
    | [] => if dead data then none else some (node key data [])
    | child :: rest => some (node key data (child :: rest))

def pruneAll (dead : α → Bool) : List (NamedTree κ α) → List (NamedTree κ α)
  | [] => []
  | child :: rest => (prune dead child).toList ++ pruneAll dead rest

end

omit [DecidableEq κ] in
theorem mapData_key (g : α → α) (tree : NamedTree κ α) : (mapData g tree).key = tree.key := by
  obtain ⟨key, data, children⟩ := tree
  rfl

omit [DecidableEq κ] in
theorem mapData_data (g : α → α) (tree : NamedTree κ α) : (mapData g tree).data = g tree.data := by
  obtain ⟨key, data, children⟩ := tree
  rfl

theorem child?_mapDataAll (g : α → α) (name : κ) (children : List (NamedTree κ α)) :
    child? name (mapDataAll g children) = (child? name children).map (mapData g) := by
  induction children with
  | nil => rfl
  | cons child rest ih =>
      rw [mapDataAll]
      simp only [child?, List.find?_cons, mapData_key] at ih ⊢
      by_cases same : child.key = name <;> simp [same, ih]

theorem descend_mapData (g : α → α) (tree : NamedTree κ α) (path : List κ) :
    descend (mapData g tree) path = (descend tree path).map (mapData g) := by
  induction path generalizing tree with
  | nil => rfl
  | cons name rest ih =>
      obtain ⟨key, data, children⟩ := tree
      rw [mapData, descend_cons, descend_cons, children_node, children_node, child?_mapDataAll]
      cases child? name children with
      | none => rfl
      | some child => exact ih child

omit [DecidableEq κ] in
theorem mapData_keepsKey (g : α → α) : KeepsKey fun sub : NamedTree κ α => some (mapData g sub) := by
  intro tree tree' done
  cases done
  exact mapData_key g tree

omit [DecidableEq κ] in
theorem mapDataAll_keys (g : α → α) (children : List (NamedTree κ α)) :
    (mapDataAll g children).map key = children.map key := by
  induction children with
  | nil => rfl
  | cons child rest ih => simp [mapDataAll, mapData_key, ih]

omit [DecidableEq κ] in
theorem mem_mapDataAll {g : α → α} {children : List (NamedTree κ α)} {changed : NamedTree κ α}
    (member : changed ∈ mapDataAll g children) : ∃ child ∈ children, mapData g child = changed := by
  induction children with
  | nil => cases member
  | cons child rest ih =>
      rw [mapDataAll, List.mem_cons] at member
      rcases member with rfl | later
      · exact ⟨child, by simp, rfl⟩
      · obtain ⟨found, inside, same⟩ := ih later
        exact ⟨found, by simp [inside], same⟩

omit [DecidableEq κ] in
theorem distinct_mapData (g : α → α) {tree : NamedTree κ α} (distinct : Distinct tree) :
    Distinct (mapData g tree) := by
  induction distinct with
  | @node key data children siblings below ih =>
      rw [mapData]
      refine Distinct.node (by rw [mapDataAll_keys]; exact siblings) ?_
      intro changed member
      obtain ⟨child, inside, rfl⟩ := mem_mapDataAll member
      exact ih child inside

omit [DecidableEq κ] in
theorem prune_key {dead : α → Bool} {tree tree' : NamedTree κ α}
    (kept : prune dead tree = some tree') : tree'.key = tree.key ∧ tree'.data = tree.data := by
  obtain ⟨key, data, children⟩ := tree
  rw [prune] at kept
  split at kept
  · split at kept
    · cases kept
    · cases kept; exact ⟨rfl, rfl⟩
  · cases kept; exact ⟨rfl, rfl⟩

omit [DecidableEq κ] in
theorem prune_keepsKey (dead : α → Bool) : KeepsKey (prune (κ := κ) dead) :=
  fun _ _ kept => (prune_key kept).1

omit [DecidableEq κ] in
theorem prune_children {dead : α → Bool} {tree tree' : NamedTree κ α}
    (kept : prune dead tree = some tree') : tree'.children = pruneAll dead tree.children := by
  obtain ⟨key, data, children⟩ := tree
  rw [prune] at kept
  split at kept
  · next empty =>
      split at kept
      · cases kept
      · cases kept; exact empty.symm
  · next full => cases kept; exact full.symm

omit [DecidableEq κ] in
theorem prune_none {dead : α → Bool} {tree : NamedTree κ α} (gone : prune dead tree = none) :
    pruneAll dead tree.children = [] ∧ dead tree.data = true := by
  obtain ⟨key, data, children⟩ := tree
  rw [prune] at gone
  split at gone
  · next empty =>
      split at gone
      · next isDead => exact ⟨empty, isDead⟩
      · cases gone
  · cases gone

omit [DecidableEq κ] in
theorem pruneAll_keys (dead : α → Bool) (children : List (NamedTree κ α)) :
    ((pruneAll dead children).map key).Sublist (children.map key) := by
  induction children with
  | nil => exact List.Sublist.refl _
  | cons child rest ih =>
      rw [pruneAll]
      cases image : prune dead child with
      | none => simpa using ih.cons child.key
      | some child' => simpa [(prune_key image).1] using ih.cons_cons child.key

omit [DecidableEq κ] in
theorem mem_pruneAll {dead : α → Bool} {children : List (NamedTree κ α)} {kept : NamedTree κ α}
    (member : kept ∈ pruneAll dead children) : ∃ child ∈ children, prune dead child = some kept := by
  induction children with
  | nil => cases member
  | cons child rest ih =>
      rw [pruneAll, List.mem_append, Option.mem_toList] at member
      rcases member with image | later
      · exact ⟨child, by simp, image⟩
      · obtain ⟨found, inside, image⟩ := ih later
        exact ⟨found, by simp [inside], image⟩

theorem child?_prune_other {dead : α → Bool} {name : κ} {child : NamedTree κ α}
    (other : child.key ≠ name) : child? name (prune dead child).toList = none := by
  cases image : prune dead child with
  | none => rfl
  | some child' => simp [child?, (prune_key image).1, other]

/-- The first child with a key survives pruning as the first one with it,
whatever its siblings are called, provided it is kept at all. -/
theorem child?_pruneAll_some {dead : α → Bool} {name : κ} {children : List (NamedTree κ α)}
    {child child' : NamedTree κ α} (found : child? name children = some child)
    (kept : prune dead child = some child') :
    child? name (pruneAll dead children) = some child' := by
  induction children with
  | nil => cases found
  | cons head rest ih =>
      simp only [child?, List.find?_cons] at found
      rw [pruneAll, child?_append]
      by_cases same : head.key = name
      · simp only [same, decide_true, Option.some.injEq] at found
        subst found
        rw [kept]
        simp [child?, (prune_key kept).1, same]
      · simp only [same, decide_false] at found
        rw [child?_prune_other same, Option.none_or]
        exact ih found

theorem child?_pruneAll_none {dead : α → Bool} {name : κ} {children : List (NamedTree κ α)}
    (missing : child? name children = none) : child? name (pruneAll dead children) = none := by
  rw [child?, List.find?_eq_none]
  intro kept member
  obtain ⟨child, inside, image⟩ := mem_pruneAll member
  have other := List.find?_eq_none.mp missing child inside
  simpa [(prune_key image).1] using other

theorem child?_pruneAll_removed {dead : α → Bool} {name : κ} {children : List (NamedTree κ α)}
    {child : NamedTree κ α} (siblings : (children.map key).Nodup)
    (found : child? name children = some child) (gone : prune dead child = none) :
    child? name (pruneAll dead children) = none := by
  induction children with
  | nil => cases found
  | cons head rest ih =>
      simp only [child?, List.find?_cons] at found
      rw [List.map_cons, List.nodup_cons] at siblings
      rw [pruneAll, child?_append]
      by_cases same : head.key = name
      · simp only [same, decide_true, Option.some.injEq] at found
        subst found
        rw [gone]
        have missing : child? name rest = none := by
          rw [child?, List.find?_eq_none]
          intro later member clash
          exact siblings.1 (List.mem_map.mpr ⟨later, member, by
            rw [same]; simpa using clash⟩)
        simpa [child?] using child?_pruneAll_none missing
      · simp only [same, decide_false] at found
        rw [child?_prune_other same, Option.none_or]
        exact ih siblings.2 found

theorem child?_pruneAll {dead : α → Bool} {name : κ} {children : List (NamedTree κ α)}
    (siblings : (children.map key).Nodup) :
    child? name (pruneAll dead children) = (child? name children).bind (prune dead) := by
  cases found : child? name children with
  | none => exact child?_pruneAll_none found
  | some child =>
      cases image : prune dead child with
      | none => exact (child?_pruneAll_removed siblings found image).trans image.symm
      | some child' => exact (child?_pruneAll_some found image).trans image.symm

theorem descend_prune {dead : α → Bool} {tree : NamedTree κ α} (distinct : Distinct tree)
    (path : List κ) :
    (prune dead tree).bind (descend · path) = (descend tree path).bind (prune dead) := by
  induction path generalizing tree with
  | nil =>
      rw [descend_nil, Option.bind_some]
      cases prune dead tree <;> rfl
  | cons name rest ih =>
      have step : (child? name (pruneAll dead tree.children)).bind (descend · rest) =
          (descend tree (name :: rest)).bind (prune dead) := by
        rw [child?_pruneAll distinct.siblings, descend_cons]
        cases here : child? name tree.children with
        | none => rfl
        | some child => exact ih (distinct.child (child?_mem here))
      cases image : prune dead tree with
      | none =>
          rw [(prune_none image).1] at step
          exact step
      | some tree' =>
          rw [Option.bind_some, descend_cons, prune_children image]
          exact step

theorem descend_prune_alive {dead : α → Bool} {tree sub : NamedTree κ α} {path : List κ}
    (found : descend tree path = some sub) (alive : dead sub.data = false) :
    ∃ tree', prune dead tree = some tree' ∧
      ∃ sub', descend tree' path = some sub' ∧ sub'.data = sub.data := by
  induction path generalizing tree with
  | nil =>
      cases found
      cases image : prune dead sub with
      | none => rw [(prune_none image).2] at alive; cases alive
      | some tree' => exact ⟨tree', rfl, tree', rfl, (prune_key image).2⟩
  | cons name rest ih =>
      obtain ⟨child, here, step⟩ := Option.bind_eq_some_iff.mp found
      obtain ⟨child', kept, sub', there, same⟩ := ih step
      have survivor := child?_pruneAll_some here kept
      cases image : prune dead tree with
      | none => rw [(prune_none image).1] at survivor; cases survivor
      | some tree' =>
          refine ⟨tree', rfl, sub', ?_, same⟩
          rw [descend_cons, prune_children image, survivor]
          exact there

/-- A tree is pruned away exactly if nothing in it is alive. -/
theorem prune_isSome_iff {dead : α → Bool} {tree : NamedTree κ α} (distinct : Distinct tree) :
    (prune dead tree).isSome = true ↔
      ∃ path sub, descend tree path = some sub ∧ dead sub.data = false := by
  constructor
  · intro kept
    induction tree using byChildren with
    | step key data children ih =>
        obtain ⟨tree', image⟩ := Option.isSome_iff_exists.mp kept
        cases alive : dead data with
        | false => exact ⟨[], _, rfl, alive⟩
        | true =>
            cases rest : pruneAll dead children with
            | nil =>
                rw [prune, rest, alive] at image
                cases image
            | cons first others =>
                have member : first ∈ pruneAll dead children := by simp [rest]
                obtain ⟨child, inside, image'⟩ := mem_pruneAll member
                obtain ⟨path, sub, found, living⟩ :=
                  ih child inside (distinct.child inside) (by rw [image']; rfl)
                refine ⟨child.key :: path, sub, ?_, living⟩
                have step : child? child.key children = some child :=
                  child?_of_mem distinct.siblings inside
                rw [descend_cons, children_node, step]
                exact found
  · intro living
    obtain ⟨path, sub, found, alive⟩ := living
    obtain ⟨tree', image, _⟩ := descend_prune_alive found alive
    rw [image]
    rfl

theorem lookup_prune {dead : α → Bool} {blank : α} (dead_blank : ∀ d, dead d = true → d = blank)
    {tree : NamedTree κ α} (distinct : Distinct tree) (path : List κ) :
    ((prune dead tree).map fun kept => lookup blank kept path).getD blank =
      lookup blank tree path := by
  induction path generalizing tree with
  | nil =>
      cases image : prune dead tree with
      | none => exact (dead_blank _ (prune_none image).2).symm
      | some tree' => exact (prune_key image).2
  | cons name rest ih =>
      have step : ((child? name (pruneAll dead tree.children)).map fun child =>
          lookup blank child rest).getD blank = lookup blank tree (name :: rest) := by
        rw [lookup_cons]
        cases here : child? name tree.children with
        | none => rw [child?_pruneAll_none here]
        | some child =>
            have below := ih (distinct.child (child?_mem here))
            cases image : prune dead child with
            | none =>
                rw [child?_pruneAll_removed distinct.siblings here image]
                rw [image] at below
                exact below
            | some child' =>
                rw [child?_pruneAll_some here image]
                rw [image] at below
                exact below
      cases image : prune dead tree with
      | none =>
          rw [(prune_none image).1] at step
          exact step
      | some tree' =>
          rw [Option.map_some, Option.getD_some, lookup_cons, prune_children image]
          exact step

omit [DecidableEq κ] in
theorem distinct_prune {dead : α → Bool} {tree : NamedTree κ α} (distinct : Distinct tree) :
    ∀ tree', prune dead tree = some tree' → Distinct tree' := by
  induction distinct with
  | @node key data children siblings below ih =>
      intro tree' kept
      have shape := prune_children kept
      obtain ⟨key', data', children'⟩ := tree'
      rw [children_node] at shape
      subst shape
      refine Distinct.node (List.Nodup.sublist (pruneAll_keys dead children) siblings) ?_
      intro child' member
      obtain ⟨child, inside, image⟩ := mem_pruneAll member
      exact ih child inside child' image

def InOrderOf (tree tree' : NamedTree κ α) : Prop :=
  ∀ path sub', descend tree' path = some sub' →
    ∃ sub, descend tree path = some sub ∧ (sub'.children.map key).Sublist (sub.children.map key)

theorem InOrderOf.trans {first second third : NamedTree κ α} (one : InOrderOf first second)
    (two : InOrderOf second third) : InOrderOf first third := by
  intro path sub'' found
  obtain ⟨sub', middle, later⟩ := two path sub'' found
  obtain ⟨sub, here, before⟩ := one path sub' middle
  exact ⟨sub, here, later.trans before⟩

theorem inOrderOf_mapData (g : α → α) (tree : NamedTree κ α) : InOrderOf tree (mapData g tree) := by
  intro path sub' found
  rw [descend_mapData] at found
  obtain ⟨sub, here, rfl⟩ := Option.map_eq_some_iff.mp found
  refine ⟨sub, here, ?_⟩
  obtain ⟨key, data, children⟩ := sub
  rw [mapData, children_node, children_node, mapDataAll_keys]

theorem inOrderOf_prune {dead : α → Bool} {tree tree' : NamedTree κ α} (distinct : Distinct tree)
    (kept : prune dead tree = some tree') : InOrderOf tree tree' := by
  intro path sub' found
  have moved := @descend_prune _ _ _ dead _ distinct path
  rw [kept, Option.bind_some, found] at moved
  obtain ⟨sub, here, image⟩ := Option.bind_eq_some_iff.mp moved.symm
  refine ⟨sub, here, ?_⟩
  rw [prune_children image]
  exact pruneAll_keys dead sub.children

theorem inOrderOf_alterAt {f : NamedTree κ α → Option (NamedTree κ α)} (keeps : KeepsKey f)
    {path : List κ} {tree tree' : NamedTree κ α} (distinct : Distinct tree)
    (ordered : ∀ sub sub', descend tree path = some sub → f sub = some sub' → InOrderOf sub sub')
    (done : alterAt f path tree = some tree') : InOrderOf tree tree' := by
  induction path generalizing tree tree' with
  | nil => exact ordered tree tree' rfl done
  | cons name rest ih =>
      obtain ⟨key, data, children⟩ := tree
      cases done
      intro other sub' found
      cases other with
      | nil =>
          cases found
          exact ⟨_, rfl, alterFirst_keys (alterAt_keepsKey keeps rest) children⟩
      | cons step later =>
          rw [descend_cons, children_node] at found ⊢
          by_cases same : step = name
          · subst same
            cases here : child? step children with
            | none =>
                rw [alterFirst_missing here, here] at found
                cases found
            | some child =>
                cases image : alterAt f rest child with
                | none =>
                    have siblings : (children.map NamedTree.key).Nodup := distinct.siblings
                    rw [child?_alterFirst_none siblings here image] at found
                    cases found
                | some child' =>
                    rw [child?_alterFirst_some (alterAt_keepsKey keeps rest) here image] at found
                    apply ih (distinct.child (child?_mem here)) _ image later sub' found
                    intro sub sub' reached
                    apply ordered sub sub'
                    rw [descend_cons, children_node, here]
                    exact reached
          · rw [child?_alterFirst_ne (alterAt_keepsKey keeps rest) children same] at found
            exact ⟨sub', found, List.Sublist.refl _⟩

end NamedTree
