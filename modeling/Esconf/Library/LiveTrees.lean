import Esconf.Library.TreeUpdates

/-! Named trees whose leaves are all alive, and trees of which this holds but for the node at
one path. -/

namespace NamedTree

variable {κ α : Type}

section Live

variable (dead : α → Bool)

mutual

/-- A node has children or is alive itself, and so has every node below it. -/
def live : NamedTree κ α → Bool
  | node _ data children => (!children.isEmpty || !dead data) && liveAll children

def liveAll : List (NamedTree κ α) → Bool
  | [] => true
  | child :: rest => live child && liveAll rest

end

mutual

def someAlive : NamedTree κ α → Bool
  | node _ data children => !dead data || someAliveAll children

def someAliveAll : List (NamedTree κ α) → Bool
  | [] => false
  | child :: rest => someAlive child || someAliveAll rest

end

def LiveBelow (tree : NamedTree κ α) : Prop := liveAll dead tree.children = true

instance (tree : NamedTree κ α) : Decidable (LiveBelow dead tree) :=
  inferInstanceAs (Decidable (liveAll dead tree.children = true))

/-- Every leaf is alive but the root and perhaps the node a path leads to. -/
inductive LiveBut : List κ → NamedTree κ α → Prop
  | here {key : κ} {data : α} {children : List (NamedTree κ α)}
      (below : liveAll dead children = true) : LiveBut [] (node key data children)
  | child {key : κ} {data : α} {front back : List (NamedTree κ α)} {next : NamedTree κ α}
      {rest : List κ} (apart : ∀ other ∈ front, other.key ≠ next.key)
      (before : liveAll dead front = true) (inside : LiveBut rest next)
      (after : liveAll dead back = true) :
      LiveBut (next.key :: rest) (node key data (front ++ next :: back))

end Live

variable {dead : α → Bool}

theorem liveAll_iff {children : List (NamedTree κ α)} :
    liveAll dead children = true ↔ ∀ child ∈ children, live dead child = true := by
  induction children with
  | nil => simp [liveAll]
  | cons child rest ih => simp [liveAll, ih]

theorem liveAll_append {front back : List (NamedTree κ α)} :
    liveAll dead (front ++ back) = true ↔
      liveAll dead front = true ∧ liveAll dead back = true := by
  simp only [liveAll_iff, List.mem_append]
  constructor
  · intro each
    exact ⟨fun child member => each child (Or.inl member),
      fun child member => each child (Or.inr member)⟩
  · intro both child member
    exact member.elim (both.1 child) (both.2 child)

theorem live_iff {tree : NamedTree κ α} :
    live dead tree = true ↔
      (tree.children ≠ [] ∨ dead tree.data = false) ∧ LiveBelow dead tree := by
  obtain ⟨key, data, children⟩ := tree
  rw [live, LiveBelow, children_node, data_node]
  simp

theorem someAlive_mapData {g : α → α} (tree : NamedTree κ α) :
    someAlive dead (mapData g tree) = someAlive (fun d => dead (g d)) tree := by
  induction tree using byChildren with
  | step key data children ih =>
      have all : someAliveAll dead (mapDataAll g children) =
          someAliveAll (fun d => dead (g d)) children := by
        clear data
        induction children with
        | nil => rfl
        | cons child rest later =>
            rw [mapDataAll, someAliveAll, someAliveAll, ih child List.mem_cons_self,
              later fun other member => ih other (List.mem_cons_of_mem _ member)]
      rw [mapData, someAlive, someAlive, all]

theorem pruneAll_nil_iff {children : List (NamedTree κ α)} :
    pruneAll dead children = [] ↔ ∀ child ∈ children, prune dead child = none := by
  induction children with
  | nil => simp [pruneAll]
  | cons child rest ih => simp [pruneAll, ih]

theorem live_prune {tree : NamedTree κ α} :
    ∀ tree', prune dead tree = some tree' → live dead tree' = true := by
  induction tree using byChildren with
  | step key data children ih =>
      intro tree' kept
      have below : liveAll dead (pruneAll dead children) = true := by
        apply liveAll_iff.mpr
        intro child' member
        obtain ⟨child, inside, image⟩ := mem_pruneAll member
        exact ih child inside child' image
      rw [live_iff, LiveBelow, prune_children kept, (prune_key kept).2, children_node, data_node]
      refine ⟨?_, below⟩
      rw [prune] at kept
      split at kept
      · next empty =>
          split at kept
          · cases kept
          · next alive => exact Or.inr (by simpa using alive)
      · next first rest full =>
          rw [full]
          exact Or.inl (by simp)

theorem prune_isSome (tree : NamedTree κ α) :
    (prune dead tree).isSome = someAlive dead tree := by
  induction tree using byChildren with
  | step key data children ih =>
      have all : (pruneAll dead children = []) ↔ someAliveAll dead children = false := by
        rw [pruneAll_nil_iff]
        clear data
        induction children with
        | nil => simp [someAliveAll]
        | cons child rest later =>
            have own := ih child List.mem_cons_self
            rw [List.forall_mem_cons, someAliveAll, Bool.or_eq_false_iff, ← own,
              Option.isSome_eq_false_iff, Option.isNone_iff_eq_none,
              later fun other member => ih other (List.mem_cons_of_mem _ member)]
      rw [prune, someAlive]
      cases kept : pruneAll dead children with
      | nil =>
          rw [all.mp kept, Bool.or_false]
          cases dead data <;> rfl
      | cons first rest =>
          have some' : someAliveAll dead children = true := by
            by_contra none
            rw [Bool.not_eq_true, ← all, kept] at none
            cases none
          rw [some', Bool.or_true]
          rfl

variable [DecidableEq κ]

theorem child?_split {name : κ} {children : List (NamedTree κ α)} {child : NamedTree κ α}
    (found : child? name children = some child) :
    ∃ front back, children = front ++ child :: back ∧ child.key = name ∧
      ∀ other ∈ front, other.key ≠ name := by
  obtain ⟨same, front, back, split, apart⟩ := List.find?_eq_some_iff_append.mp found
  refine ⟨front, back, split, of_decide_eq_true same, ?_⟩
  intro other member
  simpa using apart other member

theorem child?_at {front back : List (NamedTree κ α)} {next : NamedTree κ α}
    (apart : ∀ other ∈ front, other.key ≠ next.key) :
    child? next.key (front ++ next :: back) = some next := by
  rw [child?, List.find?_eq_some_iff_append]
  refine ⟨decide_eq_true rfl, front, back, rfl, ?_⟩
  intro other member
  simpa using apart other member

theorem alterFirst_at {f : NamedTree κ α → Option (NamedTree κ α)}
    {front back : List (NamedTree κ α)} {next : NamedTree κ α}
    (apart : ∀ other ∈ front, other.key ≠ next.key) :
    alterFirst next.key f (front ++ next :: back) = front ++ ((f next).toList ++ back) := by
  induction front with
  | nil => rw [List.nil_append, alterFirst, if_pos rfl, List.nil_append]
  | cons first rest ih =>
      rw [List.cons_append, alterFirst, if_neg (apart first List.mem_cons_self),
        ih fun other member => apart other (List.mem_cons_of_mem _ member), List.cons_append]

theorem alterFirst_removed {name : κ} {f : NamedTree κ α → Option (NamedTree κ α)}
    {children : List (NamedTree κ α)} {child : NamedTree κ α}
    (found : child? name children = some child) (gone : f child = none) :
    (alterFirst name f children).length + 1 = children.length := by
  obtain ⟨front, back, split, named, apart⟩ := child?_split found
  subst named
  rw [split, alterFirst_at apart, gone]
  simp
  omega

namespace LiveBut

variable {path : List κ} {tree sub : NamedTree κ α}

theorem of_live (alive : LiveBelow dead tree) (found : descend tree path = some sub) :
    LiveBut dead path tree := by
  induction path generalizing tree with
  | nil =>
      obtain ⟨key, data, children⟩ := tree
      exact .here alive
  | cons name rest ih =>
      obtain ⟨key, data, children⟩ := tree
      obtain ⟨child, here, deeper⟩ := Option.bind_eq_some_iff.mp found
      obtain ⟨front, back, split, named, apart⟩ := child?_split here
      rw [children_node] at split
      subst split named
      obtain ⟨before, rest'⟩ := liveAll_append.mp alive
      rw [liveAll, Bool.and_eq_true] at rest'
      exact .child apart before (ih (live_iff.mp rest'.1).2 deeper) rest'.2

theorem settle (loose : LiveBut dead path tree) (found : descend tree path = some sub)
    (own : path = [] ∨ sub.children ≠ [] ∨ dead sub.data = false) : LiveBelow dead tree := by
  induction loose with
  | here below => exact below
  | child apart before inside after ih =>
      rw [descend_cons, children_node, child?_at apart, Option.bind_some] at found
      have alive := own.resolve_left (by simp)
      rw [LiveBelow, children_node, liveAll_append, liveAll, Bool.and_eq_true]
      refine ⟨before, ?_, after⟩
      rw [live_iff]
      refine ⟨?_, ih found (Or.inr alive)⟩
      cases inside with
      | here below =>
          cases found
          exact alive
      | child _ _ _ _ => exact Or.inl (by simp)

theorem dead_leaf (alive : LiveBelow dead tree) (full : path ≠ [])
    (found : descend tree path = some sub) : sub.children ≠ [] ∨ dead sub.data = false := by
  induction path generalizing tree with
  | nil => exact absurd rfl full
  | cons name rest ih =>
      obtain ⟨child, here, deeper⟩ := Option.bind_eq_some_iff.mp found
      have own := live_iff.mp (liveAll_iff.mp alive child (child?_mem here))
      cases rest with
      | nil =>
          cases deeper
          exact own.1
      | cons next rest => exact ih own.2 (by simp) deeper

theorem live_inside (alive : LiveBelow dead tree) (found : descend tree path = some sub) :
    LiveBelow dead sub := by
  induction path generalizing tree with
  | nil =>
      cases found
      exact alive
  | cons name rest ih =>
      obtain ⟨child, here, deeper⟩ := Option.bind_eq_some_iff.mp found
      exact ih (live_iff.mp (liveAll_iff.mp alive child (child?_mem here))).2 deeper

theorem rewrite {f : NamedTree κ α → Option (NamedTree κ α)} (keeps : KeepsKey f)
    (loose : LiveBut dead path tree) (found : descend tree path = some sub)
    {sub' : NamedTree κ α} (image : f sub = some sub') (below : LiveBelow dead sub') :
    ∃ tree', alterAt f path tree = some tree' ∧ LiveBut dead path tree' := by
  induction loose with
  | here _ =>
      cases found
      obtain ⟨key, data, children⟩ := sub'
      exact ⟨_, image, .here below⟩
  | @child key data front back next rest apart before inside after ih =>
      rw [descend_cons, children_node, child?_at apart, Option.bind_some] at found
      obtain ⟨next', done, loose⟩ := ih found
      have named := alterAt_keepsKey keeps rest next next' done
      refine ⟨_, rfl, ?_⟩
      rw [alterFirst_at apart, done, ← named]
      apply LiveBut.child _ before loose after
      rw [named]
      exact apart

theorem remove {f : NamedTree κ α → Option (NamedTree κ α)} (keeps : KeepsKey f)
    {front : List κ} {name : κ} (loose : LiveBut dead (front ++ [name]) tree)
    (found : descend tree (front ++ [name]) = some sub) (gone : f sub = none) :
    ∃ tree', alterAt f (front ++ [name]) tree = some tree' ∧ LiveBut dead front tree' := by
  induction front generalizing tree with
  | nil =>
      cases loose with
      | child apart before inside after =>
          rw [List.nil_append, descend_cons, children_node, child?_at apart,
            Option.bind_some] at found
          cases found
          refine ⟨_, rfl, ?_⟩
          rw [alterFirst_at apart, alterAt, gone]
          exact .here (liveAll_append.mpr ⟨before, after⟩)
  | cons step front ih =>
      cases loose with
      | @child key data before' after' next _ apart before inside after =>
          rw [List.cons_append, descend_cons, children_node, child?_at apart,
            Option.bind_some] at found
          obtain ⟨next', done, loose⟩ := ih inside found
          have named := alterAt_keepsKey keeps _ _ next' done
          have whole : alterAt f (next.key :: (front ++ [name]))
              (node key data (before' ++ next :: after')) =
              some (node key data (before' ++ next' :: after')) := by
            simp [alterAt, alterFirst_at apart, done]
          refine ⟨_, whole, ?_⟩
          rw [← named]
          apply LiveBut.child _ before loose after
          rw [named]
          exact apart

theorem graft {name : κ} {d : α} (loose : LiveBut dead path tree)
    (found : descend tree path = some sub) (fresh : child? name sub.children = none) :
    LiveBut dead (path ++ [name]) (NamedTree.graft path (node name d []) tree) := by
  induction loose with
  | @here key data children below =>
      cases found
      have apart : ∀ other ∈ children, other.key ≠ (node name d []).key := by
        intro other member same
        have unequal := List.find?_eq_none.mp fresh other member
        simp [same] at unequal
      exact .child apart below (.here rfl) rfl
  | @child key data front back next rest apart before inside after ih =>
      rw [descend_cons, children_node, child?_at apart, Option.bind_some] at found
      have loose := ih found
      have done := alterAt_change (withChild (node name d [])) rest next
      have named := alterAt_keepsKey (withChild_keepsKey (node name d [])) rest next _ done
      have whole : NamedTree.graft (next.key :: rest) (node name d [])
          (node key data (front ++ next :: back)) =
          node key data (front ++ NamedTree.graft rest (node name d []) next :: back) := by
        change node key data (alterFirst next.key (alterAt _ rest) (front ++ next :: back)) = _
        rw [alterFirst_at apart, done]
        rfl
      rw [whole, List.cons_append, ← named]
      apply LiveBut.child _ before loose after
      intro other member
      exact (apart other member).trans_eq named.symm

end LiveBut

end NamedTree
