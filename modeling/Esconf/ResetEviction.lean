import Esconf.Cache
import Esconf.ReadPaths

/-! What a successful `esconf_cache_reset` leaves in the cache of the properties it was for. -/

namespace Esconf

/-- The checks that the daemon makes of the name of a reset pass. -/
def ResetAllowed (propertyBase : CString) (recursive : Bool) : Prop :=
  propertyBase ≠ [] ∧ recursiveOnly propertyBase recursive = none ∧
    baseIsValid propertyBase = none

/-- Nothing is cached of the property base and, if the reset was recursive, below it. -/
def Evicted (cache : EsconfCache) (propertyBase : CString) (recursive : Bool) : Prop :=
  ∀ name, name = propertyBase ∨ recursive = true ∧ Daemon.Store.below propertyBase name = true →
    cache.properties name = none

theorem resetAllowed_iff {propertyBase : CString} {recursive : Bool} :
    ResetAllowed propertyBase recursive ↔
      propertyBase = "/".toList ∧ recursive = true ∨ esconfPropertyIsValid propertyBase = none := by
  by_cases empty : propertyBase = []
  · subst empty
    simp [ResetAllowed, esconfPropertyIsValid]
  by_cases root : propertyBase = "/".toList
  · subst root
    cases recursive <;> simp [ResetAllowed, recursiveOnly, baseIsValid, esconfPropertyIsValid]
  · simp only [ResetAllowed, recursiveOnly, baseIsValid, empty, root, or_self, and_false,
      ↓reduceIte, ne_eq, not_false_eq_true, true_and, false_and, false_or]

theorem gAsciiTolower_slash {c : Char} (slash : gAsciiTolower c = '/') : c = '/' := by
  unfold gAsciiTolower at slash
  split at slash
  · next upper =>
      have letters : ∀ n < 91, 65 ≤ n → Char.ofNat (n + 32) ≠ '/' := by decide
      exact absurd slash (letters c.toNat (Nat.lt_succ_of_le upper.2) upper.1)
  · exact slash

theorem startsWithAnyCase_of_isPrefix {base name : CString} (start : base <+: name) :
    startsWithAnyCase base name = true := by
  have same : name.take base.length = base := (List.prefix_iff_eq_take.mp start).symm
  rw [startsWithAnyCase, same]
  exact beq_self_eq_true _

theorem startsWithAnyCase_slashes {name : CString} :
    startsWithAnyCase "//".toList name = true ↔ "//".toList <+: name := by
  refine ⟨fun start => ?_, startsWithAnyCase_of_isPrefix⟩
  have same : (name.take 2).map gAsciiTolower = ['/', '/'] := eq_of_beq start
  obtain ⟨first, rest, front, one, more⟩ := List.map_eq_cons_iff.mp same
  obtain ⟨second, last, middle, two, none⟩ := List.map_eq_cons_iff.mp more
  have whole : name.take 2 = ['/', '/'] := by
    rw [front, middle, List.map_eq_nil_iff.mp none, gAsciiTolower_slash one,
      gAsciiTolower_slash two]
  have start : name.take 2 <+: name := List.take_prefix 2 name
  rwa [whole] at start

section

variable {cache : EsconfCache} {propertyBase : CString} {recursive : Bool}

theorem evictBelow_base : (evictBelow cache propertyBase recursive).properties propertyBase = none := by
  cases recursive
  · exact Function.update_self ..
  · change (if startsWithAnyCase _ _ then none else _) = _
    split
    · rfl
    · exact Function.update_self ..

theorem evictBelow_other {name : CString} (other : name ≠ propertyBase) :
    (evictBelow cache propertyBase true).properties name =
      if startsWithAnyCase (propertyBase ++ "/".toList) name then none
      else cache.properties name := by
  have removed : (cache.removeProperty propertyBase).properties name = cache.properties name :=
    Function.update_of_ne other ..
  rw [← removed]
  rfl

theorem below_of_length {name : CString} (long : 2 ≤ propertyBase.length)
    (below : Daemon.Store.below propertyBase name = true) :
    name = propertyBase ∨ propertyBase ++ "/".toList <+: name := by
  rw [Daemon.Store.below, decide_eq_false (by omega), Bool.false_or, Bool.or_eq_true,
    beq_iff_eq, List.isPrefixOf_iff_prefix] at below
  exact below

theorem evictBelow_evicted (long : 2 ≤ propertyBase.length) :
    Evicted (evictBelow cache propertyBase recursive) propertyBase recursive := by
  intro name affected
  by_cases same : name = propertyBase
  · rw [same]
    exact evictBelow_base
  · obtain ⟨recursively, below⟩ := affected.resolve_left same
    have start := (below_of_length long below).resolve_left same
    rw [recursively, evictBelow_other same, if_pos (startsWithAnyCase_of_isPrefix start)]

/-- For the root the names looked for start with two slashes. -/
theorem evictBelow_root :
    Evicted (evictBelow cache "/".toList true) "/".toList true ↔
      ∀ name, (cache.properties name).isSome = true →
        name = "/".toList ∨ "//".toList <+: name := by
  constructor
  · intro evicted name cached
    by_contra neither
    obtain ⟨other, start⟩ := not_or.mp neither
    have gone := evicted name (Or.inr ⟨rfl, rfl⟩)
    have apart : ¬startsWithAnyCase ("/".toList ++ "/".toList) name = true :=
      fun looked => start (startsWithAnyCase_slashes.mp looked)
    rw [evictBelow_other other, if_neg apart] at gone
    rw [gone] at cached
    cases cached
  · intro only name _
    by_cases same : name = "/".toList
    · rw [same]
      exact evictBelow_base
    · rw [evictBelow_other same]
      split
      · rfl
      · next start =>
          cases there : cache.properties name with
          | none => rfl
          | some value =>
              have slashes := (only name (by rw [there]; rfl)).resolve_left same
              exact absurd (startsWithAnyCase_slashes.mpr slashes) start

end

/-- No property has such a name, so that a cache of properties must be empty. -/
theorem only_slashes_iff_empty {cache : EsconfCache}
    (properties : ∀ name, (cache.properties name).isSome = true →
      esconfPropertyIsValid name = none) :
    (∀ name, (cache.properties name).isSome = true →
      name = "/".toList ∨ "//".toList <+: name) ↔ ∀ name, cache.properties name = none := by
  constructor
  · intro only name
    cases there : cache.properties name with
    | none => rfl
    | some value =>
        have cached : (cache.properties name).isSome = true := by rw [there]; rfl
        have valid := properties name cached
        rcases only name cached with same | ⟨rest, same⟩
        · rw [same] at valid
          cases valid
        · obtain ⟨_, _, _, clean⟩ := propNameIsValid_iff.mp (propNameIsValid_of_property valid)
          rw [← same] at clean
          cases clean
  · intro empty name cached
    rw [empty name] at cached
    cases cached

/-- A successful reset evicts what it was for, unless it was for the root and something
was cached. -/
theorem reset_evicts_iff {cache : EsconfCache} {propertyBase : CString} {recursive : Bool}
    {reply : Except DBusError Unit} (accepted : ResetAllowed propertyBase recursive)
    (done : (esconfCacheReset cache propertyBase recursive reply).1 = true) :
    Evicted (esconfCacheReset cache propertyBase recursive reply).2.2 propertyBase recursive ↔
      (propertyBase = "/".toList → ∀ name, (cache.properties name).isSome = true →
        name = "/".toList ∨ "//".toList <+: name) := by
  cases reply with
  | error error => cases done
  | ok =>
      change Evicted (evictBelow cache propertyBase recursive) propertyBase recursive ↔ _
      rcases resetAllowed_iff.mp accepted with ⟨root, recursively⟩ | valid
      · subst root recursively
        rw [evictBelow_root]
        exact ⟨fun only _ => only, fun only => only rfl⟩
      · obtain ⟨c, rest, shape, _⟩ := propNameIsValid_iff.mp (propNameIsValid_of_property valid)
        have long : 2 ≤ propertyBase.length := by simp [shape]
        refine ⟨fun _ root => ?_, fun _ => evictBelow_evicted long⟩
        rw [root] at long
        exact absurd long (by decide)

def cacheOf (property : CString) (value : GValue) : EsconfCache :=
  (EsconfCache.new "Panel".toList).insertProperty property value

theorem recursive_reset_evicts :
    Evicted (esconfCacheReset (cacheOf "/a/b".toList (.int 1)) "/a".toList true (.ok ())).2.2
      "/a".toList true :=
  (reset_evicts_iff (resetAllowed_iff.mpr (Or.inr rfl)) rfl).mpr fun root => nomatch root

/-- A reset of the whole channel returns TRUE and leaves a property in the cache. -/
theorem root_reset_keeps :
    ResetAllowed "/".toList true ∧
      (esconfCacheReset (cacheOf "/a".toList (.int 1)) "/".toList true (.ok ())).1 = true ∧
      ¬Evicted (esconfCacheReset (cacheOf "/a".toList (.int 1)) "/".toList true (.ok ())).2.2
        "/".toList true := by
  refine ⟨resetAllowed_iff.mpr (Or.inl ⟨rfl, rfl⟩), rfl, ?_⟩
  intro evicted
  have gone := evicted "/a".toList (Or.inr ⟨rfl, rfl⟩)
  have kept : (esconfCacheReset (cacheOf "/a".toList (.int 1)) "/".toList true
      (.ok ())).2.2.properties "/a".toList = some (.int 1) := by decide
  rw [kept] at gone
  cases gone

end Esconf
