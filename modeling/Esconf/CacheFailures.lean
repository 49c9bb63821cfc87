import Esconf.Cache

/-! What `esconf_cache_set` leaves behind when it fails. -/

namespace Esconf

variable (host : Host)

/-- The tables are the same, and so are the old items there were and their
cancellables. -/
structure EsconfCache.Unchanged (before after : EsconfCache) : Prop where
  properties : after.properties = before.properties
  oldProperties : after.oldProperties = before.oldProperties
  pendingCalls : after.pendingCalls = before.pendingCalls
  oldItems : ∀ number oldItem, before.oldItems number = some oldItem →
    after.oldItems number = some oldItem
  cancelled : ∀ number oldItem, before.oldItems number = some oldItem →
    after.cancelled oldItem.cancellable = before.cancelled oldItem.cancellable

theorem EsconfCache.Unchanged.refl (cache : EsconfCache) : cache.Unchanged cache :=
  ⟨rfl, rfl, rfl, fun _ _ there => there, fun _ _ _ => rfl⟩

def EsconfCache.Spent (cache : EsconfCache) (property : CString) : Prop :=
  ∃ number oldItem, cache.oldProperties property = some number ∧
    cache.oldItems number = some oldItem ∧ cache.cancelled oldItem.cancellable = true ∧
    oldItem.variant = none

/-- The value can be converted, or is what the cache or the daemon has, or the
daemon does not answer the question for it; or there is nothing to damage,
because the property is not fetched and its old item is spent. -/
def SetIsSafe (cache : EsconfCache) (property : CString) (value : GValue)
    (reply : Except DBusError GVariant) : Prop :=
  let (found, error, _) := esconfCacheLookupLocked cache property reply
  (esconfGvalueToGvariant host value).isSome ∨ (∃ item, found = some item ∧ item.isEqual value) ∨
    (found = none ∧ saysNotFound error = false) ∨
    (found = cache.properties property ∧ cache.Spent property)

variable {host}

theorem callSetProperty_converted {cache : EsconfCache} {property : CString} {value : GValue}
    {item : Option GValue} {number : Nat} {oldItem : EsconfCacheOldItem}
    (converted : (esconfGvalueToGvariant host value).isSome) :
    (callSetProperty host cache property value item number oldItem).ret = true := by
  obtain ⟨val, converts⟩ := Option.isSome_iff_exists.mp converted
  unfold callSetProperty
  rw [converts]

theorem callSetProperty_refused {cache : EsconfCache} {property : CString} {value : GValue}
    {item : Option GValue} {number : Nat} {oldItem : EsconfCacheOldItem}
    (refused : esconfGvalueToGvariant host value = none) :
    callSetProperty host cache property value item number oldItem =
      ⟨false, none, cache, none, none⟩ := by
  unfold callSetProperty
  rw [refused]

def EsconfCache.Numbered (cache : EsconfCache) : Prop :=
  ∀ number oldItem, cache.oldItems number = some oldItem →
    oldItem.cancellable < cache.nextCancellable

namespace EsconfCache.Numbered

variable {cache : EsconfCache}

theorem setOldItem (numbered : cache.Numbered) (number : Nat) {oldItem : EsconfCacheOldItem}
    (given : oldItem.cancellable < cache.nextCancellable) :
    (cache.setOldItem number oldItem).Numbered := by
  intro other otherItem there
  rw [EsconfCache.setOldItem] at there
  by_cases here : other = number
  · simp only [here, Function.update_self, Option.some.injEq] at there
    exact there ▸ given
  · simp only [Function.update_of_ne here] at there
    exact numbered other otherItem there

theorem newCancellable (numbered : cache.Numbered) : cache.newCancellable.Numbered :=
  fun number oldItem there => Nat.lt_succ_of_lt (numbered number oldItem there)

theorem free (numbered : cache.Numbered) (number : Nat) :
    EsconfCache.Numbered { cache with oldItems := Function.update cache.oldItems number none } := by
  intro other oldItem there
  by_cases here : other = number
  · simp only [here, Function.update_self] at there
    cases there
  · simp only [Function.update_of_ne here] at there
    exact numbered other oldItem there

end EsconfCache.Numbered

theorem cancelOldCall_properties (cache : EsconfCache) (number : Nat)
    (oldItem : EsconfCacheOldItem) :
    (cancelOldCall cache number oldItem).1.properties = cache.properties := by
  unfold cancelOldCall
  split <;> rfl

theorem cancelOldCall_unchanged {cache : EsconfCache} (numbered : cache.Numbered) {number : Nat}
    {oldItem : EsconfCacheOldItem} (allocated : cache.oldItems number = some oldItem) :
    cache.Unchanged (cancelOldCall cache number oldItem).1 ↔
      cache.cancelled oldItem.cancellable = true ∧ oldItem.variant = none := by
  unfold cancelOldCall
  by_cases cancelled : cache.cancelled oldItem.cancellable = true
  · rw [if_pos cancelled]
    constructor
    · intro unchanged
      have same := unchanged.oldItems number oldItem allocated
      simp only [EsconfCache.setOldItem, Function.update_self, Option.some.injEq] at same
      exact ⟨cancelled, (congrArg EsconfCacheOldItem.variant same).symm⟩
    · rintro ⟨_, dropped⟩
      have same : { oldItem with variant := none } = oldItem := by
        rw [← dropped]
      simp only [same, EsconfCache.setOldItem_same allocated]
      exact EsconfCache.Unchanged.refl cache
  · rw [if_neg cancelled]
    constructor
    · intro unchanged
      have same := unchanged.oldItems number oldItem allocated
      simp only [EsconfCache.setOldItem, Function.update_self, Option.some.injEq] at same
      have renewed := congrArg EsconfCacheOldItem.cancellable same
      exact absurd renewed (Nat.ne_of_gt (numbered number oldItem allocated))
    · intro spent
      exact absurd spent.1 cancelled

theorem setLookedUp_refused {cache : EsconfCache} (numbered : cache.Numbered)
    {property : CString} {value : GValue} {item : Option GValue} {outcome : SetReturn}
    (refused : esconfGvalueToGvariant host value = none)
    (differs : item.any (GValue.isEqual · value) = false)
    (returned : setLookedUp host cache property value item = some outcome) :
    outcome.ret = false ∧ outcome.cache.properties = cache.properties ∧
      (cache.Unchanged outcome.cache ↔ cache.Spent property) := by
  rw [setLookedUp, differs, if_neg Bool.false_ne_true] at returned
  cases there : cache.oldProperties property with
  | some number =>
      rw [there] at returned
      cases allocated : cache.oldItems number with
      | none =>
          simp only [allocated] at returned
          cases returned
      | some oldItem =>
          simp only [allocated, callSetProperty_refused refused] at returned
          cases returned
          refine ⟨rfl, cancelOldCall_properties cache number oldItem, ?_⟩
          rw [cancelOldCall_unchanged numbered allocated]
          constructor
          · intro spent
            exact ⟨number, oldItem, there, allocated, spent⟩
          · rintro ⟨other, otherItem, present, held, spent⟩
            rw [there, Option.some.injEq] at present
            rw [← present, allocated, Option.some.injEq] at held
            exact held ▸ spent
  | none =>
      rw [there] at returned
      simp only [callSetProperty_refused refused] at returned
      cases returned
      refine ⟨rfl, rfl, ?_, ?_⟩
      · intro unchanged
        have same := congrFun unchanged.oldProperties property
        rw [there] at same
        simp [addOldItem] at same
      · rintro ⟨number, _, present, _⟩
        rw [there] at present
        cases present

theorem setLookedUp_converted {cache : EsconfCache} {property : CString} {value : GValue}
    {item : Option GValue} {outcome : SetReturn}
    (converted : (esconfGvalueToGvariant host value).isSome)
    (returned : setLookedUp host cache property value item = some outcome) :
    outcome.ret = true := by
  rw [setLookedUp] at returned
  split at returned
  · cases returned
    rfl
  · split at returned
    · split at returned
      · cases returned
      · cases returned
        exact callSetProperty_converted converted
    · cases returned
      exact callSetProperty_converted converted

theorem esconfCacheLookupLocked_cases (cache : EsconfCache) (property : CString)
    (reply : Except DBusError GVariant) :
    (∃ error, esconfCacheLookupLocked cache property reply =
      (cache.properties property, error, cache)) ∨
    ∃ value, cache.properties property = none ∧ esconfCacheLookupLocked cache property reply =
      (some value, none, cache.insertProperty property value) := by
  unfold esconfCacheLookupLocked
  cases cached : cache.properties property with
  | some item => exact Or.inl ⟨none, rfl⟩
  | none =>
      cases reply with
      | error error => exact Or.inl ⟨some error, rfl⟩
      | ok variant =>
          cases converted : esconfGvariantToGvalue variant with
          | none => exact Or.inl ⟨none, by simp only [lookupFetched, converted]⟩
          | some value => exact Or.inr ⟨value, rfl, by simp only [lookupFetched, converted]⟩

/-- What a set that returns TRUE, having found an item, leaves: the item if it is equal, else
the value, which it has sent. -/
structure SetIsCached (host : Host) (before after : EsconfCache) (property : CString)
    (value : GValue) (found : Option GValue) : Prop where
  named : after.channelName = before.channelName
  cached : after.properties property = some (itemAfterSet found value)
  sent : found.any (GValue.isEqual · value) = false →
    ∃ val, esconfGvalueToGvariant host value = some val

theorem callSetProperty_cached {before cache : EsconfCache} {property : CString} {value : GValue}
    {item : Option GValue} {number : Nat} {oldItem : EsconfCacheOldItem}
    (named : cache.channelName = before.channelName)
    (returned : (callSetProperty host cache property value item number oldItem).ret = true) :
    SetIsCached host before
      (callSetProperty host cache property value item number oldItem).cache property value item := by
  unfold callSetProperty at returned ⊢
  cases converted : esconfGvalueToGvariant host value with
  | none =>
      rw [converted] at returned
      cases returned
  | some val =>
      refine ⟨named, ?_, fun _ => ⟨val, converted⟩⟩
      simp [EsconfCache.insertProperty]

theorem cancelOldCall_channelName (cache : EsconfCache) (number : Nat)
    (oldItem : EsconfCacheOldItem) :
    (cancelOldCall cache number oldItem).1.channelName = cache.channelName := by
  unfold cancelOldCall
  split <;> rfl

theorem setLookedUp_cached {cache : EsconfCache} {property : CString} {value : GValue}
    {item : Option GValue} {outcome : SetReturn} (found : cache.properties property = item)
    (returned : setLookedUp host cache property value item = some outcome)
    (succeeded : outcome.ret = true) :
    SetIsCached host cache outcome.cache property value item := by
  cases differs : item.any (GValue.isEqual · value) with
  | true =>
      rw [setLookedUp_equal differs] at returned
      cases returned
      obtain ⟨kept, present, equal⟩ := (Option.any_eq_true _ item).mp differs
      refine ⟨rfl, ?_, fun apart => absurd (differs.symm.trans apart) (by simp)⟩
      simp [found, present, itemAfterSet, esconfCacheItemUpdate, equal]
  | false =>
      rw [setLookedUp, differs, if_neg Bool.false_ne_true] at returned
      split at returned
      · split at returned
        · cases returned
        · cases returned
          exact callSetProperty_cached (cancelOldCall_channelName _ _ _) succeeded
      · cases returned
        exact callSetProperty_cached rfl succeeded

theorem esconfCacheSet_cached {cache : EsconfCache} {property : CString} {value : GValue}
    {reply : Except DBusError GVariant} {outcome : SetReturn}
    (returned : esconfCacheSet host cache property value reply = some outcome)
    (succeeded : outcome.ret = true) :
    SetIsCached host cache outcome.cache property value
      (esconfCacheLookupLocked cache property reply).1 := by
  rw [esconfCacheSet] at returned
  rcases esconfCacheLookupLocked_cases cache property reply with
    ⟨error, looked⟩ | ⟨fetched, _, looked⟩
  · rw [looked] at returned ⊢
    cases found : cache.properties property with
    | some item =>
        rw [found] at returned
        exact setLookedUp_cached found returned succeeded
    | none =>
        rw [found] at returned
        dsimp only [setAfterLookup] at returned
        split at returned
        · exact setLookedUp_cached found returned succeeded
        · cases returned
          cases succeeded
  · rw [looked] at returned ⊢
    have found : (cache.insertProperty property fetched).properties property = some fetched :=
      Function.update_self ..
    have cached := setLookedUp_cached found returned succeeded
    exact ⟨cached.named, cached.cached, cached.sent⟩

theorem setLookedUp_ret {cache : EsconfCache} (numbered : cache.Numbered)
    {property : CString} {value : GValue} {item : Option GValue} {outcome : SetReturn}
    (returned : setLookedUp host cache property value item = some outcome) :
    outcome.ret = true ↔
      (esconfGvalueToGvariant host value).isSome ∨ item.any (GValue.isEqual · value) = true := by
  constructor
  · intro succeeded
    by_contra neither
    rw [not_or, Option.not_isSome_iff_eq_none, Bool.not_eq_true] at neither
    have failed := (setLookedUp_refused numbered neither.1 neither.2 returned).1
    rw [succeeded] at failed
    cases failed
  · rintro (converted | equal)
    · exact setLookedUp_converted converted returned
    · rw [setLookedUp_equal equal] at returned
      cases returned
      rfl

theorem setLookedUp_failed {cache : EsconfCache} (numbered : cache.Numbered)
    {property : CString} {value : GValue} {item : Option GValue} {outcome : SetReturn}
    (returned : setLookedUp host cache property value item = some outcome)
    (failed : outcome.ret = false) :
    outcome.cache.properties = cache.properties ∧
      (cache.Unchanged outcome.cache ↔ cache.Spent property) := by
  have ret := (setLookedUp_ret numbered returned).not
  rw [Bool.not_eq_true, not_or, Option.not_isSome_iff_eq_none, Bool.not_eq_true] at ret
  obtain ⟨refused, differs⟩ := ret.mp failed
  exact (setLookedUp_refused numbered refused differs returned).2

theorem setLookedUp_unchanged {cache : EsconfCache} (numbered : cache.Numbered)
    {property : CString} {value : GValue} {item : Option GValue} {outcome : SetReturn}
    (returned : setLookedUp host cache property value item = some outcome) :
    (outcome.ret = false → cache.Unchanged outcome.cache) ↔
      (esconfGvalueToGvariant host value).isSome ∨
        item.any (GValue.isEqual · value) = true ∨ cache.Spent property := by
  rw [← or_assoc, ← setLookedUp_ret numbered returned]
  cases ret : outcome.ret with
  | true => exact iff_of_true nofun (Or.inl rfl)
  | false =>
      rw [(setLookedUp_failed numbered returned ret).2]
      simp

/-- A failing set leaves the cache as it was exactly if it is safe. -/
theorem failed_set_unchanged {cache : EsconfCache} (numbered : cache.Numbered)
    {property : CString} {value : GValue} {reply : Except DBusError GVariant}
    {outcome : SetReturn} (returned : esconfCacheSet host cache property value reply = some outcome) :
    (outcome.ret = false → cache.Unchanged outcome.cache) ↔
      SetIsSafe host cache property value reply := by
  unfold esconfCacheSet setAfterLookup at returned
  unfold SetIsSafe
  rcases esconfCacheLookupLocked_cases cache property reply with
    ⟨error, found⟩ | ⟨fetched, missing, found⟩
  · simp only [found, true_and] at returned ⊢
    cases cached : cache.properties property with
    | some item =>
        simp only [cached] at returned
        rw [setLookedUp_unchanged numbered returned]
        simp
    | none =>
        simp only [cached] at returned
        cases notFound : saysNotFound error with
        | true =>
            rw [notFound, if_pos rfl] at returned
            rw [setLookedUp_unchanged numbered returned]
            simp
        | false =>
            rw [notFound, if_neg Bool.false_ne_true] at returned
            cases returned
            refine iff_of_true (fun _ => EsconfCache.Unchanged.refl cache) ?_
            exact Or.inr (Or.inr (Or.inl ⟨rfl, rfl⟩))
  · simp only [found] at returned ⊢
    have counted : (cache.insertProperty property fetched).Numbered := numbered
    have changed : outcome.ret = false → ¬cache.Unchanged outcome.cache := by
      intro failed unchanged
      have same := congrFun unchanged.properties property
      rw [(setLookedUp_failed counted returned failed).1, missing] at same
      simp [EsconfCache.insertProperty] at same
    have ret := setLookedUp_ret counted returned
    rw [missing]
    cases succeeded : outcome.ret with
    | true =>
        refine iff_of_true (fun failed => Bool.noConfusion failed) ?_
        rcases ret.mp succeeded with converted | equal
        · exact Or.inl converted
        · exact Or.inr (Or.inl ⟨fetched, rfl, equal⟩)
    | false =>
        rw [succeeded] at ret
        refine iff_of_false (fun harmless => changed succeeded (harmless rfl)) ?_
        rintro (converted | ⟨item, same, equal⟩ | ⟨missed, _⟩ | ⟨missed, _⟩)
        · exact Bool.false_ne_true (ret.mpr (Or.inl converted))
        · cases same
          exact Bool.false_ne_true (ret.mpr (Or.inr equal))
        · cases missed
        · cases missed

end Esconf
