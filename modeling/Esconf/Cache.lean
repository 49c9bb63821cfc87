import Esconf.GVariant
import Mathlib.Logic.Function.Basic

/-! The cache of a client: `esconf/esconf-cache.c`. -/

namespace Esconf

/-- The error of a D-Bus call, with the D-Bus name of a remote error. -/
structure DBusError where
  remoteName : Option CString
  message : CString
  deriving DecidableEq

/-- `cancellable` is the number of a GCancellable. -/
structure EsconfCacheOldItem where
  property : CString
  item : Option GValue
  cancellable : Nat
  pendingCallsCount : Int
  variant : Option GVariant

/-- The old items and the cancellables are on a heap, the former until they are
freed; both hash tables lead to old items, one by property and one by cancellable. -/
structure EsconfCache where
  channelName : CString
  properties : CString → Option GValue
  pendingCalls : Nat → Option Nat
  oldProperties : CString → Option Nat
  oldItems : Nat → Option EsconfCacheOldItem
  nextOldItem : Nat
  cancelled : Nat → Bool
  nextCancellable : Nat

/-- `esconf_cache_new`, before anything is fetched. -/
def EsconfCache.new (channelName : CString) : EsconfCache :=
  { channelName, properties := fun _ => none, pendingCalls := fun _ => none,
    oldProperties := fun _ => none, oldItems := fun _ => none, nextOldItem := 0,
    cancelled := fun _ => false, nextCancellable := 0 }

namespace EsconfCache

def insertProperty (cache : EsconfCache) (property : CString) (value : GValue) : EsconfCache :=
  { cache with properties := Function.update cache.properties property (some value) }

def removeProperty (cache : EsconfCache) (property : CString) : EsconfCache :=
  { cache with properties := Function.update cache.properties property none }

def setOldItem (cache : EsconfCache) (number : Nat) (oldItem : EsconfCacheOldItem) : EsconfCache :=
  { cache with oldItems := Function.update cache.oldItems number (some oldItem) }

theorem setOldItem_same {cache : EsconfCache} {number : Nat} {oldItem : EsconfCacheOldItem}
    (allocated : cache.oldItems number = some oldItem) : cache.setOldItem number oldItem = cache := by
  simp only [setOldItem, ← allocated, Function.update_eq_self]

/-- `g_cancellable_cancel`. -/
def cancel (cache : EsconfCache) (cancellable : Nat) : EsconfCache :=
  { cache with cancelled := Function.update cache.cancelled cancellable true }

/-- `g_cancellable_new`; the new one has the number `nextCancellable`. -/
def newCancellable (cache : EsconfCache) : EsconfCache :=
  { cache with
    cancelled := Function.update cache.cancelled cache.nextCancellable false,
    nextCancellable := cache.nextCancellable + 1 }

def removePendingCall (cache : EsconfCache) (cancellable : Nat) : EsconfCache :=
  { cache with pendingCalls := Function.update cache.pendingCalls cancellable none }

end EsconfCache

/-- `esconf_cache_item_update` with a value: the item, and whether it changed. -/
def esconfCacheItemUpdate (item value : GValue) : GValue × Bool :=
  if item.isEqual value then (item, false) else (value, true)

/-- The property-changed signal of the cache, if it is emitted: the property and
its value, unset when there is none. -/
abbrev Announced := Option (CString × GValue)

/-- `esconf_cache_handle_property_changed`. A value that cannot be converted
updates nothing. -/
def esconfCacheHandlePropertyChanged (cache : EsconfCache) (channelName property : CString)
    (propVariant : GVariant) : EsconfCache × Announced :=
  if channelName ≠ cache.channelName then (cache, none)
  else if (cache.oldProperties property).isSome then (cache, none)
  else match cache.properties property, esconfGvariantToGvalue propVariant with
    | some item, some value =>
      let (updated, changed) := esconfCacheItemUpdate item value
      (cache.insertProperty property updated, if changed then some (property, value) else none)
    | none, some value => (cache.insertProperty property value, some (property, value))
    | some _, none => (cache, none)
    -- A value that cannot be converted is announced as unset.
    | none, none => (cache, some (property, .invalid))

/-- `esconf_cache_handle_property_removed`. -/
def esconfCacheHandlePropertyRemoved (cache : EsconfCache) (channelName property : CString) :
    EsconfCache × Announced :=
  if channelName ≠ cache.channelName then (cache, none)
  else (cache.removeProperty property, some (property, .invalid))

/-- `esconf_cache_set_property_reply_handler`, `finish` being how the call that
the callback belongs to ended; `none` when the old item has been freed. -/
def esconfCacheSetPropertyReplyHandler (cache : EsconfCache) (number : Nat)
    (finish : Except DBusError Unit) : Option (EsconfCache × Announced) :=
  match cache.oldItems number with
  | none => none
  | some before =>
    let oldItem := { before with pendingCallsCount := before.pendingCallsCount - 1 }
    let counted := cache.setOldItem number oldItem
    let free (cache : EsconfCache) : EsconfCache :=
      { cache with oldItems := Function.update cache.oldItems number none }
    if oldItem.pendingCallsCount > 0 then some (counted, none)
    -- Cancelled, for the last callback, means that the cache is being finalised.
    else if cache.cancelled oldItem.cancellable then some (free counted, none)
    else
      let settled := { counted.removePendingCall oldItem.cancellable with
        oldProperties := Function.update cache.oldProperties oldItem.property none }
      match cache.properties oldItem.property with
      -- The jump to `out` passes by the freeing of the old item.
      | none => some (settled, none)
      | some item =>
        match finish with
        | .ok () => some (free (settled.cancel oldItem.cancellable), none)
        | .error _ =>
          let (restored, value) := match oldItem.item with
            | some old =>
              -- An equal old value is not put back.
              let updated := (esconfCacheItemUpdate item old).1
              (settled.insertProperty oldItem.property updated, updated)
            | none => (settled.removeProperty oldItem.property, .invalid)
          some (free (restored.cancel oldItem.cancellable), some (oldItem.property, value))

abbrev Looked := Option GValue × Option DBusError × EsconfCache

/-- The part of `esconf_cache_lookup_locked` after GetProperty has answered. -/
def lookupFetched (cache : EsconfCache) (property : CString)
    (reply : Except DBusError GVariant) : Looked :=
  match reply with
  | .error error => (none, some error, cache)
  | .ok variant =>
    match esconfGvariantToGvalue variant with
    | some value => (some value, none, cache.insertProperty property value)
    | none => (none, none, cache)

/-- `esconf_cache_lookup_locked`; `reply` is the answer of GetProperty, asked for
only if the property is not cached. -/
def esconfCacheLookupLocked (cache : EsconfCache) (property : CString)
    (reply : Except DBusError GVariant) : Looked :=
  match cache.properties property with
  | some item => (some item, none, cache)
  | none => lookupFetched cache property reply

def notFoundNames : List CString :=
  ["com.expidus.Esconf.Error.PropertyNotFound".toList,
    "com.expidus.Esconf.Error.ChannelNotFound".toList]

def propertyNotFoundReply : DBusError :=
  ⟨some "com.expidus.Esconf.Error.PropertyNotFound".toList, []⟩

def saysNotFound : Option DBusError → Bool
  | some ⟨some name, _⟩ => name ∈ notFoundNames
  | _ => false

/-- A SetProperty call: the cancellable and the user data of its callback. -/
structure SetPropertyCall where
  property : CString
  variant : GVariant
  cancellable : Nat
  userData : Nat

structure SetReturn where
  ret : Bool
  error : Option DBusError
  cache : EsconfCache
  call : Option SetPropertyCall
  announced : Announced

/-- The part of `esconf_cache_set` for an old item that is there: its call is
cancelled and its variant dropped. -/
def cancelOldCall (cache : EsconfCache) (number : Nat) (oldItem : EsconfCacheOldItem) :
    EsconfCache × EsconfCacheOldItem :=
  if cache.cancelled oldItem.cancellable then
    let dropped := { oldItem with variant := none }
    (cache.setOldItem number dropped, dropped)
  else
    let renewed := { oldItem with cancellable := cache.nextCancellable, variant := none }
    ((((cache.cancel oldItem.cancellable).removePendingCall oldItem.cancellable).newCancellable).setOldItem
      number renewed, renewed)

/-- The part of `esconf_cache_set` for a property without an old item. -/
def addOldItem (cache : EsconfCache) (property : CString) (item : Option GValue) :
    EsconfCache × EsconfCacheOldItem :=
  let oldItem : EsconfCacheOldItem :=
    { property, item, cancellable := cache.nextCancellable, pendingCallsCount := 0, variant := none }
  ({ cache.newCancellable.setOldItem cache.nextOldItem oldItem with
      oldProperties := Function.update cache.oldProperties property (some cache.nextOldItem),
      nextOldItem := cache.nextOldItem + 1 }, oldItem)

/-- The cached item is updated, or there is a new one. -/
def itemAfterSet (item : Option GValue) (value : GValue) : GValue :=
  match item with
  | some item => (esconfCacheItemUpdate item value).1
  | none => value

/-- The part of `esconf_cache_set` after the old item is settled. -/
def callSetProperty (host : Host) (cache : EsconfCache) (property : CString) (value : GValue)
    (item : Option GValue) (number : Nat) (oldItem : EsconfCacheOldItem) : SetReturn :=
  match esconfGvalueToGvariant host value with
  -- The old item stays in the table without a call.
  | none => ⟨false, none, cache, none, none⟩
  | some val =>
    let called := { oldItem with
      variant := some val, pendingCallsCount := oldItem.pendingCallsCount + 1 }
    let pending := { cache.setOldItem number called with
      pendingCalls := Function.update cache.pendingCalls oldItem.cancellable (some number) }
    ⟨true, none, pending.insertProperty property (itemAfterSet item value),
      some ⟨property, .variant val, oldItem.cancellable, number⟩, some (property, value)⟩

/-- `esconf_cache_set` after the lookup; `none` when the old item has been freed. -/
def setLookedUp (host : Host) (cache : EsconfCache) (property : CString) (value : GValue)
    (item : Option GValue) : Option SetReturn :=
  if item.any (GValue.isEqual · value) then some ⟨true, none, cache, none, none⟩
  else match cache.oldProperties property with
    | some number =>
      match cache.oldItems number with
      | none => none
      | some oldItem =>
        let (cancelled, renewed) := cancelOldCall cache number oldItem
        some (callSetProperty host cancelled property value item number renewed)
    | none =>
      let (added, oldItem) := addOldItem cache property item
      some (callSetProperty host added property value item cache.nextOldItem oldItem)

section

variable {cache : EsconfCache} {number : Nat} {before : EsconfCacheOldItem}
  {finish : Except DBusError Unit}

theorem esconfCacheSetPropertyReplyHandler_waits (held : cache.oldItems number = some before)
    (more : 0 < before.pendingCallsCount - 1) :
    esconfCacheSetPropertyReplyHandler cache number finish = some (cache.setOldItem number
      { before with pendingCallsCount := before.pendingCallsCount - 1 }, none) := by
  unfold esconfCacheSetPropertyReplyHandler
  simp only [held]
  rw [if_pos more]

theorem esconfCacheSetPropertyReplyHandler_cancelled (held : cache.oldItems number = some before)
    (last : ¬0 < before.pendingCallsCount - 1)
    (cancelled : cache.cancelled before.cancellable = true) :
    esconfCacheSetPropertyReplyHandler cache number finish =
      some ({ cache with oldItems := Function.update cache.oldItems number none }, none) := by
  unfold esconfCacheSetPropertyReplyHandler
  simp only [held]
  rw [if_neg last, if_pos cancelled]
  simp only [EsconfCache.setOldItem, Function.update_idem]

theorem esconfCacheSetPropertyReplyHandler_settles (held : cache.oldItems number = some before)
    (last : ¬0 < before.pendingCallsCount - 1)
    (running : cache.cancelled before.cancellable = false) :
    ∃ after announced remaining,
      esconfCacheSetPropertyReplyHandler cache number finish = some (after, announced) ∧
      after.oldItems = Function.update cache.oldItems number remaining ∧
      (remaining = none ∨ remaining =
        some { before with pendingCallsCount := before.pendingCallsCount - 1 }) ∧
      after.oldProperties = Function.update cache.oldProperties before.property none ∧
      (∀ cancellable, cancellable ≠ before.cancellable →
        after.cancelled cancellable = cache.cancelled cancellable) ∧
      after.nextOldItem = cache.nextOldItem ∧ after.nextCancellable = cache.nextCancellable ∧
      after.pendingCalls = Function.update cache.pendingCalls before.cancellable none := by
  unfold esconfCacheSetPropertyReplyHandler
  simp only [held]
  rw [if_neg last, if_neg (Bool.eq_false_iff.mp running)]
  have freed : ∀ oldItem : EsconfCacheOldItem,
      Function.update (Function.update cache.oldItems number (some oldItem)) number none =
        Function.update cache.oldItems number none :=
    fun _ => Function.update_idem ..
  have others : ∀ cancellable, cancellable ≠ before.cancellable →
      Function.update cache.cancelled before.cancellable true cancellable =
        cache.cancelled cancellable :=
    fun _ different => Function.update_of_ne different ..
  cases cache.properties before.property with
  | none => exact ⟨_, _, _, rfl, rfl, Or.inr rfl, rfl, fun _ _ => rfl, rfl, rfl, rfl⟩
  | some item =>
      cases finish with
      | ok => exact ⟨_, _, _, rfl, freed _, Or.inl rfl, rfl, others, rfl, rfl, rfl⟩
      | error =>
          cases item : before.item with
          | none => exact ⟨_, _, _, rfl, freed _, Or.inl rfl, rfl, others, rfl, rfl, rfl⟩
          | some old => exact ⟨_, _, _, rfl, freed _, Or.inl rfl, rfl, others, rfl, rfl, rfl⟩

theorem esconfCacheSetPropertyReplyHandler_ok {after : EsconfCache} {announced : Announced}
    (done : esconfCacheSetPropertyReplyHandler cache number (.ok ()) = some (after, announced)) :
    after.properties = cache.properties := by
  unfold esconfCacheSetPropertyReplyHandler at done
  split at done
  · cases done
  · simp only at done
    split at done
    · cases done
      rfl
    · split at done
      · cases done
        rfl
      · split at done <;> cases done <;> rfl

theorem esconfCacheSetPropertyReplyHandler_elsewhere {after : EsconfCache} {announced : Announced}
    (held : cache.oldItems number = some before)
    (done : esconfCacheSetPropertyReplyHandler cache number finish = some (after, announced)) :
    (∀ property, property ≠ before.property →
      after.properties property = cache.properties property ∧
        after.oldProperties property = cache.oldProperties property) ∧
      (∀ other, other ≠ number → after.oldItems other = cache.oldItems other) ∧
      (announced = none ∨ ∃ value, announced = some (before.property, value)) ∧
      after.nextOldItem = cache.nextOldItem := by
  have counted : ∀ (item : Option EsconfCacheOldItem) other, other ≠ number →
      Function.update cache.oldItems number item other = cache.oldItems other :=
    fun _ _ different => Function.update_of_ne different ..
  have freed : ∀ (oldItem : EsconfCacheOldItem) other, other ≠ number →
      Function.update (Function.update cache.oldItems number (some oldItem)) number none other =
        cache.oldItems other := by
    intro oldItem other different
    rw [Function.update_idem, counted none other different]
  have waiting : ∀ property, property ≠ before.property →
      Function.update cache.oldProperties before.property none property =
        cache.oldProperties property :=
    fun _ apart => Function.update_of_ne apart ..
  have entry : ∀ (item : Option GValue) property, property ≠ before.property →
      Function.update cache.properties before.property item property = cache.properties property :=
    fun _ _ apart => Function.update_of_ne apart ..
  unfold esconfCacheSetPropertyReplyHandler at done
  simp only [held] at done
  split at done
  · cases done
    exact ⟨fun _ _ => ⟨rfl, rfl⟩, counted _, Or.inl rfl, rfl⟩
  · split at done
    · cases done
      exact ⟨fun _ _ => ⟨rfl, rfl⟩, freed _, Or.inl rfl, rfl⟩
    · split at done
      · cases done
        exact ⟨fun property apart => ⟨rfl, waiting property apart⟩, counted _, Or.inl rfl, rfl⟩
      · cases finish with
        | ok =>
            cases done
            exact ⟨fun property apart => ⟨rfl, waiting property apart⟩, freed _, Or.inl rfl, rfl⟩
        | error =>
            cases saved : before.item with
            | some old =>
                simp only [saved] at done
                cases done
                exact ⟨fun property apart => ⟨entry _ property apart, waiting property apart⟩,
                  freed _, Or.inr ⟨_, rfl⟩, rfl⟩
            | none =>
                simp only [saved] at done
                cases done
                exact ⟨fun property apart => ⟨entry _ property apart, waiting property apart⟩,
                  freed _, Or.inr ⟨_, rfl⟩, rfl⟩

end

section

variable {host : Host} {cache : EsconfCache} {property : CString} {value : GValue}
  {item : Option GValue} {val : GVariant}

theorem setLookedUp_equal (equal : item.any (GValue.isEqual · value) = true) :
    setLookedUp host cache property value item = some ⟨true, none, cache, none, none⟩ :=
  if_pos equal

theorem itemAfterSet_differs (differs : item.any (GValue.isEqual · value) = false) :
    itemAfterSet item value = value := by
  cases item with
  | none => rfl
  | some item =>
      rw [Option.any_some] at differs
      simp only [itemAfterSet, esconfCacheItemUpdate, differs]
      rfl

theorem setLookedUp_again (differs : item.any (GValue.isEqual · value) = false) {number : Nat}
    {oldItem : EsconfCacheOldItem} (there : cache.oldProperties property = some number)
    (held : cache.oldItems number = some oldItem)
    (running : cache.cancelled oldItem.cancellable = false)
    (converted : esconfGvalueToGvariant host value = some val) :
    setLookedUp host cache property value item =
      some {
        ret := true
        error := none
        cache := { cache with
          properties := Function.update cache.properties property (some value)
          pendingCalls := Function.update (Function.update cache.pendingCalls oldItem.cancellable none)
            cache.nextCancellable (some number)
          oldItems := Function.update cache.oldItems number (some { oldItem with
            cancellable := cache.nextCancellable
            pendingCallsCount := oldItem.pendingCallsCount + 1
            variant := some val })
          cancelled := Function.update (Function.update cache.cancelled oldItem.cancellable true)
            cache.nextCancellable false
          nextCancellable := cache.nextCancellable + 1 }
        call := some ⟨property, .variant val, cache.nextCancellable, number⟩
        announced := some (property, value) } := by
  unfold setLookedUp callSetProperty
  simp only [differs, there, held, cancelOldCall, running, converted, itemAfterSet_differs differs]
  simp [EsconfCache.setOldItem, EsconfCache.newCancellable, EsconfCache.removePendingCall,
    EsconfCache.cancel, EsconfCache.insertProperty]

theorem setLookedUp_first (differs : item.any (GValue.isEqual · value) = false)
    (there : cache.oldProperties property = none)
    (converted : esconfGvalueToGvariant host value = some val) :
    setLookedUp host cache property value item =
      some {
        ret := true
        error := none
        cache := { cache with
          properties := Function.update cache.properties property (some value)
          pendingCalls := Function.update cache.pendingCalls cache.nextCancellable
            (some cache.nextOldItem)
          oldProperties := Function.update cache.oldProperties property (some cache.nextOldItem)
          oldItems := Function.update cache.oldItems cache.nextOldItem
            (some ⟨property, item, cache.nextCancellable, 1, some val⟩)
          nextOldItem := cache.nextOldItem + 1
          cancelled := Function.update cache.cancelled cache.nextCancellable false
          nextCancellable := cache.nextCancellable + 1 }
        call := some ⟨property, .variant val, cache.nextCancellable, cache.nextOldItem⟩
        announced := some (property, value) } := by
  unfold setLookedUp callSetProperty
  simp only [differs, there, addOldItem, converted, itemAfterSet_differs differs]
  simp [EsconfCache.setOldItem, EsconfCache.newCancellable, EsconfCache.insertProperty]

end

/-- `esconf_cache_set` from the end of its lookup on. -/
def setAfterLookup (host : Host) (property : CString) (value : GValue) :
    Looked → Option SetReturn
  | (some item, _, fetched) => setLookedUp host fetched property value (some item)
  | (none, error, fetched) =>
    if saysNotFound error then setLookedUp host fetched property value none
    else some ⟨false, error, fetched, none, none⟩

/-- `esconf_cache_set`, with the answer GetProperty gives if it is asked. -/
def esconfCacheSet (host : Host) (cache : EsconfCache) (property : CString) (value : GValue)
    (reply : Except DBusError GVariant) : Option SetReturn :=
  setAfterLookup host property value (esconfCacheLookupLocked cache property reply)

/-- The rest of `esconf_cache_prefetch`, which is called for an empty cache, after
GetAllProperties has answered. -/
def esconfCachePrefetch (cache : EsconfCache)
    (reply : Except DBusError (CString → Option GVariant)) : Bool × EsconfCache :=
  match reply with
  | .error _ => (false, cache)
  | .ok table => (true, { cache with
      properties := fun property =>
        ((table property).bind esconfGvariantToGvalue).or (cache.properties property) })

/-- `!g_ascii_strncasecmp` with the length of the base. -/
def startsWithAnyCase (base name : CString) : Bool :=
  gAsciiStrdown (name.take base.length) == gAsciiStrdown base

/-- What a successful `esconf_cache_reset` drops from the cache. -/
def evictBelow (cache : EsconfCache) (propertyBase : CString) (recursive : Bool) : EsconfCache :=
  let removed := cache.removeProperty propertyBase
  if recursive then
    { removed with properties := fun name =>
        if startsWithAnyCase (propertyBase ++ "/".toList) name then none
        else removed.properties name }
  else removed

/-- `esconf_cache_reset` with the answer of ResetProperty. -/
def esconfCacheReset (cache : EsconfCache) (propertyBase : CString) (recursive : Bool)
    (reply : Except DBusError Unit) : Bool × Option DBusError × EsconfCache :=
  match reply with
  | .ok () => (true, none, evictBelow cache propertyBase recursive)
  | .error error => (false, some error, cache)

end Esconf
