import Esconf.PendingCalls
import Mathlib.Data.List.Nodup

/-! `esconf_cache_finalize`, and the callbacks that run after it. -/

namespace Esconf

open CacheClient

abbrev SentValue := CString × GVariant

/-- `esconf_cache_old_item_end_call`: the call is cancelled and its value sent again; `none` when
the old item has been freed, or has no variant to send. -/
def esconfCacheOldItemEndCall (cache : EsconfCache) (number : Nat) :
    Option (EsconfCache × List SentValue) :=
  match cache.oldItems number with
  | none => none
  | some oldItem =>
    if cache.cancelled oldItem.cancellable then some (cache, [])
    else oldItem.variant.map fun variant =>
      (cache.cancel oldItem.cancellable, [(oldItem.property, .variant variant)])

/-- The `g_hash_table_foreach_remove` of the pending calls, which it meets in the given order. -/
def endCalls (cache : EsconfCache) : List Nat → Option (EsconfCache × List SentValue)
  | [] => some (cache, [])
  | cancellable :: rest =>
    (cache.pendingCalls cancellable).bind fun number =>
      (esconfCacheOldItemEndCall cache number).bind fun ended =>
        (endCalls (ended.1.removePendingCall cancellable) rest).map fun finished =>
          (finished.1, ended.2 ++ finished.2)

structure FinalizedCache where
  oldItems : Nat → Option EsconfCacheOldItem
  cancelled : Nat → Bool

/-- `esconf_cache_finalize`, with the synchronous requests that it makes. -/
def esconfCacheFinalize (cache : EsconfCache) (order : List Nat) :
    Option (FinalizedCache × List SentValue) :=
  (endCalls cache order).map fun ended => (⟨ended.1.oldItems, ended.1.cancelled⟩, ended.2)

/-- The keys of the pending calls, each of them once. -/
def EsconfCache.Enumerates (cache : EsconfCache) (order : List Nat) : Prop :=
  order.Nodup ∧ ∀ cancellable, cancellable ∈ order ↔ (cache.pendingCalls cancellable).isSome

theorem EsconfCache.enumerates_single {cache : EsconfCache} {key number : Nat}
    (there : cache.pendingCalls key = some number)
    (others : ∀ other, other ≠ key → cache.pendingCalls other = none) :
    cache.Enumerates [key] := by
  refine ⟨List.nodup_singleton key, ?_⟩
  intro cancellable
  rw [List.mem_singleton]
  by_cases here : cancellable = key
  · simp [here, there]
  · simp [here, others cancellable here]

/-- `esconf_cache_set_property_reply_handler` when the cache is gone: it has the old item and
its cancellable, and `none` is that it reads what has been freed. -/
def FinalizedCache.replyHandler (left : FinalizedCache) (number : Nat) : Option FinalizedCache :=
  match left.oldItems number with
  | none => none
  | some before =>
    let oldItem := { before with pendingCallsCount := before.pendingCallsCount - 1 }
    if oldItem.pendingCallsCount > 0 then
      some { left with oldItems := Function.update left.oldItems number (some oldItem) }
    else if left.cancelled oldItem.cancellable then
      some { left with oldItems := Function.update left.oldItems number none }
    else none

theorem FinalizedCache.replyHandler_waits {left : FinalizedCache} {number : Nat}
    {before : EsconfCacheOldItem} (held : left.oldItems number = some before)
    (more : 0 < before.pendingCallsCount - 1) :
    left.replyHandler number = some { left with
      oldItems := Function.update left.oldItems number
        (some { before with pendingCallsCount := before.pendingCallsCount - 1 }) } := by
  simp only [FinalizedCache.replyHandler, held]
  rw [if_pos more]

theorem FinalizedCache.replyHandler_frees {left : FinalizedCache} {number : Nat}
    {before : EsconfCacheOldItem} (held : left.oldItems number = some before)
    (last : ¬0 < before.pendingCallsCount - 1)
    (cancelled : left.cancelled before.cancellable = true) :
    left.replyHandler number =
      some { left with oldItems := Function.update left.oldItems number none } := by
  simp only [FinalizedCache.replyHandler, held]
  rw [if_neg last, if_pos cancelled]

/-- Where it does not need the cache, the handler does the same without it. -/
theorem replyHandler_agrees {cache : EsconfCache} {number : Nat} {left : FinalizedCache}
    (done : FinalizedCache.replyHandler ⟨cache.oldItems, cache.cancelled⟩ number = some left)
    (finish : Except DBusError Unit) :
    esconfCacheSetPropertyReplyHandler cache number finish =
      some ({ cache with oldItems := left.oldItems }, none) ∧ left.cancelled = cache.cancelled := by
  unfold FinalizedCache.replyHandler at done
  cases held : cache.oldItems number with
  | none =>
      simp only [held] at done
      cases done
  | some before =>
      simp only [held] at done
      split at done
      · next more =>
          cases done
          exact ⟨esconfCacheSetPropertyReplyHandler_waits held more, rfl⟩
      · next last =>
          split at done
          · next cancelled =>
              cases done
              exact ⟨esconfCacheSetPropertyReplyHandler_cancelled held last cancelled, rfl⟩
          · cases done

def EsconfCache.ending (cache : EsconfCache) (cancellable : Nat) : Option SentValue :=
  (cache.pendingCalls cancellable).bind fun number =>
    (cache.oldItems number).bind fun oldItem =>
      oldItem.variant.map fun variant => (oldItem.property, .variant variant)

theorem endCalls_sent {cache : EsconfCache} {order : List Nat} (once : order.Nodup)
    (running : ∀ cancellable ∈ order, ∃ number oldItem variant,
      cache.pendingCalls cancellable = some number ∧ cache.oldItems number = some oldItem ∧
        oldItem.cancellable = cancellable ∧ cache.cancelled cancellable = false ∧
        oldItem.variant = some variant) :
    ∃ ended, endCalls cache order = some (ended, order.filterMap cache.ending) ∧
      ended.oldItems = cache.oldItems ∧
      ∀ cancellable, ended.cancelled cancellable =
        (decide (cancellable ∈ order) || cache.cancelled cancellable) := by
  induction order generalizing cache with
  | nil => exact ⟨cache, rfl, rfl, fun _ => by simp⟩
  | cons first rest ih =>
      obtain ⟨number, oldItem, variant, pending, held, rfl, alive, carries⟩ :=
        running _ List.mem_cons_self
      obtain ⟨apart, once⟩ := List.nodup_cons.mp once
      have ending : cache.ending oldItem.cancellable =
          some (oldItem.property, .variant variant) := by
        simp [EsconfCache.ending, pending, held, carries]
      have ended : esconfCacheOldItemEndCall cache number = some
          (cache.cancel oldItem.cancellable, [(oldItem.property, .variant variant)]) := by
        simp [esconfCacheOldItemEndCall, held, alive, carries]
      have others : ∀ cancellable ∈ rest, cancellable ≠ oldItem.cancellable := by
        rintro _ member rfl
        exact apart member
      have later : ∀ cancellable ∈ rest, ∃ number otherItem variant,
          ((cache.cancel oldItem.cancellable).removePendingCall
            oldItem.cancellable).pendingCalls cancellable = some number ∧
          cache.oldItems number = some otherItem ∧ otherItem.cancellable = cancellable ∧
          (cache.cancel oldItem.cancellable).cancelled cancellable = false ∧
          otherItem.variant = some variant := by
        intro cancellable member
        obtain ⟨other, otherItem, otherVariant, there, item, mine, alive, rest⟩ :=
          running cancellable (List.mem_cons_of_mem _ member)
        have different := others cancellable member
        exact ⟨other, otherItem, otherVariant, (Function.update_of_ne different ..).trans there,
          item, mine, (Function.update_of_ne different ..).trans alive, rest⟩
      obtain ⟨finished, done, oldItems, cancelled⟩ := ih once later
      refine ⟨finished, ?_, oldItems, ?_⟩
      · rw [List.filterMap_cons_some ending]
        have same : rest.filterMap ((cache.cancel oldItem.cancellable).removePendingCall
            oldItem.cancellable).ending = rest.filterMap cache.ending := by
          refine List.filterMap_congr fun cancellable member => ?_
          exact congrArg (Option.bind · _) (Function.update_of_ne (others cancellable member) ..)
        simp only [endCalls, pending, ended, Option.bind_some, done, Option.map_some, same]
        rfl
      · intro cancellable
        rw [cancelled]
        by_cases here : cancellable = oldItem.cancellable
        · simp [here, EsconfCache.removePendingCall, EsconfCache.cancel]
        · simp [here, EsconfCache.removePendingCall, EsconfCache.cancel]

namespace Tracked

variable {cache : EsconfCache} {calls : List SetPropertyCall} {order : List Nat}

theorem ending (tracked : Tracked cache calls) {cancellable number : Nat}
    (pending : cache.pendingCalls cancellable = some number) :
    ∃ oldItem variant, cache.oldItems number = some oldItem ∧
      oldItem.cancellable = cancellable ∧ cache.cancelled cancellable = false ∧
      oldItem.variant = some variant ∧ cache.oldProperties oldItem.property = some number ∧
      cache.ending cancellable = some (oldItem.property, .variant variant) := by
  obtain ⟨oldItem, held, rfl, there⟩ := (tracked.pending cancellable number).mp pending
  obtain ⟨variant, carries⟩ :=
    Option.isSome_iff_exists.mp (tracked.carrying number oldItem held)
  obtain ⟨again, same, _, alive, _⟩ := tracked.coherent.known _ number there
  rw [held, Option.some.injEq] at same
  refine ⟨oldItem, variant, held, rfl, same ▸ alive, carries, there, ?_⟩
  simp [EsconfCache.ending, pending, held, carries]

theorem finalized (tracked : Tracked cache calls) (all : cache.Enumerates order) :
    ∃ left, esconfCacheFinalize cache order = some (left, order.filterMap cache.ending) ∧
      left.oldItems = cache.oldItems ∧
      ∀ call ∈ calls, ∃ oldItem, left.oldItems call.userData = some oldItem ∧
        left.cancelled oldItem.cancellable = true := by
  have running : ∀ cancellable ∈ order, ∃ number oldItem variant,
      cache.pendingCalls cancellable = some number ∧ cache.oldItems number = some oldItem ∧
        oldItem.cancellable = cancellable ∧ cache.cancelled cancellable = false ∧
        oldItem.variant = some variant := by
    intro cancellable member
    obtain ⟨number, pending⟩ := Option.isSome_iff_exists.mp ((all.2 cancellable).mp member)
    obtain ⟨oldItem, variant, held, mine, alive, carries, _⟩ := tracked.ending pending
    exact ⟨number, oldItem, variant, pending, held, mine, alive, carries⟩
  obtain ⟨ended, done, oldItems, cancelled⟩ := endCalls_sent all.1 running
  refine ⟨⟨ended.oldItems, ended.cancelled⟩, ?_, oldItems, ?_⟩
  · rw [esconfCacheFinalize, done]
    rfl
  · intro call member
    obtain ⟨oldItem, held, _, _, pending⟩ := tracked.alive member
    refine ⟨oldItem, oldItems ▸ held, ?_⟩
    have listed : oldItem.cancellable ∈ order := by
      rw [all.2, pending]
      rfl
    simp [cancelled, listed]

theorem sent_iff (tracked : Tracked cache calls) (all : cache.Enumerates order)
    (property : CString) (variant : GVariant) :
    (property, variant) ∈ order.filterMap cache.ending ↔
      ∃ number oldItem val, cache.oldProperties property = some number ∧
        cache.oldItems number = some oldItem ∧ oldItem.variant = some val ∧
        variant = .variant val := by
  rw [List.mem_filterMap]
  constructor
  · rintro ⟨cancellable, member, sent⟩
    obtain ⟨number, pending⟩ := Option.isSome_iff_exists.mp ((all.2 cancellable).mp member)
    obtain ⟨oldItem, val, held, _, _, carries, there, ending⟩ := tracked.ending pending
    rw [ending, Option.some.injEq, Prod.mk.injEq] at sent
    exact ⟨number, oldItem, val, sent.1 ▸ there, held, carries, sent.2.symm⟩
  · rintro ⟨number, oldItem, val, there, held, carries, rfl⟩
    obtain ⟨again, same, rfl, _⟩ := tracked.coherent.known property number there
    rw [held, Option.some.injEq] at same
    subst same
    have pending : cache.pendingCalls oldItem.cancellable = some number := by
      rw [tracked.pending]
      exact ⟨oldItem, held, rfl, there⟩
    refine ⟨oldItem.cancellable, ?_, ?_⟩
    · rw [all.2, pending]
      rfl
    · simp [EsconfCache.ending, pending, held, carries]

theorem sent_once (tracked : Tracked cache calls) (all : cache.Enumerates order) :
    ((order.filterMap cache.ending).map Prod.fst).Nodup := by
  rw [List.map_filterMap]
  refine List.Nodup.filterMap ?_ all.1
  intro first second property one two
  obtain ⟨sentOne, endsOne, rfl⟩ := Option.map_eq_some_iff.mp one
  obtain ⟨sentTwo, endsTwo, same⟩ := Option.map_eq_some_iff.mp two
  -- The property has one old item, and that has one cancellable.
  have keyed : ∀ {cancellable sent}, cache.ending cancellable = some sent →
      ∃ number oldItem, cache.oldItems number = some oldItem ∧
        oldItem.cancellable = cancellable ∧ cache.oldProperties sent.1 = some number := by
    intro cancellable sent ends
    cases pending : cache.pendingCalls cancellable with
    | none => simp [EsconfCache.ending, pending] at ends
    | some number =>
        obtain ⟨oldItem, val, held, mine, _, _, there, ending⟩ := tracked.ending pending
        rw [ending, Option.some.injEq] at ends
        exact ⟨number, oldItem, held, mine, ends ▸ there⟩
  obtain ⟨number, oldItem, held, mine, there⟩ := keyed endsOne
  obtain ⟨other, otherItem, present, its, again⟩ := keyed endsTwo
  rw [same, there, Option.some.injEq] at again
  rw [← again, held, Option.some.injEq] at present
  rw [← mine, ← its, present]

end Tracked

/-- A client with its cache, or what is left of them; `freed` are the old items freed so far. -/
inductive CacheLife where
  | alive (client : CacheClient) (freed : List Nat)
  | finalized (left : FinalizedCache) (calls : List SetPropertyCall) (freed : List Nat)

inductive LifeEvent where
  | event (event : CacheEvent)
  | finalize (order : List Nat)

namespace CacheLife

def freedBy (calls : List SetPropertyCall) (oldItems : Nat → Option EsconfCacheOldItem) :
    CacheEvent → List Nat
  | .callback index _ => (calls[index]?.map SetPropertyCall.userData).toList.filter
      fun number => (oldItems number).isNone
  | _ => []

def step (host : Host) : CacheLife → LifeEvent → Option CacheLife
  | alive client freed, .event event =>
    (client.step host event).map fun next =>
      alive next (freed ++ freedBy client.calls next.cache.oldItems event)
  | alive client freed, .finalize order =>
    (esconfCacheFinalize client.cache order).map fun left =>
      finalized left.1 client.calls freed
  | finalized left calls freed, .event (.callback index finish) =>
    calls[index]?.bind fun call =>
      (left.replyHandler call.userData).map fun next =>
        finalized next (calls.eraseIdx index)
          (freed ++ freedBy calls next.oldItems (.callback index finish))
  | finalized _ _ _, _ => none

/-- A live cache has safe events, and finalising meets all pending calls. -/
def Allowed (host : Host) : CacheLife → LifeEvent → Prop
  | alive client _, .event event => client.Safe host event
  | alive client _, .finalize order => client.cache.Enumerates order
  | finalized _ _ _, _ => True

inductive Reached (host : Host) : CacheLife → Prop where
  | new (channelName : CString) : Reached host (alive (CacheClient.new channelName) [])
  | step {life next : CacheLife} {event : LifeEvent} (reached : Reached host life)
      (allowed : life.Allowed host event) (stepped : life.step host event = some next) :
      Reached host next

end CacheLife

structure Unallocated (before after : EsconfCache) : Prop where
  grows : before.nextOldItem ≤ after.nextOldItem
  freed : ∀ number, number < before.nextOldItem → before.oldItems number = none →
    after.oldItems number = none

namespace Unallocated

variable {host : Host}

theorem refl (cache : EsconfCache) : Unallocated cache cache := ⟨Nat.le_refl _, fun _ _ none => none⟩

theorem trans {first second third : EsconfCache} (begun : Unallocated first second)
    (ended : Unallocated second third) : Unallocated first third :=
  ⟨begun.grows.trans ended.grows, fun number given none =>
    ended.freed number (Nat.lt_of_lt_of_le given begun.grows) (begun.freed number given none)⟩

theorem lookup (cache : EsconfCache) (property : CString) (reply : Except DBusError GVariant) :
    Unallocated cache (esconfCacheLookupLocked cache property reply).2.2 := by
  rcases esconfCacheLookupLocked_cases cache property reply with
    ⟨error, found⟩ | ⟨fetched, _, found⟩
  · rw [found]
    exact refl cache
  · rw [found]
    exact ⟨Nat.le_refl _, fun _ _ none => none⟩

theorem setLookedUp {cache : EsconfCache} {calls : List SetPropertyCall}
    (tracked : Tracked cache calls) {property : CString} {value : GValue} {item : Option GValue}
    {outcome : SetReturn}
    (ready : (esconfGvalueToGvariant host value).isSome ∨ item.any (GValue.isEqual · value) = true)
    (returned : Esconf.setLookedUp host cache property value item = some outcome) :
    Unallocated cache outcome.cache := by
  cases differs : item.any (GValue.isEqual · value) with
  | true =>
      rw [setLookedUp_equal differs] at returned
      cases returned
      exact refl cache
  | false =>
      rw [differs, or_iff_left Bool.false_ne_true] at ready
      obtain ⟨val, converted⟩ := Option.isSome_iff_exists.mp ready
      cases there : cache.oldProperties property with
      | some number =>
          obtain ⟨oldItem, held, _, alive, _⟩ := tracked.coherent.known property number there
          rw [setLookedUp_again differs there held alive converted] at returned
          cases returned
          refine ⟨Nat.le_refl _, ?_⟩
          intro other _ none
          have different : other ≠ number := by
            rintro rfl
            rw [held] at none
            cases none
          exact (Function.update_of_ne different ..).trans none
      | none =>
          rw [setLookedUp_first differs there converted] at returned
          cases returned
          refine ⟨Nat.le_succ _, ?_⟩
          intro other older none
          exact (Function.update_of_ne (Nat.ne_of_lt older) ..).trans none

theorem set {cache : EsconfCache} {calls : List SetPropertyCall} (tracked : Tracked cache calls)
    {property : CString} {value : GValue} {reply : Except DBusError GVariant}
    {outcome : SetReturn} (safe : SetIsSafe host cache property value reply)
    (returned : esconfCacheSet host cache property value reply = some outcome) :
    Unallocated cache outcome.cache := by
  have kept := tracked.lookup property reply
  have looked := lookup cache property reply
  rcases tracked.coherent.set_cases safe returned with ⟨same, _⟩ | ⟨item, ready, went⟩
  · rw [same]
    exact looked
  · exact looked.trans (setLookedUp kept ready went)

theorem callback {cache after : EsconfCache} {calls : List SetPropertyCall}
    (tracked : Tracked cache calls) {call : SetPropertyCall} (member : call ∈ calls)
    {finish : Except DBusError Unit} {announced : Announced}
    (done : esconfCacheSetPropertyReplyHandler cache call.userData finish =
      some (after, announced)) : Unallocated cache after := by
  obtain ⟨oldItem, held, _⟩ := tracked.alive member
  obtain ⟨_, others, _, next⟩ := esconfCacheSetPropertyReplyHandler_elsewhere held done
  refine ⟨Nat.le_of_eq next.symm, ?_⟩
  intro number _ none
  have different : number ≠ call.userData := by
    rintro rfl
    rw [held] at none
    cases none
  rw [others number different, none]

theorem step {client next : CacheClient} (tracked : Tracked client.cache client.calls)
    {event : CacheEvent} (safe : client.Safe host event)
    (stepped : client.step host event = some next) : Unallocated client.cache next.cache := by
  cases event with
  | set property value reply =>
      obtain ⟨outcome, returned, rfl⟩ := Option.map_eq_some_iff.mp stepped
      exact set tracked safe returned
  | lookup property reply =>
      cases stepped
      exact lookup client.cache property reply
  | reset propertyBase recursive reply =>
      cases stepped
      cases reply with
      | error error => exact refl client.cache
      | ok => cases recursive <;> exact ⟨Nat.le_refl _, fun _ _ none => none⟩
  | propertyChanged channelName property propVariant =>
      cases stepped
      simp only [esconfCacheHandlePropertyChanged]
      split
      · exact refl client.cache
      · split
        · exact refl client.cache
        · split <;> exact ⟨Nat.le_refl _, fun _ _ none => none⟩
  | propertyRemoved channelName property =>
      cases stepped
      simp only [esconfCacheHandlePropertyRemoved]
      split <;> exact ⟨Nat.le_refl _, fun _ _ none => none⟩
  | callback index finish =>
      simp only [CacheClient.step] at stepped
      split at stepped
      · cases stepped
      · next call present =>
          obtain ⟨⟨after, announced⟩, done, rfl⟩ := Option.map_eq_some_iff.mp stepped
          exact callback tracked (List.mem_of_getElem? present) done

end Unallocated

namespace CacheLife

variable {host : Host}

def calls : CacheLife → List SetPropertyCall
  | alive client _ => client.calls
  | finalized _ calls _ => calls

def freed : CacheLife → List Nat
  | alive _ freed => freed
  | finalized _ _ freed => freed

def oldItems : CacheLife → Nat → Option EsconfCacheOldItem
  | alive client _ => client.cache.oldItems
  | finalized left _ _ => left.oldItems

/-- A live cache is tracked; once it is finalised, the old item of every call is cancelled. -/
def Sound : CacheLife → Prop
  | alive client freed => Tracked client.cache client.calls ∧
      ∀ number ∈ freed, number < client.cache.nextOldItem
  | finalized left calls _ =>
      (∀ call ∈ calls, ∃ oldItem, left.oldItems call.userData = some oldItem ∧
        left.cancelled oldItem.cancellable = true) ∧
      ∀ number oldItem, left.oldItems number = some oldItem →
        oldItem.pendingCallsCount = callsOf calls number

theorem Sound.held {life : CacheLife} (sound : life.Sound) {call : SetPropertyCall}
    (member : call ∈ life.calls) : (life.oldItems call.userData).isSome := by
  cases life with
  | alive client freed =>
      obtain ⟨oldItem, held, _⟩ := sound.1.alive member
      exact Option.isSome_iff_exists.mpr ⟨oldItem, held⟩
  | finalized left calls freed =>
      obtain ⟨oldItem, held, _⟩ := sound.1 call member
      exact Option.isSome_iff_exists.mpr ⟨oldItem, held⟩

def FreedOnce (life : CacheLife) : Prop :=
  life.freed.Nodup ∧ ∀ number ∈ life.freed, life.oldItems number = none

theorem FreedOnce.more {life next : CacheLife} {calls : List SetPropertyCall} {event : CacheEvent}
    (once : life.FreedOnce) (held : ∀ call ∈ calls, (life.oldItems call.userData).isSome)
    (kept : ∀ number ∈ life.freed, next.oldItems number = none)
    (freed : next.freed = life.freed ++ freedBy calls next.oldItems event) : next.FreedOnce := by
  have gone : ∀ number ∈ freedBy calls next.oldItems event,
      next.oldItems number = none ∧ (life.oldItems number).isSome := by
    intro number member
    cases event with
    | callback index finish =>
        obtain ⟨listed, none⟩ := List.mem_filter.mp member
        rw [Option.mem_toList, Option.map_eq_some_iff] at listed
        obtain ⟨call, present, rfl⟩ := listed
        exact ⟨Option.isNone_iff_eq_none.mp none, held call (List.mem_of_getElem? present)⟩
    | _ => cases member
  refine ⟨?_, ?_⟩
  · rw [freed, List.nodup_append]
    refine ⟨once.1, ?_, ?_⟩
    · cases event with
      | callback index finish =>
          refine List.Nodup.filter _ ?_
          cases calls[index]? with
          | none => exact List.nodup_nil
          | some call => exact List.nodup_singleton _
      | _ => exact List.nodup_nil
    · rintro number before _ after rfl
      have there := (gone number after).2
      rw [once.2 number before] at there
      cases there
  · intro number member
    rw [freed, List.mem_append] at member
    rcases member with before | after
    · exact kept number before
    · exact (gone number after).1

theorem Sound.late {left : FinalizedCache} {calls : List SetPropertyCall} {freed : List Nat}
    (sound : (finalized left calls freed).Sound) {index : Nat} {call : SetPropertyCall}
    (present : calls[index]? = some call) :
    ∃ next, left.replyHandler call.userData = some next ∧ next.cancelled = left.cancelled ∧
      (∀ other, other ≠ call.userData → next.oldItems other = left.oldItems other) ∧
      ∀ later, (finalized next (calls.eraseIdx index) later).Sound := by
  obtain ⟨listed, counted⟩ := sound
  obtain ⟨before, held, cancelled⟩ := listed call (List.mem_of_getElem? present)
  have counter := Coherent.callsOf_eraseIdx_self present (counted _ _ held)
  have same := Coherent.callsOf_eraseIdx_other present
  by_cases more : 0 < before.pendingCallsCount - 1
  · refine ⟨_, left.replyHandler_waits held more, rfl,
      fun other different => Function.update_of_ne different .., ?_⟩
    intro later
    refine ⟨?_, ?_⟩
    · intro other member
      by_cases mine : other.userData = call.userData
      · refine ⟨{ before with pendingCallsCount := before.pendingCallsCount - 1 }, ?_, cancelled⟩
        simp only [mine, Function.update_self]
      · obtain ⟨otherItem, there, again⟩ := listed other (List.mem_of_mem_eraseIdx member)
        exact ⟨otherItem, (Function.update_of_ne mine ..).trans there, again⟩
    · intro number oldItem there
      by_cases mine : number = call.userData
      · simp only [mine, Function.update_self, Option.some.injEq] at there
        rw [← there, mine, counter]
      · simp only [Function.update_of_ne mine] at there
        rw [same number mine, counted number oldItem there]
  · refine ⟨_, left.replyHandler_frees held more cancelled, rfl,
      fun other different => Function.update_of_ne different .., ?_⟩
    intro later
    refine ⟨?_, ?_⟩
    · intro other member
      have mine : other.userData ≠ call.userData := by
        intro shared
        rw [counter, Int.natCast_pos] at more
        exact more (List.countP_pos_iff.mpr ⟨other, member, beq_iff_eq.mpr shared⟩)
      obtain ⟨otherItem, there, again⟩ := listed other (List.mem_of_mem_eraseIdx member)
      exact ⟨otherItem, (Function.update_of_ne mine ..).trans there, again⟩
    · intro number oldItem there
      by_cases mine : number = call.userData
      · simp only [mine, Function.update_self] at there
        cases there
      · simp only [Function.update_of_ne mine] at there
        rw [same number mine, counted number oldItem there]

theorem Sound.step {life next : CacheLife} {event : LifeEvent} (sound : life.Sound)
    (once : life.FreedOnce) (allowed : life.Allowed host event)
    (stepped : life.step host event = some next) : next.Sound ∧ next.FreedOnce := by
  have held := fun call (member : call ∈ life.calls) => sound.held member
  cases life with
  | alive client freed =>
      cases event with
      | event event =>
          obtain ⟨after, went, rfl⟩ := Option.map_eq_some_iff.mp stepped
          obtain ⟨tracked, given⟩ := sound
          have kept := Unallocated.step tracked allowed went
          refine ⟨⟨tracked.step allowed went, ?_⟩, ?_⟩
          · intro number member
            rw [List.mem_append] at member
            rcases member with before | new
            · exact Nat.lt_of_lt_of_le (given number before) kept.grows
            · cases event with
              | callback index finish =>
                  obtain ⟨listed, _⟩ := List.mem_filter.mp new
                  rw [Option.mem_toList, Option.map_eq_some_iff] at listed
                  obtain ⟨call, present, rfl⟩ := listed
                  obtain ⟨oldItem, there, _⟩ := tracked.alive (List.mem_of_getElem? present)
                  by_contra fresh
                  have fresh := Nat.le_trans kept.grows (Nat.le_of_not_lt fresh)
                  rw [tracked.coherent.allocated _ fresh] at there
                  cases there
              | _ => cases new
          · exact once.more held
              (fun number member => kept.freed number (given number member) (once.2 number member))
              rfl
      | finalize order =>
          obtain ⟨left, went, rfl⟩ := Option.map_eq_some_iff.mp stepped
          obtain ⟨tracked, given⟩ := sound
          obtain ⟨_, done, oldItems, cancelled⟩ := tracked.finalized allowed
          rw [done] at went
          cases went
          refine ⟨⟨cancelled, ?_⟩, once.1, ?_⟩
          · rw [oldItems]
            exact tracked.coherent.counted
          · intro number member
            exact (congrFun oldItems number).trans (once.2 number member)
  | finalized left calls freed =>
      cases event with
      | finalize order => cases stepped
      | event event =>
          cases event with
          | callback index finish =>
              obtain ⟨call, present, went⟩ := Option.bind_eq_some_iff.mp stepped
              obtain ⟨after, done, rfl⟩ := Option.map_eq_some_iff.mp went
              obtain ⟨_, again, _, others, kept⟩ := sound.late present
              rw [done] at again
              cases again
              refine ⟨kept _, once.more held ?_ rfl⟩
              intro number member
              have different : number ≠ call.userData := by
                rintro rfl
                have there := held call (List.mem_of_getElem? present)
                rw [once.2 call.userData member] at there
                cases there
              exact (others number different).trans (once.2 number member)
          | _ => cases stepped

theorem Reached.sound {life : CacheLife} (reached : Reached host life) :
    life.Sound ∧ life.FreedOnce := by
  induction reached with
  | new channelName => exact ⟨⟨Tracked.new channelName, nofun⟩, List.nodup_nil, nofun⟩
  | step _ allowed stepped invariant => exact invariant.1.step invariant.2 allowed stepped

/-- In every state of a cache's life an old item has been freed once at most, and not before the
callbacks of its calls have run. -/
theorem Reached.freed_once {life : CacheLife} (reached : Reached host life) :
    life.freed.Nodup ∧ ∀ number ∈ life.freed, ∀ call ∈ life.calls, call.userData ≠ number := by
  obtain ⟨sound, once⟩ := reached.sound
  refine ⟨once.1, ?_⟩
  rintro _ listed call member rfl
  have there := sound.held member
  rw [once.2 call.userData listed] at there
  cases there

end CacheLife

end Esconf
