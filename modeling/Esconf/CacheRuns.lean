import Esconf.CacheFailures
import Mathlib.Data.List.Perm.Basic

/-! A client with its cache: whether PropertyChanged can be suppressed for good. -/

namespace Esconf

/-- `calls` are the SetProperty calls whose callbacks have not run. -/
structure CacheClient where
  cache : EsconfCache
  calls : List SetPropertyCall

/-- What happens to the cache of a client, with the answers of the daemon. The
callbacks may run in any order. -/
inductive CacheEvent where
  | set (property : CString) (value : GValue) (reply : Except DBusError GVariant)
  | lookup (property : CString) (reply : Except DBusError GVariant)
  | reset (propertyBase : CString) (recursive : Bool) (reply : Except DBusError Unit)
  | propertyChanged (channelName property : CString) (propVariant : GVariant)
  | propertyRemoved (channelName property : CString)
  | callback (index : Nat) (finish : Except DBusError Unit)

namespace CacheClient

def new (channelName : CString) : CacheClient := ⟨EsconfCache.new channelName, []⟩

def step (host : Host) (client : CacheClient) : CacheEvent → Option CacheClient
  | .set property value reply =>
    (esconfCacheSet host client.cache property value reply).map fun outcome =>
      ⟨outcome.cache, client.calls ++ outcome.call.toList⟩
  | .lookup property reply =>
    some { client with cache := (esconfCacheLookupLocked client.cache property reply).2.2 }
  | .reset propertyBase recursive reply =>
    some { client with cache := (esconfCacheReset client.cache propertyBase recursive reply).2.2 }
  | .propertyChanged channelName property propVariant =>
    some { client with
      cache := (esconfCacheHandlePropertyChanged client.cache channelName property propVariant).1 }
  | .propertyRemoved channelName property =>
    some { client with
      cache := (esconfCacheHandlePropertyRemoved client.cache channelName property).1 }
  | .callback index finish =>
    match client.calls[index]? with
    | none => none
    | some call =>
      (esconfCacheSetPropertyReplyHandler client.cache call.userData finish).map fun settled =>
        ⟨settled.1, client.calls.eraseIdx index⟩

def Safe (host : Host) (client : CacheClient) : CacheEvent → Prop
  | .set property value reply => SetIsSafe host client.cache property value reply
  | _ => True

inductive SafelyReached (host : Host) : CacheClient → Prop where
  | new (channelName : CString) : SafelyReached host (new channelName)
  | step {client next : CacheClient} {event : CacheEvent} (reached : SafelyReached host client)
      (safe : client.Safe host event) (stepped : client.step host event = some next) :
      SafelyReached host next

inductive Reached (host : Host) : CacheClient → Prop where
  | new (channelName : CString) : Reached host (new channelName)
  | step {client next : CacheClient} {event : CacheEvent} (reached : Reached host client)
      (stepped : client.step host event = some next) : Reached host next

section

variable {host : Host} {cache : EsconfCache}

theorem numbered_callSetProperty (numbered : cache.Numbered) {property : CString} {value : GValue}
    {item : Option GValue} {number : Nat} {oldItem : EsconfCacheOldItem}
    (given : oldItem.cancellable < cache.nextCancellable) :
    (callSetProperty host cache property value item number oldItem).cache.Numbered := by
  unfold callSetProperty
  split
  · exact numbered
  · exact numbered.setOldItem number (by exact given)

theorem numbered_cancelOldCall (numbered : cache.Numbered) {number : Nat}
    {oldItem : EsconfCacheOldItem} (held : cache.oldItems number = some oldItem) :
    (cancelOldCall cache number oldItem).1.Numbered ∧
      (cancelOldCall cache number oldItem).2.cancellable <
        (cancelOldCall cache number oldItem).1.nextCancellable := by
  have given := numbered number oldItem held
  unfold cancelOldCall
  split
  · exact ⟨numbered.setOldItem number given, given⟩
  · have renewed : ((cache.cancel oldItem.cancellable).removePendingCall
        oldItem.cancellable).newCancellable.Numbered := numbered.newCancellable
    exact ⟨renewed.setOldItem number (Nat.lt_succ_self _), Nat.lt_succ_self _⟩

theorem numbered_addOldItem (numbered : cache.Numbered) (property : CString)
    (item : Option GValue) :
    (addOldItem cache property item).1.Numbered ∧
      (addOldItem cache property item).2.cancellable <
        (addOldItem cache property item).1.nextCancellable :=
  ⟨numbered.newCancellable.setOldItem cache.nextOldItem (Nat.lt_succ_self cache.nextCancellable),
    Nat.lt_succ_self cache.nextCancellable⟩

theorem numbered_setLookedUp (numbered : cache.Numbered) {property : CString} {value : GValue}
    {item : Option GValue} {outcome : SetReturn}
    (returned : setLookedUp host cache property value item = some outcome) :
    outcome.cache.Numbered := by
  unfold setLookedUp at returned
  split at returned
  · cases returned
    exact numbered
  · split at returned
    · next number there =>
        split at returned
        · cases returned
        · next oldItem held =>
            obtain ⟨kept, given⟩ := numbered_cancelOldCall numbered held
            cases returned
            exact numbered_callSetProperty kept given
    · obtain ⟨kept, given⟩ := numbered_addOldItem numbered property item
      cases returned
      exact numbered_callSetProperty kept given

theorem numbered_lookup (numbered : cache.Numbered) (property : CString)
    (reply : Except DBusError GVariant) :
    (esconfCacheLookupLocked cache property reply).2.2.Numbered := by
  rcases esconfCacheLookupLocked_cases cache property reply with
    ⟨error, found⟩ | ⟨fetched, _, found⟩
  · rw [found]
    exact numbered
  · rw [found]
    exact numbered

theorem numbered_callback (numbered : cache.Numbered) {number : Nat}
    {finish : Except DBusError Unit} {after : EsconfCache} {announced : Announced}
    (done : esconfCacheSetPropertyReplyHandler cache number finish = some (after, announced)) :
    after.Numbered := by
  cases held : cache.oldItems number with
  | none =>
      unfold esconfCacheSetPropertyReplyHandler at done
      simp only [held] at done
      cases done
  | some before =>
      have given := numbered number before held
      by_cases more : 0 < before.pendingCallsCount - 1
      · rw [esconfCacheSetPropertyReplyHandler_waits held more] at done
        cases done
        exact numbered.setOldItem number (by exact given)
      · cases alive : cache.cancelled before.cancellable with
        | true =>
            rw [esconfCacheSetPropertyReplyHandler_cancelled held more alive] at done
            cases done
            exact numbered.free number
        | false =>
            obtain ⟨_, _, remaining, settled, oldItems, left, _, _, _, next, _⟩ :=
              esconfCacheSetPropertyReplyHandler_settles held more alive
            rw [done] at settled
            cases settled
            intro other oldItem there
            rw [oldItems] at there
            rw [next]
            by_cases here : other = number
            · rw [here, Function.update_self] at there
              rcases left with missing | kept
              · rw [missing] at there
                cases there
              · rw [kept, Option.some.injEq] at there
                exact there ▸ given
            · rw [Function.update_of_ne here] at there
              exact numbered other oldItem there

theorem Reached.numbered {host : Host} {client : CacheClient} (reached : Reached host client) :
    client.cache.Numbered := by
  induction reached with
  | new channelName => exact nofun
  | @step client next event reached stepped numbered =>
      cases event with
      | set property value reply =>
          obtain ⟨outcome, returned, rfl⟩ := Option.map_eq_some_iff.mp stepped
          have kept := numbered_lookup numbered property reply
          unfold esconfCacheSet setAfterLookup at returned
          generalize esconfCacheLookupLocked client.cache property reply = looked at kept returned
          obtain ⟨_ | item, error, fetched⟩ := looked
          · simp only at returned
            split at returned
            · exact numbered_setLookedUp kept returned
            · cases returned
              exact kept
          · exact numbered_setLookedUp kept returned
      | lookup property reply =>
          cases stepped
          exact numbered_lookup numbered property reply
      | reset propertyBase recursive reply =>
          cases stepped
          cases reply with
          | error error => exact numbered
          | ok =>
              cases recursive with
              | true => exact numbered
              | false => exact numbered
      | propertyChanged channelName property propVariant =>
          cases stepped
          simp only [esconfCacheHandlePropertyChanged]
          split
          · exact numbered
          · split
            · exact numbered
            · split <;> exact numbered
      | propertyRemoved channelName property =>
          cases stepped
          simp only [esconfCacheHandlePropertyRemoved]
          split <;> exact numbered
      | callback index finish =>
          simp only [CacheClient.step] at stepped
          split at stepped
          · cases stepped
          · obtain ⟨settled, done, rfl⟩ := Option.map_eq_some_iff.mp stepped
            exact numbered_callback numbered done

end

def callsOf (calls : List SetPropertyCall) (number : Nat) : Nat :=
  calls.countP fun call => call.userData == number

/-- Every old item counts the callbacks to come, and one in the table has a call
that is not cancelled. -/
structure Coherent (cache : EsconfCache) (calls : List SetPropertyCall) : Prop where
  numbered : cache.Numbered
  allocated : ∀ number, cache.nextOldItem ≤ number → cache.oldItems number = none
  known : ∀ property number, cache.oldProperties property = some number →
    ∃ oldItem, cache.oldItems number = some oldItem ∧ oldItem.property = property ∧
      cache.cancelled oldItem.cancellable = false ∧ 0 < oldItem.pendingCallsCount
  counted : ∀ number oldItem, cache.oldItems number = some oldItem →
    oldItem.pendingCallsCount = callsOf calls number
  apart : ∀ first one second other, cache.oldItems first = some one →
    cache.oldItems second = some other → one.cancellable = other.cancellable → first = second
  addressed : ∀ call ∈ calls, ∃ oldItem, cache.oldItems call.userData = some oldItem ∧
    oldItem.property = call.property

namespace Coherent

variable {cache after : EsconfCache} {calls : List SetPropertyCall}

theorem new (channelName : CString) : Coherent (EsconfCache.new channelName) [] :=
  ⟨nofun, fun _ _ => rfl, nofun, nofun, nofun, nofun⟩

theorem cached (coherent : Coherent cache calls) (properties : CString → Option GValue) :
    Coherent { cache with properties } calls :=
  ⟨coherent.numbered, coherent.allocated, coherent.known, coherent.counted, coherent.apart,
    coherent.addressed⟩

theorem callsOf_append (calls : List SetPropertyCall) (call : SetPropertyCall) (number : Nat) :
    callsOf (calls ++ [call]) number =
      callsOf calls number + if call.userData = number then 1 else 0 := by
  rw [callsOf, List.countP_append, List.countP_singleton]
  simp [callsOf]

theorem callsOf_fresh (coherent : Coherent cache calls) {number : Nat}
    (fresh : cache.nextOldItem ≤ number) : callsOf calls number = 0 := by
  rw [callsOf, List.countP_eq_zero]
  intro call member
  obtain ⟨oldItem, held, _⟩ := coherent.addressed call member
  rw [beq_iff_eq]
  rintro rfl
  rw [coherent.allocated call.userData fresh] at held
  cases held

theorem called (coherent : Coherent cache calls) {number : Nat} {oldItem : EsconfCacheOldItem}
    {call : SetPropertyCall}
    (oldItems : after.oldItems = Function.update cache.oldItems number (some oldItem))
    (oldProperties : after.oldProperties =
      Function.update cache.oldProperties oldItem.property (some number))
    (nextOldItem : cache.nextOldItem ≤ after.nextOldItem ∧ number < after.nextOldItem)
    (nextCancellable : after.nextCancellable = cache.nextCancellable + 1)
    (renewed : oldItem.cancellable = cache.nextCancellable)
    (alive : after.cancelled oldItem.cancellable = false)
    (others : ∀ other held, other ≠ number → cache.oldItems other = some held →
      after.cancelled held.cancellable = cache.cancelled held.cancellable)
    (only : ∀ property, cache.oldProperties property = some number → property = oldItem.property)
    (same : ∀ before, cache.oldItems number = some before → before.property = oldItem.property)
    (counter : oldItem.pendingCallsCount = callsOf calls number + 1)
    (userData : call.userData = number) (property : call.property = oldItem.property) :
    Coherent after (calls ++ [call]) := by
  have cases_of : ∀ {other held}, after.oldItems other = some held →
      (other = number ∧ held = oldItem) ∨ (other ≠ number ∧ cache.oldItems other = some held) := by
    intro other held there
    rw [oldItems] at there
    by_cases here : other = number
    · rw [here, Function.update_self, Option.some.injEq] at there
      exact Or.inl ⟨here, there.symm⟩
    · rw [Function.update_of_ne here] at there
      exact Or.inr ⟨here, there⟩
  have here : after.oldItems number = some oldItem := by
    rw [oldItems, Function.update_self]
  refine ⟨?_, ?_, ?_, ?_, ?_, ?_⟩
  · intro other held there
    rw [nextCancellable]
    rcases cases_of there with ⟨_, rfl⟩ | ⟨_, before⟩
    · exact renewed ▸ Nat.lt_succ_self _
    · exact Nat.lt_succ_of_lt (coherent.numbered other held before)
  · intro other fresh
    rw [oldItems, Function.update_of_ne (Nat.ne_of_gt (Nat.lt_of_lt_of_le nextOldItem.2 fresh))]
    exact coherent.allocated other (Nat.le_trans nextOldItem.1 fresh)
  · intro name other there
    rw [oldProperties] at there
    by_cases this : name = oldItem.property
    · rw [this, Function.update_self, Option.some.injEq] at there
      refine ⟨oldItem, there ▸ here, this.symm, alive, ?_⟩
      rw [counter]
      exact Int.natCast_pos.mpr (Nat.succ_pos _)
    · rw [Function.update_of_ne this] at there
      have different : other ≠ number := fun equal => this (only name (equal ▸ there))
      obtain ⟨held, before, rest⟩ := coherent.known name other there
      refine ⟨held, ?_, rest.1, ?_, rest.2.2⟩
      · rw [oldItems, Function.update_of_ne different, before]
      · rw [others other held different before, rest.2.1]
  · intro other held there
    rw [callsOf_append, userData]
    rcases cases_of there with ⟨rfl, rfl⟩ | ⟨different, before⟩
    · rw [if_pos rfl, counter]
      rfl
    · rw [if_neg (Ne.symm different)]
      exact coherent.counted other held before
  · intro first one second other atFirst atSecond shared
    rcases cases_of atFirst with ⟨rfl, rfl⟩ | ⟨_, before⟩
    · rcases cases_of atSecond with ⟨rfl, _⟩ | ⟨_, behind⟩
      · rfl
      · exact absurd (shared.symm.trans renewed) (Nat.ne_of_lt (coherent.numbered second other behind))
    · rcases cases_of atSecond with ⟨_, rfl⟩ | ⟨_, behind⟩
      · exact absurd (shared.trans renewed) (Nat.ne_of_lt (coherent.numbered first one before))
      · exact coherent.apart first one second other before behind shared
  · intro other member
    rcases List.mem_append.mp member with earlier | last
    · obtain ⟨held, before, name⟩ := coherent.addressed other earlier
      by_cases this : other.userData = number
      · rw [this] at before ⊢
        exact ⟨oldItem, here, (same held before).symm.trans name⟩
      · refine ⟨held, ?_, name⟩
        rw [oldItems, Function.update_of_ne this, before]
    · rw [List.mem_singleton.mp last, userData]
      exact ⟨oldItem, here, property.symm⟩

variable {host : Host}

theorem setLookedUp (coherent : Coherent cache calls) {property : CString} {value : GValue}
    {item : Option GValue} {outcome : SetReturn}
    (ready : (esconfGvalueToGvariant host value).isSome ∨ item.any (GValue.isEqual · value) = true)
    (returned : Esconf.setLookedUp host cache property value item = some outcome) :
    Coherent outcome.cache (calls ++ outcome.call.toList) := by
  cases differs : item.any (GValue.isEqual · value) with
  | true =>
      rw [setLookedUp_equal differs] at returned
      cases returned
      rw [Option.toList_none, List.append_nil]
      exact coherent
  | false =>
      rw [differs, or_iff_left Bool.false_ne_true] at ready
      obtain ⟨val, converted⟩ := Option.isSome_iff_exists.mp ready
      cases there : cache.oldProperties property with
      | some number =>
          obtain ⟨oldItem, held, rfl, alive, _⟩ := coherent.known property number there
          rw [setLookedUp_again differs there held alive converted] at returned
          cases returned
          have bound : number < cache.nextOldItem := by
            by_contra fresh
            rw [coherent.allocated number (Nat.le_of_not_lt fresh)] at held
            cases held
          refine coherent.called rfl (Function.update_eq_self_iff.mpr there.symm).symm
            ⟨Nat.le_refl _, bound⟩ rfl rfl (Function.update_self ..) ?_ ?_ ?_ ?_ rfl rfl
          · intro other otherItem different another
            have older := coherent.numbered other otherItem another
            refine (Function.update_of_ne (Nat.ne_of_lt older) ..).trans
              (Function.update_of_ne ?_ ..)
            intro shared
            exact different (coherent.apart _ _ _ _ another held shared)
          · intro name present
            obtain ⟨same, again, named, _⟩ := coherent.known name number present
            rw [held, Option.some.injEq] at again
            rw [← named, again]
          · intro before again
            rw [held, Option.some.injEq] at again
            rw [again]
          · exact congrArg (· + 1) (coherent.counted number oldItem held)
      | none =>
          have fresh := coherent.allocated cache.nextOldItem (Nat.le_refl _)
          rw [setLookedUp_first differs there converted] at returned
          cases returned
          refine coherent.called rfl rfl ⟨Nat.le_succ _, Nat.lt_succ_self _⟩ rfl rfl
            (Function.update_self ..) ?_ ?_ ?_ ?_ rfl rfl
          · intro other otherItem _ another
            exact Function.update_of_ne
              (Nat.ne_of_lt (coherent.numbered other otherItem another)) ..
          · intro name present
            obtain ⟨same, held, _⟩ := coherent.known name _ present
            rw [fresh] at held
            cases held
          · intro before held
            rw [fresh] at held
            cases held
          · rw [coherent.callsOf_fresh (Nat.le_refl _)]
            rfl

theorem answered (coherent : Coherent cache calls) {number : Nat}
    {before : EsconfCacheOldItem} {remaining : Option EsconfCacheOldItem}
    {others : List SetPropertyCall} (held : cache.oldItems number = some before)
    (oldItems : after.oldItems = Function.update cache.oldItems number remaining)
    (left : ∀ oldItem, remaining = some oldItem → oldItem.property = before.property ∧
      oldItem.cancellable = before.cancellable ∧ oldItem.pendingCallsCount = callsOf others number)
    (freed : remaining = none → callsOf others number = 0)
    (oldProperties : ∀ property other, after.oldProperties property = some other →
      cache.oldProperties property = some other)
    (listed : after.oldProperties before.property = some number →
      0 < callsOf others number ∧ after.cancelled before.cancellable = false)
    (cancelled : ∀ cancellable, cancellable ≠ before.cancellable →
      after.cancelled cancellable = cache.cancelled cancellable)
    (nextOldItem : after.nextOldItem = cache.nextOldItem)
    (nextCancellable : after.nextCancellable = cache.nextCancellable)
    (fewer : ∀ call ∈ others, call ∈ calls)
    (same : ∀ other, other ≠ number → callsOf others other = callsOf calls other) :
    Coherent after others := by
  have cases_of : ∀ {other otherItem}, after.oldItems other = some otherItem →
      (other = number ∧ remaining = some otherItem) ∨
        (other ≠ number ∧ cache.oldItems other = some otherItem) := by
    intro other otherItem there
    rw [oldItems] at there
    by_cases here : other = number
    · rw [here, Function.update_self] at there
      exact Or.inl ⟨here, there⟩
    · rw [Function.update_of_ne here] at there
      exact Or.inr ⟨here, there⟩
  -- An old item that is there was there before, with the same cancellable.
  have earlier : ∀ {other otherItem}, after.oldItems other = some otherItem →
      ∃ was, cache.oldItems other = some was ∧ otherItem.cancellable = was.cancellable := by
    intro other otherItem there
    rcases cases_of there with ⟨rfl, remains⟩ | ⟨_, was⟩
    · exact ⟨before, held, (left otherItem remains).2.1⟩
    · exact ⟨otherItem, was, rfl⟩
  refine ⟨?_, ?_, ?_, ?_, ?_, ?_⟩
  · intro other otherItem there
    obtain ⟨was, present, shared⟩ := earlier there
    rw [nextCancellable, shared]
    exact coherent.numbered other was present
  · intro other fresh
    rw [nextOldItem] at fresh
    have unused := coherent.allocated other fresh
    have different : other ≠ number := by
      rintro rfl
      rw [held] at unused
      cases unused
    rw [oldItems, Function.update_of_ne different, unused]
  · intro property other there
    obtain ⟨otherItem, present, name, alive, waiting⟩ :=
      coherent.known property other (oldProperties property other there)
    by_cases different : other = number
    · rw [different, held, Option.some.injEq] at present
      rw [← name, ← present, different] at there
      obtain ⟨some, running⟩ := listed there
      cases remains : remaining with
      | none => exact absurd (freed remains) (Nat.ne_of_gt some)
      | some oldItem =>
          obtain ⟨samename, shared, counter⟩ := left oldItem remains
          refine ⟨oldItem, ?_, ?_, ?_, ?_⟩
          · rw [oldItems, different, Function.update_self, remains]
          · rw [samename, present, name]
          · rw [shared, running]
          · rw [counter]
            exact Int.natCast_pos.mpr some
    · refine ⟨otherItem, ?_, name, ?_, waiting⟩
      · rw [oldItems, Function.update_of_ne different, present]
      · rw [cancelled, alive]
        intro shared
        exact different (coherent.apart _ _ _ _ present held shared)
  · intro other otherItem there
    rcases cases_of there with ⟨rfl, remains⟩ | ⟨different, was⟩
    · exact (left otherItem remains).2.2
    · rw [same other different]
      exact coherent.counted other otherItem was
  · intro first one second other atFirst atSecond shared
    obtain ⟨wasFirst, presentFirst, sameFirst⟩ := earlier atFirst
    obtain ⟨wasSecond, presentSecond, sameSecond⟩ := earlier atSecond
    exact coherent.apart _ _ _ _ presentFirst presentSecond
      (sameFirst.symm.trans (shared.trans sameSecond))
  · intro call member
    obtain ⟨otherItem, present, name⟩ := coherent.addressed call (fewer call member)
    by_cases different : call.userData = number
    · have some : 0 < callsOf others number :=
        List.countP_pos_iff.mpr ⟨call, member, beq_iff_eq.mpr different⟩
      rw [different, held, Option.some.injEq] at present
      cases remains : remaining with
      | none => exact absurd (freed remains) (Nat.ne_of_gt some)
      | some oldItem =>
          refine ⟨oldItem, ?_, ?_⟩
          · rw [oldItems, different, Function.update_self, remains]
          · rw [(left oldItem remains).1, present, name]
    · refine ⟨otherItem, ?_, name⟩
      rw [oldItems, Function.update_of_ne different, present]

theorem callsOf_eraseIdx {index : Nat} {call : SetPropertyCall}
    (present : calls[index]? = some call) (number : Nat) :
    callsOf calls number =
      callsOf (calls.eraseIdx index) number + if call.userData = number then 1 else 0 := by
  obtain ⟨bound, rfl⟩ := List.getElem?_eq_some_iff.mp present
  have same := (List.getElem_cons_eraseIdx_perm bound).countP_eq
    (fun call => call.userData == number)
  rw [List.countP_cons] at same
  rw [callsOf, callsOf, ← same]
  simp

theorem callsOf_eraseIdx_self {index : Nat} {call : SetPropertyCall}
    (present : calls[index]? = some call) {oldItem : EsconfCacheOldItem}
    (counted : oldItem.pendingCallsCount = callsOf calls call.userData) :
    oldItem.pendingCallsCount - 1 = callsOf (calls.eraseIdx index) call.userData := by
  rw [counted, callsOf_eraseIdx present, if_pos rfl]
  exact Int.add_sub_cancel (callsOf (calls.eraseIdx index) call.userData : Int) 1

theorem callsOf_eraseIdx_other {index : Nat} {call : SetPropertyCall}
    (present : calls[index]? = some call) (other : Nat) (different : other ≠ call.userData) :
    callsOf (calls.eraseIdx index) other = callsOf calls other := by
  rw [callsOf_eraseIdx present other, if_neg (Ne.symm different)]
  rfl

theorem callback (coherent : Coherent cache calls) {index : Nat} {call : SetPropertyCall}
    (present : calls[index]? = some call) (finish : Except DBusError Unit) :
    ∃ after announced, esconfCacheSetPropertyReplyHandler cache call.userData finish =
      some (after, announced) ∧ Coherent after (calls.eraseIdx index) := by
  obtain ⟨before, held, _⟩ := coherent.addressed call (List.mem_of_getElem? present)
  have counter := callsOf_eraseIdx_self present (coherent.counted _ _ held)
  have fewer : ∀ other ∈ calls.eraseIdx index, other ∈ calls :=
    fun other member => List.mem_of_mem_eraseIdx member
  have same := callsOf_eraseIdx_other present
  by_cases more : 0 < before.pendingCallsCount - 1
  · refine ⟨_, _, esconfCacheSetPropertyReplyHandler_waits held more, ?_⟩
    refine coherent.answered held rfl ?_ nofun (fun _ _ there => there) ?_
      (fun _ _ => rfl) rfl rfl fewer same
    · rintro _ ⟨⟩
      exact ⟨rfl, rfl, counter⟩
    · intro there
      obtain ⟨oldItem, again, _, alive, _⟩ := coherent.known _ _ there
      rw [held, Option.some.injEq] at again
      rw [counter] at more
      exact ⟨Int.natCast_pos.mp more, again ▸ alive⟩
  · have none : callsOf (calls.eraseIdx index) call.userData = 0 := by
      rw [counter] at more
      exact Nat.eq_zero_of_not_pos (fun some => more (Int.natCast_pos.mpr some))
    cases alive : cache.cancelled before.cancellable with
    | true =>
        refine ⟨_, _, esconfCacheSetPropertyReplyHandler_cancelled held more alive, ?_⟩
        refine coherent.answered held rfl nofun (fun _ => none) (fun _ _ there => there) ?_
          (fun _ _ => rfl) rfl rfl fewer same
        intro there
        obtain ⟨oldItem, again, _, running, _⟩ := coherent.known _ _ there
        rw [held, Option.some.injEq] at again
        rw [← again, alive] at running
        cases running
    | false =>
        obtain ⟨after, announced, remaining, done, oldItems, left, oldProperties, others, next,
          nextCancellable, _⟩ :=
          esconfCacheSetPropertyReplyHandler_settles held more alive
        refine ⟨after, announced, done, ?_⟩
        refine coherent.answered held oldItems ?_ (fun _ => none) ?_ ?_ others next nextCancellable
          fewer same
        · intro oldItem remains
          rcases left with missing | kept
          · rw [missing] at remains
            cases remains
          · rw [kept, Option.some.injEq] at remains
            rw [← remains]
            exact ⟨rfl, rfl, counter⟩
        · intro property other there
          rw [oldProperties] at there
          by_cases this : property = before.property
          · rw [this, Function.update_self] at there
            cases there
          · rwa [Function.update_of_ne this] at there
        · intro there
          rw [oldProperties, Function.update_self] at there
          cases there

theorem lookup (coherent : Coherent cache calls) (property : CString)
    (reply : Except DBusError GVariant) :
    Coherent (esconfCacheLookupLocked cache property reply).2.2 calls := by
  rcases esconfCacheLookupLocked_cases cache property reply with
    ⟨error, found⟩ | ⟨fetched, _, found⟩
  · rw [found]
    exact coherent
  · rw [found]
    exact coherent.cached _

theorem reset (coherent : Coherent cache calls) (propertyBase : CString) (recursive : Bool)
    (reply : Except DBusError Unit) :
    Coherent (esconfCacheReset cache propertyBase recursive reply).2.2 calls := by
  cases reply with
  | error error => exact coherent
  | ok =>
      cases recursive with
      | true => exact coherent.cached _
      | false => exact coherent.cached _

theorem propertyChanged (coherent : Coherent cache calls) (channelName property : CString)
    (propVariant : GVariant) :
    Coherent (esconfCacheHandlePropertyChanged cache channelName property propVariant).1 calls := by
  unfold esconfCacheHandlePropertyChanged
  split
  · exact coherent
  · split
    · exact coherent
    · split
      · exact coherent.cached _
      · exact coherent.cached _
      · exact coherent
      · exact coherent

theorem propertyRemoved (coherent : Coherent cache calls) (channelName property : CString) :
    Coherent (esconfCacheHandlePropertyRemoved cache channelName property).1 calls := by
  unfold esconfCacheHandlePropertyRemoved
  split
  · exact coherent
  · exact coherent.cached _

theorem not_spent (coherent : Coherent cache calls) (property : CString) :
    ¬cache.Spent property := by
  rintro ⟨number, oldItem, there, held, cancelled, _⟩
  obtain ⟨same, again, _, alive, _⟩ := coherent.known property number there
  rw [held, Option.some.injEq] at again
  rw [← again, cancelled] at alive
  cases alive

theorem set_cases (coherent : Coherent cache calls) {property : CString} {value : GValue}
    {reply : Except DBusError GVariant} {outcome : SetReturn}
    (safe : SetIsSafe host cache property value reply)
    (returned : esconfCacheSet host cache property value reply = some outcome) :
    outcome.cache = (esconfCacheLookupLocked cache property reply).2.2 ∧ outcome.call = none ∨
      ∃ item, ((esconfGvalueToGvariant host value).isSome ∨
          item.any (GValue.isEqual · value) = true) ∧
        Esconf.setLookedUp host (esconfCacheLookupLocked cache property reply).2.2 property value
          item = some outcome := by
  have spent := coherent.not_spent property
  unfold SetIsSafe at safe
  unfold esconfCacheSet setAfterLookup at returned
  generalize esconfCacheLookupLocked cache property reply = looked at safe returned ⊢
  obtain ⟨found, error, fetched⟩ := looked
  simp only [spent, and_false, or_false] at safe
  cases found with
  | some item =>
      refine Or.inr ⟨some item, ?_, returned⟩
      rcases safe with converted | ⟨_, ⟨⟩, equal⟩ | ⟨missing, _⟩
      · exact Or.inl converted
      · exact Or.inr equal
      · cases missing
  | none =>
      simp only at returned
      split at returned
      · next notFound =>
          refine Or.inr ⟨none, ?_, returned⟩
          rcases safe with converted | ⟨_, ⟨⟩, _⟩ | ⟨_, other⟩
          · exact Or.inl converted
          · rw [notFound] at other
            cases other
      · cases returned
        exact Or.inl ⟨rfl, rfl⟩

theorem set (coherent : Coherent cache calls) {property : CString} {value : GValue}
    {reply : Except DBusError GVariant} {outcome : SetReturn}
    (safe : SetIsSafe host cache property value reply)
    (returned : esconfCacheSet host cache property value reply = some outcome) :
    Coherent outcome.cache (calls ++ outcome.call.toList) := by
  have kept := coherent.lookup property reply
  rcases coherent.set_cases safe returned with ⟨same, quiet⟩ | ⟨item, ready, went⟩
  · rw [same, quiet, Option.toList_none, List.append_nil]
    exact kept
  · exact kept.setLookedUp ready went

end Coherent

theorem SafelyReached.coherent {host : Host} {client : CacheClient}
    (reached : SafelyReached host client) : Coherent client.cache client.calls := by
  induction reached with
  | new channelName => exact Coherent.new channelName
  | @step client next event reached safe stepped coherent =>
      cases event with
      | set property value reply =>
          obtain ⟨outcome, returned, rfl⟩ := Option.map_eq_some_iff.mp stepped
          exact coherent.set safe returned
      | lookup property reply =>
          cases stepped
          exact coherent.lookup property reply
      | reset propertyBase recursive reply =>
          cases stepped
          exact coherent.reset propertyBase recursive reply
      | propertyChanged channelName property propVariant =>
          cases stepped
          exact coherent.propertyChanged channelName property propVariant
      | propertyRemoved channelName property =>
          cases stepped
          exact coherent.propertyRemoved channelName property
      | callback index finish =>
          simp only [CacheClient.step] at stepped
          split at stepped
          · cases stepped
          · next call present =>
              obtain ⟨after, announced, done, kept⟩ := coherent.callback present finish
              rw [done] at stepped
              cases stepped
              exact kept

/-- An old item in the table is that of a call whose callback has not run. -/
theorem SafelyReached.awaited {host : Host} {client : CacheClient}
    (reached : SafelyReached host client) {property : CString} {number : Nat}
    (there : client.cache.oldProperties property = some number) :
    ∃ call ∈ client.calls, call.property = property ∧ call.userData = number := by
  obtain ⟨oldItem, held, name, _, waiting⟩ := reached.coherent.known property number there
  rw [reached.coherent.counted number oldItem held] at waiting
  obtain ⟨call, member, here⟩ := List.countP_pos_iff.mp (Int.natCast_pos.mp waiting)
  rw [beq_iff_eq] at here
  obtain ⟨again, present, same⟩ := reached.coherent.addressed call member
  rw [here, held, Option.some.injEq] at present
  exact ⟨call, member, by rw [← same, ← present, name], here⟩

end CacheClient

open CacheClient in
/-- A failing set leaves the cache as it was exactly if it is safe, and as long as
all sets are safe an old item means that a callback is still to come. -/
theorem failed_set_harmless (host : Host) :
    (∀ cache : EsconfCache, cache.Numbered → ∀ property value reply outcome,
      esconfCacheSet host cache property value reply = some outcome →
        ((outcome.ret = false → cache.Unchanged outcome.cache) ↔
          SetIsSafe host cache property value reply)) ∧
    ∀ client, SafelyReached host client → ∀ property number,
      client.cache.oldProperties property = some number →
        ∃ call ∈ client.calls, call.property = property ∧ call.userData = number :=
  ⟨fun _ numbered _ _ _ _ returned => failed_set_unchanged numbered returned,
    fun _ reached _ _ there => reached.awaited there⟩

theorem failed_set_harmless_first :
    ∃ client outcome,
      (CacheClient.new "Panel".toList).step (Host.bare [])
        (.set "/a".toList (.int 1) (.error propertyNotFoundReply)) = some client ∧
      esconfCacheSet (Host.bare []) client.cache "/a".toList (.float 0)
        (.error propertyNotFoundReply) = some outcome ∧
      ((outcome.ret = false → client.cache.Unchanged outcome.cache) ↔
        SetIsSafe (Host.bare []) client.cache "/a".toList (.float 0)
          (.error propertyNotFoundReply)) ∧
      ∃ call ∈ client.calls, call.property = "/a".toList ∧ call.userData = 0 := by
  have begun : CacheClient.SafelyReached (Host.bare []) (CacheClient.new "Panel".toList) := .new _
  have safe : (CacheClient.new "Panel".toList).Safe (Host.bare [])
      (.set "/a".toList (.int 1) (.error propertyNotFoundReply)) := Or.inl rfl
  have reached := begun.step safe rfl
  refine ⟨_, _, rfl, rfl, ?_, ?_⟩
  · exact (failed_set_harmless (Host.bare [])).1 _ reached.coherent.numbered _ _ _ _ rfl
  · exact (failed_set_harmless (Host.bare [])).2 _ reached _ _ rfl

/-- A float cannot be sent: the set fails, but from then on no PropertyChanged
signal gets through, and no callback is to come. -/
theorem failed_set_suppresses :
    ∃ client outcome,
      (CacheClient.new "Panel".toList).step (Host.bare [])
        (.lookup "/a".toList (.ok (.variant (.int32 1)))) = some client ∧
      esconfCacheSet (Host.bare []) client.cache "/a".toList (.float 0)
        (.error propertyNotFoundReply) = some outcome ∧
      outcome.ret = false ∧ ¬client.cache.Unchanged outcome.cache ∧
      client.calls = [] ∧ outcome.call = none ∧
      outcome.cache.oldProperties "/a".toList = some 0 ∧
      ∀ propVariant, esconfCacheHandlePropertyChanged outcome.cache "Panel".toList "/a".toList
        propVariant = (outcome.cache, none) := by
  refine ⟨_, _, rfl, rfl, rfl, ?_, rfl, rfl, rfl, fun _ => rfl⟩
  intro unchanged
  have same := congrFun unchanged.oldProperties "/a".toList
  cases same

end Esconf
