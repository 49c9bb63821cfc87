import Esconf.PendingCalls

/-! A property whose sets the daemon rejects, all of them: what the cache has when the last
callback has run. -/

namespace Esconf

variable {host : Host} {property : CString} {reply : Except DBusError GVariant}

def CacheClient.announces (host : Host) (client : CacheClient) : CacheEvent → Announced
  | .set property value reply =>
    (esconfCacheSet host client.cache property value reply).bind SetReturn.announced
  | .propertyChanged channelName property propVariant =>
    (esconfCacheHandlePropertyChanged client.cache channelName property propVariant).2
  | .propertyRemoved channelName property =>
    (esconfCacheHandlePropertyRemoved client.cache channelName property).2
  | .callback index finish =>
    client.calls[index]?.bind fun call =>
      (esconfCacheSetPropertyReplyHandler client.cache call.userData finish).bind Prod.snd
  | .lookup _ _ | .reset _ _ _ => none

def CacheEvent.Elsewhere (property : CString) (client : CacheClient) : CacheEvent → Prop
  | .set name _ _ | .lookup name _ => name ≠ property
  | .reset propertyBase recursive reply => reply = .ok () → property ≠ propertyBase ∧
      (recursive = true → startsWithAnyCase (propertyBase ++ "/".toList) property = false)
  | .propertyChanged channelName name _ | .propertyRemoved channelName name =>
      channelName = client.cache.channelName → name ≠ property
  | .callback index _ => ∀ call, client.calls[index]? = some call → call.property ≠ property

/-- An event of a time in which the daemon answers `reply` when it is asked for the property,
rejects every set of it, and sends no signal for it. -/
inductive Rejecting (host : Host) (property : CString) (reply : Except DBusError GVariant)
    (client : CacheClient) : CacheEvent → Prop where
  | set (value : GValue) (converted : (esconfGvalueToGvariant host value).isSome) :
      Rejecting host property reply client (.set property value reply)
  | lookup : Rejecting host property reply client (.lookup property reply)
  | callback (index : Nat) (error : DBusError) :
      Rejecting host property reply client (.callback index (.error error))
  | elsewhere {event : CacheEvent} (elsewhere : event.Elsewhere property client)
      (safe : client.Safe host event) : Rejecting host property reply client event

def daemonValue : Except DBusError GVariant → Option GValue
  | .ok variant => esconfGvariantToGvalue variant
  | .error _ => none

/-- The value that an announcement carries; for a property that is gone it is unset. -/
def carried (value : GValue) : Option GValue := if value.isSet then some value else none

/-- The zero with the other sign than that of the daemon. -/
def OtherZero (reply : Except DBusError GVariant) (value : GValue) : Prop :=
  ∃ m n, daemonValue reply = some (.double m) ∧ value = .double n ∧ GValue.doubleEqual n m = true ∧
    n ≠ m

/-- What was seen of a property: the sets made, the values of those made while another was on
its way, the sets after which the cache had another value than they found, and the values
announced. -/
structure PropertyRecord where
  sets : Nat
  crossed : List GValue
  changes : Nat
  announced : List GValue

/-- The record after an event that led to `next`. -/
def PropertyRecord.after (record : PropertyRecord) (host : Host) (property : CString)
    (client : CacheClient) (event : CacheEvent) (next : CacheClient) : PropertyRecord :=
  let announced := record.announced ++
    (((client.announces host event).filter (·.1 == property)).map Prod.snd).toList
  match event with
  | .set name value answer =>
    if name = property then
      let found := (esconfCacheLookupLocked client.cache property answer).1
      ⟨record.sets + 1,
        if (client.cache.oldProperties property).isSome then record.crossed ++ [value]
          else record.crossed,
        if next.cache.properties property = found then record.changes else record.changes + 1,
        announced⟩
    else { record with announced }
  | _ => { record with announced }

/-- A client after events in which the daemon rejected every set of the property; at first
nothing of it is on its way, and it was not fetched or is cached as the daemon has it. -/
inductive RejectedRun (host : Host) (property : CString) (reply : Except DBusError GVariant) :
    CacheClient → PropertyRecord → Prop where
  | start {client : CacheClient} (reached : CacheClient.SafelyReached host client)
      (idle : client.cache.oldProperties property = none)
      (cached : client.cache.properties property = none ∨
        client.cache.properties property = daemonValue reply) :
      RejectedRun host property reply client ⟨0, [], 0, []⟩
  | step {client next : CacheClient} {record : PropertyRecord} {event : CacheEvent}
      (run : RejectedRun host property reply client record)
      (rejecting : Rejecting host property reply client event)
      (stepped : client.step host event = some next) :
      RejectedRun host property reply next (record.after host property client event next)

structure Aside (property : CString) (before after : EsconfCache) : Prop where
  entry : after.properties property = before.properties property
  waiting : after.oldProperties property = before.oldProperties property
  item : ∀ number, before.oldProperties property = some number →
    after.oldItems number = before.oldItems number

theorem Aside.refl (property : CString) (cache : EsconfCache) : Aside property cache cache :=
  ⟨rfl, rfl, fun _ _ => rfl⟩

theorem Aside.trans {first second third : EsconfCache} (begun : Aside property first second)
    (ended : Aside property second third) : Aside property first third := by
  refine ⟨ended.entry.trans begun.entry, ended.waiting.trans begun.waiting, ?_⟩
  intro number there
  rw [ended.item number (begun.waiting.trans there), begun.item number there]

theorem Aside.cached {cache : EsconfCache} {properties : CString → Option GValue}
    (entry : properties property = cache.properties property) :
    Aside property cache { cache with properties } :=
  ⟨entry, rfl, fun _ _ => rfl⟩

theorem Aside.setOldItem {before cache : EsconfCache} (aside : Aside property before cache)
    {number : Nat} (other : before.oldProperties property ≠ some number)
    (oldItem : EsconfCacheOldItem) : Aside property before (cache.setOldItem number oldItem) := by
  refine ⟨aside.entry, aside.waiting, ?_⟩
  intro mine there
  have different : mine ≠ number := by
    rintro rfl
    exact other there
  exact (Function.update_of_ne different ..).trans (aside.item mine there)

theorem callSetProperty_aside {before cache : EsconfCache} (aside : Aside property before cache)
    {name : CString} (apart : name ≠ property) {number : Nat}
    (other : before.oldProperties property ≠ some number) (value : GValue) (item : Option GValue)
    (oldItem : EsconfCacheOldItem) :
    Aside property before (callSetProperty host cache name value item number oldItem).cache := by
  unfold callSetProperty
  split
  · exact aside
  · next val _ =>
      have kept := aside.setOldItem other { oldItem with
        variant := some val, pendingCallsCount := oldItem.pendingCallsCount + 1 }
      refine ⟨?_, kept.waiting, kept.item⟩
      exact (Function.update_of_ne apart.symm ..).trans kept.entry

theorem callSetProperty_outcome {cache : EsconfCache} {value : GValue} {item : Option GValue}
    {number : Nat} {oldItem : EsconfCacheOldItem} {outcome : SetReturn}
    (called : callSetProperty host cache property value item number oldItem = outcome) :
    (outcome.ret = true ∧ outcome.announced = some (property, value) ∧
        ∃ call, outcome.call = some call ∧ call.property = property) ∨
      (outcome.ret = false ∧ outcome.announced = none ∧ outcome.call = none) := by
  subst called
  unfold callSetProperty
  split
  · exact Or.inr ⟨rfl, rfl, rfl⟩
  · exact Or.inl ⟨rfl, rfl, _, rfl, rfl⟩

theorem callSetProperty_announced {cache : EsconfCache} {name : CString} (value : GValue)
    (item : Option GValue) (number : Nat) (oldItem : EsconfCacheOldItem) :
    (callSetProperty host cache name value item number oldItem).announced = none ∨
      (callSetProperty host cache name value item number oldItem).announced =
        some (name, value) := by
  rcases @callSetProperty_outcome host name cache value item number oldItem _ rfl with
    ⟨_, told, _⟩ | ⟨_, quiet, _⟩
  · exact Or.inr told
  · exact Or.inl quiet

theorem setLookedUp_outcome {cache : EsconfCache} {value : GValue} {item : Option GValue}
    {outcome : SetReturn} (returned : setLookedUp host cache property value item = some outcome) :
    (outcome.ret = true ∧ outcome.announced = some (property, value) ∧
        ∃ call, outcome.call = some call ∧ call.property = property) ∨
      (outcome.announced = none ∧ outcome.call = none ∧
        (outcome.ret = true → item.any (GValue.isEqual · value) = true)) := by
  have called {cache : EsconfCache} {number : Nat} {oldItem : EsconfCacheOldItem}
      (went : some (callSetProperty host cache property value item number oldItem) =
        some outcome) :=
    (callSetProperty_outcome (Option.some.inj went)).imp_right fun failed =>
      show outcome.announced = none ∧ outcome.call = none ∧
          (outcome.ret = true → item.any (GValue.isEqual · value) = true) from
        ⟨failed.2.1, failed.2.2, fun succeeded => absurd (failed.1.symm.trans succeeded)
          Bool.false_ne_true⟩
  unfold setLookedUp at returned
  split at returned
  · next equal =>
      cases returned
      exact Or.inr ⟨rfl, rfl, fun _ => equal⟩
  · split at returned
    · split at returned
      · cases returned
      · exact called returned
    · exact called returned

theorem esconfCacheSet_outcome {cache : EsconfCache} {value : GValue}
    {reply : Except DBusError GVariant} {outcome : SetReturn}
    (returned : esconfCacheSet host cache property value reply = some outcome) :
    (outcome.ret = true ∧ outcome.announced = some (property, value) ∧
        ∃ call, outcome.call = some call ∧ call.property = property) ∨
      (outcome.announced = none ∧ outcome.call = none ∧ (outcome.ret = true →
        (esconfCacheLookupLocked cache property reply).1.any (GValue.isEqual · value) = true)) := by
  unfold esconfCacheSet setAfterLookup at returned
  generalize esconfCacheLookupLocked cache property reply = looked at returned ⊢
  obtain ⟨_ | item, error, fetched⟩ := looked
  · simp only at returned
    split at returned
    · exact setLookedUp_outcome returned
    · cases returned
      exact Or.inr ⟨rfl, rfl, nofun⟩
  · exact setLookedUp_outcome returned

theorem cancelOldCall_aside {cache : EsconfCache} {number : Nat}
    (other : cache.oldProperties property ≠ some number) (oldItem : EsconfCacheOldItem) :
    Aside property cache (cancelOldCall cache number oldItem).1 := by
  unfold cancelOldCall
  split
  · exact (Aside.refl property cache).setOldItem other _
  · have renewed : Aside property cache ((cache.cancel oldItem.cancellable).removePendingCall
        oldItem.cancellable).newCancellable := ⟨rfl, rfl, fun _ _ => rfl⟩
    exact renewed.setOldItem other _

theorem setLookedUp_aside {cache : EsconfCache} {calls : List SetPropertyCall}
    (coherent : CacheClient.Coherent cache calls) {name : CString} (apart : name ≠ property)
    {value : GValue} {item : Option GValue} {outcome : SetReturn}
    (returned : setLookedUp host cache name value item = some outcome) :
    Aside property cache outcome.cache ∧
      (outcome.announced = none ∨ outcome.announced = some (name, value)) := by
  unfold setLookedUp at returned
  split at returned
  · cases returned
    exact ⟨Aside.refl property cache, Or.inl rfl⟩
  · split at returned
    · next number there =>
        obtain ⟨oldItem, held, named, _⟩ := coherent.known name number there
        have other : cache.oldProperties property ≠ some number := by
          intro mine
          obtain ⟨again, same, called, _⟩ := coherent.known property number mine
          rw [held, Option.some.injEq] at same
          exact apart (by rw [← named, ← called, same])
        rw [held] at returned
        cases returned
        refine ⟨callSetProperty_aside ?_ apart other value item _,
          callSetProperty_announced value item number _⟩
        exact cancelOldCall_aside other oldItem
    · have other : cache.oldProperties property ≠ some cache.nextOldItem := by
        intro mine
        obtain ⟨again, held, _⟩ := coherent.known property _ mine
        rw [coherent.allocated _ (Nat.le_refl _)] at held
        cases held
      cases returned
      refine ⟨callSetProperty_aside ?_ apart other value item _,
        callSetProperty_announced value item _ _⟩
      have kept := (Aside.refl property cache).setOldItem other
        ⟨name, item, cache.nextCancellable, 0, none⟩
      refine ⟨kept.entry, ?_, kept.item⟩
      exact Function.update_of_ne apart.symm ..

theorem lookup_aside (cache : EsconfCache) {name : CString} (apart : name ≠ property)
    (answer : Except DBusError GVariant) :
    Aside property cache (esconfCacheLookupLocked cache name answer).2.2 := by
  rcases esconfCacheLookupLocked_cases cache name answer with
    ⟨error, found⟩ | ⟨fetched, _, found⟩
  · rw [found]
    exact Aside.refl property cache
  · rw [found]
    exact Aside.cached (Function.update_of_ne apart.symm ..)

theorem esconfCacheSet_aside {cache : EsconfCache} {calls : List SetPropertyCall}
    (coherent : CacheClient.Coherent cache calls) {name : CString} (apart : name ≠ property)
    {value : GValue} {answer : Except DBusError GVariant} {outcome : SetReturn}
    (returned : esconfCacheSet host cache name value answer = some outcome) :
    Aside property cache outcome.cache ∧
      (outcome.announced = none ∨ outcome.announced = some (name, value)) := by
  have looked := lookup_aside cache apart answer
  have kept := coherent.lookup name answer
  unfold esconfCacheSet setAfterLookup at returned
  generalize esconfCacheLookupLocked cache name answer = found at returned looked kept
  obtain ⟨_ | item, error, fetched⟩ := found
  · simp only at returned
    split at returned
    · obtain ⟨aside, announced⟩ := setLookedUp_aside kept apart returned
      exact ⟨looked.trans aside, announced⟩
    · cases returned
      exact ⟨looked, Or.inl rfl⟩
  · obtain ⟨aside, announced⟩ := setLookedUp_aside kept apart returned
    exact ⟨looked.trans aside, announced⟩

theorem callback_aside {cache : EsconfCache} {calls : List SetPropertyCall}
    (tracked : Tracked cache calls) {index : Nat} {call : SetPropertyCall}
    (present : calls[index]? = some call) (apart : call.property ≠ property)
    {finish : Except DBusError Unit} {after : EsconfCache} {announced : Announced}
    (done : esconfCacheSetPropertyReplyHandler cache call.userData finish =
      some (after, announced)) :
    Aside property cache after ∧
      (announced = none ∨ ∃ value, announced = some (call.property, value)) := by
  obtain ⟨oldItem, held, named, _⟩ := tracked.alive (List.mem_of_getElem? present)
  have other : ∀ mine, cache.oldProperties property = some mine → mine ≠ call.userData := by
    rintro _ there rfl
    obtain ⟨again, same, called, _⟩ := tracked.coherent.known property _ there
    rw [held, Option.some.injEq] at same
    exact apart (by rw [← named, same, called])
  obtain ⟨properties, oldItems, heard, _⟩ :=
    esconfCacheSetPropertyReplyHandler_elsewhere held done
  rw [named] at properties heard
  obtain ⟨entry, waiting⟩ := properties property apart.symm
  exact ⟨⟨entry, waiting, fun mine there => oldItems mine (other mine there)⟩, heard⟩

theorem silent_elsewhere (name : CString) (value : GValue)
    (there : (none : Announced) = some (name, value)) : name ≠ property := by
  cases there

theorem Tracked.elsewhere {client next : CacheClient}
    (tracked : Tracked client.cache client.calls) {event : CacheEvent}
    (elsewhere : event.Elsewhere property client) (stepped : client.step host event = some next) :
    Aside property client.cache next.cache ∧
      ∀ name value, client.announces host event = some (name, value) → name ≠ property := by
  cases event with
  | set name value answer =>
      obtain ⟨outcome, returned, rfl⟩ := Option.map_eq_some_iff.mp stepped
      obtain ⟨aside, announced⟩ := esconfCacheSet_aside tracked.coherent elsewhere returned
      refine ⟨aside, ?_⟩
      intro heard carried there
      simp only [CacheClient.announces, returned, Option.bind_some] at there
      rcases announced with none | some
      · rw [none] at there
        cases there
      · rw [some] at there
        cases there
        exact elsewhere
  | lookup name answer =>
      cases stepped
      exact ⟨lookup_aside _ elsewhere answer, silent_elsewhere⟩
  | reset propertyBase recursive answer =>
      cases stepped
      refine ⟨?_, silent_elsewhere⟩
      cases answer with
      | error error => exact Aside.refl property _
      | ok =>
          obtain ⟨apart, below⟩ := elsewhere rfl
          cases recursive with
          | false => exact Aside.cached (Function.update_of_ne apart ..)
          | true =>
              refine Aside.cached ?_
              rw [below rfl, if_neg Bool.false_ne_true]
              exact Function.update_of_ne apart ..
  | propertyChanged channelName name propVariant =>
      cases stepped
      simp only [CacheClient.announces, esconfCacheHandlePropertyChanged]
      by_cases channel : channelName = client.cache.channelName
      · have apart := elsewhere channel
        rw [if_neg (not_not.mpr channel)]
        split
        · exact ⟨Aside.refl property _, silent_elsewhere⟩
        · split
          · refine ⟨Aside.cached (Function.update_of_ne apart.symm ..), ?_⟩
            intro heard value there
            simp only at there
            split at there
            · cases there
              exact apart
            · cases there
          · refine ⟨Aside.cached (Function.update_of_ne apart.symm ..), ?_⟩
            rintro _ _ ⟨⟩
            exact apart
          · exact ⟨Aside.refl property _, silent_elsewhere⟩
          · refine ⟨Aside.refl property _, ?_⟩
            rintro _ _ ⟨⟩
            exact apart
      · rw [if_pos channel]
        exact ⟨Aside.refl property _, silent_elsewhere⟩
  | propertyRemoved channelName name =>
      cases stepped
      simp only [CacheClient.announces, esconfCacheHandlePropertyRemoved]
      by_cases channel : channelName = client.cache.channelName
      · have apart := elsewhere channel
        rw [if_neg (not_not.mpr channel)]
        refine ⟨Aside.cached (Function.update_of_ne apart.symm ..), ?_⟩
        rintro _ _ ⟨⟩
        exact apart
      · rw [if_pos channel]
        exact ⟨Aside.refl property _, silent_elsewhere⟩
  | callback index finish =>
      simp only [CacheClient.step] at stepped
      split at stepped
      · cases stepped
      · next call present =>
          obtain ⟨⟨after, announced⟩, done, rfl⟩ := Option.map_eq_some_iff.mp stepped
          have apart := elsewhere call present
          obtain ⟨aside, heard⟩ := callback_aside tracked present apart done
          refine ⟨aside, ?_⟩
          intro name value there
          simp only [CacheClient.announces, present, done, Option.bind_some] at there
          rcases heard with none | ⟨value, some⟩
          · rw [none] at there
            cases there
          · rw [some] at there
            cases there
            exact apart

/-- With nothing on its way the cache has the value of the daemon, which was the last announced;
otherwise it has saved that value, and the one in its place is not the other zero. -/
structure Restorable (property : CString) (reply : Except DBusError GVariant)
    (cache : EsconfCache) (record : PropertyRecord) : Prop where
  fetched : cache.oldProperties property = none →
    record.sets = 0 ∧ cache.properties property = none ∨
      cache.properties property = daemonValue reply
  told : cache.oldProperties property = none → 0 < record.changes →
    ∃ last, record.announced.getLast? = some last ∧ carried last = daemonValue reply
  saved : ∀ number oldItem, cache.oldProperties property = some number →
    cache.oldItems number = some oldItem →
      oldItem.item = daemonValue reply ∧
        ∃ entry, cache.properties property = some entry ∧ ¬OtherZero reply entry

theorem not_otherZero {value : GValue} {item : Option GValue} (agrees : item = daemonValue reply)
    (differs : item.any (GValue.isEqual · value) = false) : ¬OtherZero reply value := by
  rintro ⟨m, n, daemon, rfl, equal, _⟩
  rw [agrees, daemon, Option.any_some] at differs
  have same : GValue.isEqual (.double m) (.double n) = true := GValue.ieeeEqual_symm equal
  rw [same] at differs
  cases differs

namespace Restorable

variable {cache after : EsconfCache} {record : PropertyRecord}

theorem aside (restorable : Restorable property reply cache record)
    (aside : Aside property cache after) : Restorable property reply after record := by
  refine ⟨?_, ?_, ?_⟩
  · rw [aside.waiting, aside.entry]
    exact restorable.fetched
  · rw [aside.waiting]
    exact restorable.told
  · intro number oldItem there held
    rw [aside.waiting] at there
    rw [aside.item number there] at held
    rw [aside.entry]
    exact restorable.saved number oldItem there held

theorem looked (restorable : Restorable property reply cache record) :
    (esconfCacheLookupLocked cache property reply).2.2.properties property =
        (esconfCacheLookupLocked cache property reply).1 ∧
      (cache.oldProperties property = none →
        (esconfCacheLookupLocked cache property reply).1 = daemonValue reply) := by
  cases cached : cache.properties property with
  | some item =>
      simp only [esconfCacheLookupLocked, cached, true_and]
      intro idle
      rcases restorable.fetched idle with ⟨_, missing⟩ | agrees
      · rw [cached] at missing
        cases missing
      · rwa [cached] at agrees
  | none =>
      simp only [esconfCacheLookupLocked, cached]
      cases reply with
      | error error => exact ⟨cached, fun _ => rfl⟩
      | ok variant =>
          cases converted : esconfGvariantToGvalue variant with
          | none =>
              simp only [lookupFetched, daemonValue, converted]
              exact ⟨cached, fun _ => trivial⟩
          | some value =>
              simp only [lookupFetched, daemonValue, converted]
              exact ⟨Function.update_self .., fun _ => trivial⟩

theorem lookup (restorable : Restorable property reply cache record) :
    Restorable property reply (esconfCacheLookupLocked cache property reply).2.2 record := by
  obtain ⟨found, agrees⟩ := restorable.looked
  rcases esconfCacheLookupLocked_cases cache property reply with
    ⟨error, same⟩ | ⟨fetched, missing, same⟩
  · rw [same]
    exact restorable
  · rw [same] at found agrees ⊢
    refine ⟨fun idle => Or.inr (found ▸ agrees idle), restorable.told, ?_⟩
    intro number oldItem there held
    obtain ⟨_, entry, cached, _⟩ := restorable.saved number oldItem there held
    rw [missing] at cached
    cases cached

theorem setLookedUp {calls : List SetPropertyCall} (tracked : Tracked cache calls)
    (restorable : Restorable property reply cache record) {value : GValue} {item : Option GValue}
    (agrees : cache.oldProperties property = none → item = daemonValue reply)
    (plain : (cache.oldProperties property).isSome → ¬OtherZero reply value)
    (convertible : (esconfGvalueToGvariant host value).isSome) {outcome : SetReturn}
    (returned : Esconf.setLookedUp host cache property value item = some outcome) :
    outcome.cache = cache ∧ outcome.announced = none ∨
      (outcome.cache.oldProperties property).isSome ∧
        ∀ number oldItem, outcome.cache.oldProperties property = some number →
          outcome.cache.oldItems number = some oldItem →
            oldItem.item = daemonValue reply ∧
              ∃ entry, outcome.cache.properties property = some entry ∧
                ¬OtherZero reply entry := by
  obtain ⟨val, converted⟩ := Option.isSome_iff_exists.mp convertible
  cases differs : item.any (GValue.isEqual · value) with
  | true =>
      rw [setLookedUp_equal differs] at returned
      cases returned
      exact Or.inl ⟨rfl, rfl⟩
  | false =>
      cases there : cache.oldProperties property with
      | some number =>
          obtain ⟨before, held, _, alive, _⟩ := tracked.coherent.known property number there
          rw [setLookedUp_again differs there held alive converted] at returned
          cases returned
          refine Or.inr ⟨by simp [there], ?_⟩
          intro again oldItem present item
          simp only [there, Option.some.injEq] at present
          simp only [← present, Function.update_self, Option.some.injEq] at item
          simp only [← item, Function.update_self]
          exact ⟨(restorable.saved number before there held).1, value, rfl,
            plain (by rw [there]; rfl)⟩
      | none =>
          rw [setLookedUp_first differs there converted] at returned
          cases returned
          refine Or.inr ⟨by simp, ?_⟩
          intro again oldItem present item
          simp only [Function.update_self, Option.some.injEq] at present
          simp only [← present, Function.update_self, Option.some.injEq] at item
          simp only [← item, Function.update_self]
          exact ⟨agrees there, value, rfl, not_otherZero (agrees there) differs⟩

theorem set {calls : List SetPropertyCall} (tracked : Tracked cache calls)
    (restorable : Restorable property reply cache record) {value : GValue}
    (plain : (cache.oldProperties property).isSome → ¬OtherZero reply value)
    (convertible : (esconfGvalueToGvariant host value).isSome) {outcome : SetReturn}
    (returned : esconfCacheSet host cache property value reply = some outcome)
    {later : PropertyRecord}
    (changes : outcome.cache.properties property = (esconfCacheLookupLocked cache property reply).1 →
      later.changes = record.changes)
    (announced : outcome.announced = none → later.announced = record.announced) :
    Restorable property reply outcome.cache later := by
  obtain ⟨found, agrees⟩ := restorable.looked
  have fetched := restorable.lookup
  have kept := tracked.lookup property reply
  have waiting : (esconfCacheLookupLocked cache property reply).2.2.oldProperties =
      cache.oldProperties := by
    rcases esconfCacheLookupLocked_cases cache property reply with ⟨_, same⟩ | ⟨_, _, same⟩
    · rw [same]
    · rw [same]
      rfl
  -- A set that makes no call leaves what the lookup has.
  have quiet : outcome.cache = (esconfCacheLookupLocked cache property reply).2.2 →
      outcome.announced = none → Restorable property reply outcome.cache later := by
    intro same silent
    rw [same] at changes ⊢
    refine ⟨?_, ?_, fetched.saved⟩
    · intro idle
      rw [found]
      exact Or.inr (agrees (waiting ▸ idle))
    · rw [changes found, announced silent]
      exact fetched.told
  unfold esconfCacheSet setAfterLookup at returned
  generalize esconfCacheLookupLocked cache property reply = looked at *
  obtain ⟨item, error, after⟩ := looked
  simp only at returned found agrees fetched kept waiting quiet
  have called (went : Esconf.setLookedUp host after property value item = some outcome) :
      Restorable property reply outcome.cache later := by
    rcases fetched.setLookedUp kept (fun idle => agrees (waiting ▸ idle))
        (fun busy => plain (waiting ▸ busy)) convertible went with
      ⟨same, silent⟩ | ⟨busy, saved⟩
    · exact quiet same silent
    · refine ⟨?_, ?_, saved⟩
      all_goals
        intro idle
        rw [idle] at busy
        cases busy
  cases item with
  | some item => exact called returned
  | none =>
      simp only at returned
      split at returned
      · exact called returned
      · cases returned
        exact quiet rfl rfl

end Restorable

theorem esconfCacheSetPropertyReplyHandler_rejected {cache : EsconfCache} {number : Nat}
    {before : EsconfCacheOldItem} (held : cache.oldItems number = some before)
    (last : ¬0 < before.pendingCallsCount - 1)
    (running : cache.cancelled before.cancellable = false) {item : GValue}
    (cached : cache.properties before.property = some item) (error : DBusError) :
    let restored := before.item.map fun old => (esconfCacheItemUpdate item old).1
    ∃ after, esconfCacheSetPropertyReplyHandler cache number (.error error) =
        some (after, some (before.property, restored.getD .invalid)) ∧
      after.properties before.property = restored ∧
      after.oldProperties before.property = none := by
  unfold esconfCacheSetPropertyReplyHandler
  simp only [held]
  rw [if_neg last, if_neg (Bool.eq_false_iff.mp running)]
  simp only [cached]
  cases before.item with
  | none => exact ⟨_, rfl, Function.update_self .., Function.update_self ..⟩
  | some old => exact ⟨_, rfl, Function.update_self .., Function.update_self ..⟩

/-- An update that is passed over leaves the value of the daemon or its other zero. -/
theorem itemUpdate_restored {item value : GValue} (daemon : daemonValue reply = some value)
    (plain : ¬OtherZero reply item) : (esconfCacheItemUpdate item value).1 = value := by
  have type : value.gtype ≠ .int16 ∧ value.gtype ≠ .float ∧ value.isSet = true := by
    cases reply with
    | error => cases daemon
    | ok variant => exact esconfGvariantToGvalue_gtype daemon
  unfold esconfCacheItemUpdate
  split
  · next equal =>
      rcases GValue.Agrees.of_isEqual type.1 type.2.1 equal with same | ⟨m, n, rfl, rfl, zeros⟩
      · exact same
      · by_contra apart
        have different : m ≠ n := fun same => apart (by rw [same])
        exact plain ⟨n, m, daemon, rfl, zeros, different⟩
  · rfl

/-- What is restored is the value of the daemon, and so is what is announced. -/
theorem restored_daemon {saved : Option GValue} (agrees : saved = daemonValue reply)
    {item : GValue} (plain : ¬OtherZero reply item) :
    let restored := saved.map fun old => (esconfCacheItemUpdate item old).1
    restored = daemonValue reply ∧ carried (restored.getD .invalid) = daemonValue reply := by
  subst agrees
  cases daemon : daemonValue reply with
  | none => exact ⟨rfl, rfl⟩
  | some value =>
      have updated := itemUpdate_restored daemon plain
      have set : value.isSet = true := by
        cases reply with
        | error => cases daemon
        | ok variant => exact (esconfGvariantToGvalue_gtype daemon).2.2
      simp only [Option.map_some, updated, Option.getD_some, carried, set, if_true, and_self]

namespace Restorable

theorem callback {cache after : EsconfCache} {calls : List SetPropertyCall}
    {record later : PropertyRecord} (tracked : Tracked cache calls)
    (restorable : Restorable property reply cache record) {index : Nat} {call : SetPropertyCall}
    (present : calls[index]? = some call) (mine : call.property = property) {error : DBusError}
    {announced : Announced}
    (done : esconfCacheSetPropertyReplyHandler cache call.userData (.error error) =
      some (after, announced))
    (heard : ∀ value, announced = some (property, value) →
      later.announced = record.announced ++ [value]) :
    Restorable property reply after later := by
  have there := tracked.listed call (List.mem_of_getElem? present)
  rw [mine] at there
  obtain ⟨oldItem, held, named, alive, ⟨_, more⟩ | ⟨_, last⟩⟩ := tracked.callback_cases present
  · rw [esconfCacheSetPropertyReplyHandler_waits held more] at done
    cases done
    refine ⟨?_, ?_, ?_⟩
    · intro idle
      exact absurd (there.symm.trans idle) (Option.some_ne_none _)
    · intro idle
      exact absurd (there.symm.trans idle) (Option.some_ne_none _)
    · intro number again present item
      have same : number = call.userData := Option.some.inj (present.symm.trans there)
      rw [same] at item
      simp only [EsconfCache.setOldItem, Function.update_self, Option.some.injEq] at item
      rw [← item]
      exact restorable.saved _ oldItem there held
  · obtain ⟨agrees, item, entry, plain⟩ := restorable.saved _ oldItem there held
    rw [mine] at named
    obtain ⟨_, settled, properties, idle⟩ :=
      esconfCacheSetPropertyReplyHandler_rejected held last alive (named ▸ entry) error
    rw [done] at settled
    cases settled
    obtain ⟨restored, told⟩ := restored_daemon agrees plain
    rw [named] at properties idle heard
    refine ⟨fun _ => Or.inr (properties ▸ restored), ?_, ?_⟩
    · intro _ _
      refine ⟨_, ?_, told⟩
      rw [heard _ rfl, List.getLast?_concat]
    · intro number again busy
      rw [idle] at busy
      cases busy

end Restorable

theorem PropertyRecord.after_elsewhere {client next : CacheClient} {event : CacheEvent}
    (elsewhere : event.Elsewhere property client)
    (unheard : ∀ name value, client.announces host event = some (name, value) → name ≠ property)
    (record : PropertyRecord) : record.after host property client event next = record := by
  have silent : (client.announces host event).filter (·.1 == property) = none := by
    rw [Option.filter_eq_none_iff]
    intro pair there
    simpa using unheard pair.1 pair.2 there
  cases event with
  | set name value answer =>
      simp only [PropertyRecord.after, silent, if_neg (show ¬name = property from elsewhere)]
      simp
  | _ => simp [PropertyRecord.after, silent]

theorem PropertyRecord.crossed_after (record : PropertyRecord) (client : CacheClient)
    (event : CacheEvent) (next : CacheClient) :
    record.crossed ⊆ (record.after host property client event next).crossed := by
  intro value member
  unfold PropertyRecord.after
  cases event with
  | set name value answer =>
      dsimp only
      split
      · dsimp only
        split
        · exact List.mem_append_left _ member
        · exact member
      · exact member
  | _ => exact member

theorem Restorable.step {client next : CacheClient} {record : PropertyRecord} {event : CacheEvent}
    (tracked : Tracked client.cache client.calls)
    (restorable : Restorable property reply client.cache record)
    (plain : ∀ value ∈ (record.after host property client event next).crossed,
      ¬OtherZero reply value)
    (rejecting : Rejecting host property reply client event)
    (stepped : client.step host event = some next) :
    Restorable property reply next.cache (record.after host property client event next) := by
  -- An event elsewhere is one of three kinds, and is treated alike.
  have aside (elsewhere : event.Elsewhere property client) :
      Restorable property reply next.cache (record.after host property client event next) := by
    obtain ⟨kept, unheard⟩ := tracked.elsewhere elsewhere stepped
    rw [PropertyRecord.after_elsewhere elsewhere unheard]
    exact restorable.aside kept
  cases rejecting with
  | set value converted =>
      obtain ⟨outcome, returned, rfl⟩ := Option.map_eq_some_iff.mp stepped
      refine restorable.set tracked ?_ converted returned ?_ ?_
      · intro busy
        apply plain
        simp [PropertyRecord.after, busy]
      · intro same
        simp [PropertyRecord.after, same]
      · intro silent
        simp [PropertyRecord.after, CacheClient.announces, returned, silent]
  | lookup =>
      cases stepped
      have looked := restorable.lookup
      simpa [PropertyRecord.after, CacheClient.announces] using looked
  | callback index error =>
      cases present : client.calls[index]? with
      | none => simp [CacheClient.step, present] at stepped
      | some call =>
          by_cases mine : call.property = property
          · simp only [CacheClient.step, present] at stepped
            obtain ⟨⟨after, announced⟩, done, rfl⟩ := Option.map_eq_some_iff.mp stepped
            refine restorable.callback tracked present mine done ?_
            rintro value rfl
            simp [PropertyRecord.after, CacheClient.announces, present, done]
          · refine aside ?_
            intro other there
            rw [present, Option.some.injEq] at there
            exact there ▸ mine
  | elsewhere elsewhere safe => exact aside elsewhere

theorem Rejecting.safe {client : CacheClient} {event : CacheEvent}
    (rejecting : Rejecting host property reply client event) : client.Safe host event := by
  cases rejecting with
  | set value converted => exact Or.inl converted
  | elsewhere elsewhere safe => exact safe
  | _ => trivial

theorem RejectedRun.invariant {client : CacheClient} {record : PropertyRecord}
    (run : RejectedRun host property reply client record)
    (plain : ∀ value ∈ record.crossed, ¬OtherZero reply value) :
    Tracked client.cache client.calls ∧ Restorable property reply client.cache record := by
  induction run with
  | start reached idle cached =>
      refine ⟨reached.tracked, ?_, ?_, ?_⟩
      · intro _
        rcases cached with none | agrees
        · exact Or.inl ⟨rfl, none⟩
        · exact Or.inr agrees
      · intro _ changed
        exact absurd changed (Nat.lt_irrefl 0)
      · intro number oldItem there
        rw [idle] at there
        cases there
  | step _ rejecting stepped invariant =>
      obtain ⟨tracked, restorable⟩ := invariant fun value member =>
        plain value (PropertyRecord.crossed_after _ _ _ _ member)
      exact ⟨tracked.step rejecting.safe stepped,
        restorable.step tracked plain rejecting stepped⟩

/-- When every callback of the property has run, the cache has what the daemon has, nothing of
the property is left in the tables, and if a set changed the cached value then the last value
announced is that of the daemon, unless the other zero of that value was set while another set
was on its way. -/
theorem rejected_sets_rolled_back {client : CacheClient} {record : PropertyRecord}
    (run : RejectedRun host property reply client record)
    (plain : ∀ value ∈ record.crossed, ¬OtherZero reply value)
    (answered : ∀ call ∈ client.calls, call.property ≠ property) :
    (record.sets = 0 ∧ client.cache.properties property = none ∨
        client.cache.properties property = daemonValue reply) ∧
      client.cache.oldProperties property = none ∧
      (∀ cancellable number, client.cache.pendingCalls cancellable = some number →
        ∃ oldItem, client.cache.oldItems number = some oldItem ∧ oldItem.property ≠ property) ∧
      (0 < record.changes → ∃ last, record.announced.getLast? = some last ∧
        carried last = daemonValue reply) := by
  obtain ⟨tracked, restorable⟩ := run.invariant plain
  have idle : client.cache.oldProperties property = none := by
    cases there : client.cache.oldProperties property with
    | none => rfl
    | some number =>
        obtain ⟨call, member, mine, _⟩ := tracked.waiting there
        exact absurd mine (answered call member)
  exact ⟨restorable.fetched idle, idle, (tracked.idle idle).2, restorable.told idle⟩

/-- Two sets cross their replies: the first is cancelled, the second rejected. -/
theorem crossed_rejections_rolled_back :
    ∃ client record, RejectedRun (Host.bare []) "/a".toList (.ok (.variant (.int32 1)))
        client record ∧ client.calls = [] ∧ record.sets = 2 ∧ record.changes = 2 ∧
      record.announced = [.int 2, .int 3, .int 1] ∧
      (record.sets = 0 ∧ client.cache.properties "/a".toList = none ∨
        client.cache.properties "/a".toList = daemonValue (.ok (.variant (.int32 1)))) := by
  have begun : RejectedRun (Host.bare []) "/a".toList (.ok (.variant (.int32 1)))
      (CacheClient.new "Panel".toList) ⟨0, [], 0, []⟩ := .start (.new _) rfl (Or.inl rfl)
  have first := begun.step (.set (.int 2) rfl) rfl
  have second := first.step (.set (.int 3) rfl) rfl
  have cancelled := second.step (.callback 0 ⟨none, []⟩) rfl
  have rejected := cancelled.step (.callback 0 ⟨none, []⟩) rfl
  have plain : ∀ value ∈ [GValue.int 3], ¬OtherZero (.ok (.variant (.int32 1))) value := by
    intro value member other
    obtain ⟨m, n, _, double, _⟩ := other
    rw [List.mem_singleton.mp member] at double
    cases double
  exact ⟨_, _, rejected, rfl, rfl, rfl, rfl, (rejected_sets_rolled_back rejected plain nofun).1⟩

/-- The daemon has 0.0 and rejects 1.0 and then -0.0, which stays in the cache. -/
theorem other_zero_left :
    ∃ client record, RejectedRun (Host.bare []) "/a".toList (.ok (.variant (.double 0)))
        client record ∧ client.calls = [] ∧ record.changes = 2 ∧
      record.announced.getLast? = some (.double 0x8000000000000000) ∧
      client.cache.properties "/a".toList = some (.double 0x8000000000000000) ∧
      daemonValue (.ok (.variant (.double 0))) = some (.double 0) := by
  have begun : RejectedRun (Host.bare []) "/a".toList (.ok (.variant (.double 0)))
      (CacheClient.new "Panel".toList) ⟨0, [], 0, []⟩ := .start (.new _) rfl (Or.inl rfl)
  have first := begun.step (.set (.double 0x3ff0000000000000) rfl) rfl
  have second := first.step (.set (.double 0x8000000000000000) rfl) rfl
  have cancelled := second.step (.callback 0 ⟨none, []⟩) rfl
  have rejected := cancelled.step (.callback 0 ⟨none, []⟩) rfl
  exact ⟨_, _, rejected, rfl, rfl, rfl, rfl, rfl⟩

end Esconf
