import Esconf.BoundCascades

/-! Whatever a program does, its bindings are in agreement when it is done. -/

namespace Esconf.Client

theorem esconfCacheSetPropertyReplyHandler_values {cache after : EsconfCache} {number : Nat}
    {before : EsconfCacheOldItem} {finish : Except DBusError Unit} {announced : Announced}
    (held : cache.oldItems number = some before)
    (done : esconfCacheSetPropertyReplyHandler cache number finish = some (after, announced)) :
    after.channelName = cache.channelName ∧
      (∀ other oldItem, after.oldItems other = some oldItem → ∃ known,
        cache.oldItems other = some known ∧ oldItem.item = known.item ∧
          oldItem.property = known.property) ∧
      (announced = none ∧ after.properties = cache.properties ∨
        (∃ old value, before.item = some old ∧ (value = old ∨ GValue.isEqual value old = true ∧
            cache.properties before.property = some value) ∧
          after.properties = Function.update cache.properties before.property (some value) ∧
          announced = some (before.property, value)) ∨
        (∃ error, finish = .error error) ∧ before.item = none ∧
          after.properties = Function.update cache.properties before.property none ∧
          announced = some (before.property, .invalid)) := by
  -- The old items are the same but for the count of this one.
  have counted : ∀ other oldItem, Function.update cache.oldItems number
      (some { before with pendingCallsCount := before.pendingCallsCount - 1 }) other =
        some oldItem → ∃ known, cache.oldItems other = some known ∧
          oldItem.item = known.item ∧ oldItem.property = known.property := by
    intro other oldItem there
    by_cases here : other = number
    · subst here
      rw [Function.update_self, Option.some.injEq] at there
      subst there
      exact ⟨before, held, rfl, rfl⟩
    · rw [Function.update_of_ne here] at there
      exact ⟨oldItem, there, rfl, rfl⟩
  have freed : ∀ last other oldItem, Function.update (Function.update cache.oldItems number
      (some last)) number none other = some oldItem → ∃ known,
        cache.oldItems other = some known ∧ oldItem.item = known.item ∧
          oldItem.property = known.property := by
    intro last other oldItem there
    rw [Function.update_idem] at there
    by_cases here : other = number
    · rw [here, Function.update_self] at there
      cases there
    · rw [Function.update_of_ne here] at there
      exact ⟨oldItem, there, rfl, rfl⟩
  unfold esconfCacheSetPropertyReplyHandler at done
  simp only [held] at done
  split at done
  · cases done
    exact ⟨rfl, counted, Or.inl ⟨rfl, rfl⟩⟩
  · split at done
    · cases done
      exact ⟨rfl, freed _, Or.inl ⟨rfl, rfl⟩⟩
    · split at done
      · cases done
        exact ⟨rfl, counted, Or.inl ⟨rfl, rfl⟩⟩
      · next item present =>
          cases finish with
          | ok =>
              cases done
              exact ⟨rfl, freed _, Or.inl ⟨rfl, rfl⟩⟩
          | error error =>
              cases saved : before.item with
              | none =>
                  simp only [saved] at done
                  cases done
                  exact ⟨rfl, freed _, Or.inr (Or.inr ⟨⟨error, rfl⟩, rfl, rfl, rfl⟩)⟩
              | some old =>
                  simp only [saved] at done
                  cases done
                  refine ⟨rfl, freed _, Or.inr (Or.inl ⟨old, _, rfl, ?_, rfl, rfl⟩)⟩
                  cases equal : GValue.isEqual item old with
                  | true =>
                      simp only [esconfCacheItemUpdate, equal, if_true]
                      exact Or.inr ⟨trivial, present⟩
                  | false =>
                      simp only [esconfCacheItemUpdate, equal]
                      exact Or.inl rfl

theorem esconfCacheHandlePropertyChanged_cases (cache : EsconfCache) (channelName property : CString)
    {propVariant : GVariant} {value : GValue}
    (converted : esconfGvariantToGvalue propVariant = some value) :
    esconfCacheHandlePropertyChanged cache channelName property propVariant = (cache, none) ∨
      esconfCacheHandlePropertyChanged cache channelName property propVariant =
        (cache.insertProperty property value, some (property, value)) := by
  unfold esconfCacheHandlePropertyChanged
  simp only [converted]
  split
  · exact Or.inl rfl
  · split
    · exact Or.inl rfl
    · cases found : cache.properties property with
      | none => exact Or.inr rfl
      | some item =>
          cases equal : GValue.isEqual item value with
          | false =>
              simp only [esconfCacheItemUpdate, equal]
              exact Or.inr rfl
          | true =>
              simp only [esconfCacheItemUpdate, equal, if_true, EsconfCache.insertProperty,
                ← found, Function.update_eq_self]
              exact Or.inl rfl

namespace BoundWorld

variable {host : Host} {A : Type} {m : Meaning host A} {system : ObjectSystem} {daemon : Daemon}
  {meaning : A} {except : Nat → Prop} {world after : BoundWorld}

structure AtRest (m : Meaning host A) (system : ObjectSystem) (world : BoundWorld) : Prop where
  sound : world.bindings.Sound
  typed : world.Typed m
  understood : ∀ binding record channel object, Binds world.bindings binding record channel object →
    world.Understood m system (world.esconfTypes binding) channel record.esconfProperty object
      record.objectProperty
  idle : world.running = []
  unblocked : ∀ handler, world.blocks handler = 0
  agree : ∀ binding record channel object, Binds world.bindings binding record channel object →
    world.Agrees m record channel object

theorem AtRest.flows (rest : world.AtRest m system) (meaning : A) :
    world.Flows m system meaning except := by
  refine ⟨rest.sound, rest.typed, rest.understood, ?_, ?_, ?_, ?_⟩
  · intro handler
    rw [rest.unblocked, rest.idle]
    rfl
  · intro task member
    rw [rest.idle] at member
    cases member
  · intro binding record channel object _ _ held
    rw [rest.unblocked, rest.unblocked] at held
    exact absurd held (by decide)
  · exact fun binding record channel object binds _ =>
      Or.inl (rest.agree binding record channel object binds)

theorem Flows.atRest (flows : world.Flows m system meaning fun _ => False)
    (idle : world.running = []) : world.AtRest m system := by
  refine ⟨flows.sound, flows.typed, flows.understood, idle, ?_, ?_⟩
  · intro handler
    rw [flows.counted, idle]
    rfl
  · intro binding record channel object binds
    rcases flows.covered binding record channel object binds id with agrees | awaited
    · exact agrees
    · rcases awaited with ⟨_, _, member, _⟩ | ⟨_, member, _⟩ <;> rw [idle] at member <;>
        cases member

/-- The objects bound to a property have no default, or one that means the same to all. -/
def Resets (m : Meaning host A) (system : ObjectSystem) (world : BoundWorld) (channel : Nat)
    (name : CString) : Prop :=
  ∃ meaning, world.Tells m system meaning channel name .invalid

def Fetches (m : Meaning host A) (daemon : Daemon) (world : BoundWorld) (channel : Nat)
    (name : CString) : Prop :=
  world.cached channel name = none → ∀ variant value,
    daemon.getProperty (world.channels channel).client.cache.channelName name = .ok variant →
    esconfGvariantToGvalue variant = some value →
      (∃ meaning, value = m.channelValue channel name meaning) ∧
      ∀ binding record object, Binds world.bindings binding record channel object →
        world.realProp channel record.esconfProperty ≠ name

/-- The values an event brings have a meaning, and no property that is bound is fetched. -/
def Allowed (m : Meaning host A) (system : ObjectSystem) (daemon : Daemon) (world : BoundWorld) :
    Event → Prop
  | .setObject object name value => ∃ meaning, value = m.objectValue object name meaning
  | .setChannel channel property value =>
    world.Unfetched daemon channel (world.realProp channel property) ∧
      ∃ meaning, value = m.channelValue channel (world.realProp channel property) meaning
  | .getChannel channel property =>
    world.Fetches m daemon channel (world.realProp channel property)
  | .propertyChanged channel _ property propVariant => ∃ meaning,
    esconfGvariantToGvalue propVariant = some (m.channelValue channel property meaning)
  | .propertyRemoved channel _ property =>
    world.Absent daemon channel property ∧ world.Resets m system channel property
  | .callback channel index finish => ∀ call oldItem error,
    (world.channels channel).client.calls[index]? = some call →
    (world.channels channel).client.cache.oldItems call.userData = some oldItem →
    oldItem.item = none → finish = .error error →
      world.Absent daemon channel oldItem.property ∧
        world.Resets m system channel oldItem.property
  | .bind channel esconfProperty esconfType object objectProperty =>
    world.Understood m system esconfType channel esconfProperty object objectProperty ∧
      world.Fetches m daemon channel (world.realProp channel esconfProperty)
  | .resetChannel .. | .unbind _ | .unbindByProperty .. | .unbindAll .. | .destroy ..
  | .shutdown => True

def Starts (m : Meaning host A) (system : ObjectSystem) (daemon : Daemon) (world : BoundWorld)
    (event : Event) : Prop :=
  ∃ after meaning, world.start system host daemon event = some after ∧
    after.Flows m system meaning (fun _ => False) ∧ (after.running = [] ∨ after.Quiet daemon)

theorem setClient_self (world : BoundWorld) (channel : Nat) :
    world.setClient channel (world.channels channel).client = world := by
  unfold setClient
  rw [Function.update_eq_self_iff.mpr rfl]

theorem setClient_channelName {channel : Nat} {client : CacheClient}
    (channelName : client.cache.channelName = (world.channels channel).client.cache.channelName)
    (other : Nat) : ((world.setClient channel client).channels other).client.cache.channelName =
      (world.channels other).client.cache.channelName := by
  rw [setClient_channels]
  split
  · next here =>
      subst here
      exact channelName
  · rfl

section

variable (rest : world.AtRest m system) {channel : Nat} {client : CacheClient}
  {announced : Announced}
include rest

theorem AtRest.aMeaning : Nonempty A :=
  let ⟨meaning, _⟩ := rest.typed.values 0 []
  ⟨meaning⟩

theorem AtRest.nothing (meaning : A) {event : Event}
    (nothing : world.start system host daemon event = some world) :
    world.Starts m system daemon event :=
  ⟨world, meaning, nothing, rest.flows meaning, Or.inl rest.idle⟩

theorem AtRest.moves (quiet : world.Quiet daemon)
    (moves : Moves m system meaning world channel client announced)
    (channelName : client.cache.channelName = (world.channels channel).client.cache.channelName)
    (gone : ∀ name, client.cache.properties name = none →
      world.cached channel name = none ∨ world.Absent daemon channel name) :
    ((world.setClient channel client).emitPropertyChanged channel announced).Flows m system meaning
        (fun _ => False) ∧
      ((world.setClient channel client).emitPropertyChanged channel announced).Quiet daemon := by
  refine ⟨(rest.flows meaning).moves moves, ?_⟩
  obtain ⟨running, same, _⟩ :=
    emitPropertyChanged_running (world.setClient channel client) channel announced
  rw [same]
  have settled : (world.setClient channel client).Quiet daemon := by
    refine quiet.of rfl (fun other => setClient_realProp world channel other client)
      (setClient_channelName channelName) fun other name missing => ?_
    rw [setClient_cached] at missing
    split at missing
    · next here =>
        subst here
        exact gone name missing
    · exact Or.inl missing
  exact settled

theorem AtRest.forgets (meaning : A)
    (coherent : CacheClient.Coherent client.cache client.calls)
    (saved : client.cache.oldItems = (world.channels channel).client.cache.oldItems)
    (fewer : ∀ name, client.cache.properties name = world.cached channel name ∨
      client.cache.properties name = none) :
    (world.setClient channel client).Flows m system meaning (fun _ => False) := by
  have moves : Moves m system meaning world channel client none := by
    refine ⟨coherent, ?_, fun name => (fewer name).imp_right Or.inl, nofun⟩
    rw [saved]
    exact rest.typed.saved channel
  exact (rest.flows meaning).moves moves

end

theorem starts_setObject (rest : world.AtRest m system) (quiet : world.Quiet daemon) (object : Nat)
    (name : CString) (meaning : A) :
    world.Starts m system daemon (.setObject object name (m.objectValue object name meaning)) := by
  cases alive : world.bindings.alive object with
  | false => exact rest.nothing meaning (by simp [start, alive])
  | true =>
      refine ⟨_, meaning, by rw [start, if_pos alive], (rest.flows meaning).setObject object name,
        Or.inr ?_⟩
      obtain ⟨running, same, _⟩ :=
        gObjectSetProperty_cases system world object name (m.objectValue object name meaning)
      rw [same]
      exact quiet

theorem starts_setChannel (rest : world.AtRest m system) (quiet : world.Quiet daemon)
    {channel : Nat} {property : CString} (meaning : A)
    (unfetched : world.Unfetched daemon channel (world.realProp channel property)) :
    world.Starts m system daemon (.setChannel channel property
      (m.channelValue channel (world.realProp channel property) meaning)) := by
  cases alive : world.bindings.alive channel with
  | false => exact rest.nothing meaning (by simp [start, alive])
  | true =>
      obtain ⟨client, running, set, moved, properties, channelName, _⟩ :=
        (rest.flows meaning).setProperty unfetched
      exact ⟨_, meaning, by rw [start, if_pos alive]; exact set, moved,
        Or.inr ((set_holds properties channelName).quiet quiet)⟩

theorem starts_resetChannel (rest : world.AtRest m system) (channel : Nat)
    (propertyBase : CString) (recursive : Bool) :
    world.Starts m system daemon (.resetChannel channel propertyBase recursive) := by
  obtain ⟨meaning⟩ := rest.aMeaning
  have coherent := rest.typed.coherent channel
  have kept : ∀ reply, CacheClient.Coherent (esconfCacheReset (world.channels channel).client.cache
        (world.realProp channel propertyBase) recursive reply).2.2
        (world.channels channel).client.calls ∧
      (esconfCacheReset (world.channels channel).client.cache
        (world.realProp channel propertyBase) recursive reply).2.2.oldItems =
          (world.channels channel).client.cache.oldItems ∧
      ∀ name, (esconfCacheReset (world.channels channel).client.cache
        (world.realProp channel propertyBase) recursive reply).2.2.properties name =
          world.cached channel name ∨
        (esconfCacheReset (world.channels channel).client.cache
          (world.realProp channel propertyBase) recursive reply).2.2.properties name = none := by
    intro reply
    refine ⟨coherent.reset _ recursive reply, ?_, ?_⟩
    · cases reply with
      | error => rfl
      | ok => cases recursive <;> rfl
    · intro name
      cases reply with
      | error => exact Or.inl rfl
      | ok =>
          have removed : Function.update (world.channels channel).client.cache.properties
                (world.realProp channel propertyBase) none name = world.cached channel name ∨
              Function.update (world.channels channel).client.cache.properties
                (world.realProp channel propertyBase) none name = none := by
            rw [Function.update_apply]
            split
            · exact Or.inr rfl
            · exact Or.inl rfl
          cases recursive with
          | false => exact removed
          | true =>
              simp only [esconfCacheReset, evictBelow, if_true]
              split
              · exact Or.inr rfl
              · exact removed
  refine ⟨_, meaning, rfl, ?_, Or.inl rest.idle⟩
  unfold esconfChannelResetProperty
  simp only
  split
  · exact rest.forgets meaning (kept _).1 (kept _).2.1 (kept _).2.2
  · exact rest.forgets meaning coherent rfl fun _ => Or.inl rfl

theorem lookupIn_cases (world : BoundWorld) (channel : Nat) (name : CString) :
    (∃ value, world.cached channel name = some value ∧
      lookupIn daemon (world.channels channel).client.cache name =
        ⟨some value, (world.channels channel).client.cache, some (.cacheLookup name)⟩) ∨
    world.cached channel name = none ∧
      (lookupIn daemon (world.channels channel).client.cache name =
          ⟨none, (world.channels channel).client.cache, some (.cacheLookup name)⟩ ∨
        ∃ variant value, daemon.getProperty (world.channels channel).client.cache.channelName name =
            .ok variant ∧ esconfGvariantToGvalue variant = some value ∧
          lookupIn daemon (world.channels channel).client.cache name =
            ⟨some value, (world.channels channel).client.cache.insertProperty name value,
              some (.cacheLookup name)⟩) := by
  unfold lookupIn esconfCacheLookupLocked
  cases found : world.cached channel name with
  | some value =>
      rw [cached] at found
      simp only [found]
      exact Or.inl ⟨value, rfl, rfl⟩
  | none =>
      rw [cached] at found
      simp only [found]
      refine Or.inr ⟨trivial, ?_⟩
      cases answer : daemon.getProperty (world.channels channel).client.cache.channelName name with
      | error error => exact Or.inl rfl
      | ok variant =>
          cases converted : esconfGvariantToGvalue variant with
          | none =>
              simp only [lookupFetched, converted]
              exact Or.inl trivial
          | some value =>
              simp only [lookupFetched, converted]
              exact Or.inr ⟨variant, value, rfl, converted, rfl⟩

theorem Flows.fetches (flows : world.Flows m system meaning except) {channel : Nat}
    {name : CString}
    (unbound : ∀ binding record object, Binds world.bindings binding record channel object →
      ¬except binding → world.realProp channel record.esconfProperty ≠ name) :
    (world.setClient channel { (world.channels channel).client with
      cache := (world.channels channel).client.cache.insertProperty name
        (m.channelValue channel name meaning) }).Flows m system meaning except := by
  have reads : ∀ other property, (world.setClient channel { (world.channels channel).client with
      cache := (world.channels channel).client.cache.insertProperty name
        (m.channelValue channel name meaning) }).cached other property =
      if other = channel ∧ property = name then some (m.channelValue channel name meaning)
      else world.cached other property := fun other property => set_cached rfl other property
  have spread : Spread m meaning world (world.setClient channel { (world.channels channel).client with
      cache := (world.channels channel).client.cache.insertProperty name
        (m.channelValue channel name meaning) }) := by
    refine ⟨rfl, rfl, fun other => setClient_realProp world channel other _, ?_,
      fun _ _ => Or.inr rfl⟩
    intro other property value there
    rw [reads] at there
    split at there
    · next here =>
        obtain ⟨rfl, rfl⟩ := here
        exact Or.inl (Option.some.inj there).symm
    · exact Or.inr there
  refine flows.spread spread ?_ flows.counted (fun task member => spread.fits (flows.fits task member))
    (fun _ _ _ _ _ _ held => held) ?_ ?_
  · refine ⟨fun other property value there => ?_, ?_, flows.typed.values, ?_⟩
    · rcases spread.cached other property value there with new | old
      · exact ⟨meaning, new⟩
      · exact flows.typed.cached other property value old
    · intro other number oldItem value
      simp only [setClient_channels]
      split
      · next here =>
          subst here
          exact flows.typed.saved other number oldItem value
      · exact flows.typed.saved other number oldItem value
    · intro other
      simp only [setClient_channels]
      split
      · next here =>
          subst here
          exact (flows.typed.coherent other).cached _
      · exact flows.typed.coherent other
  · intro binding record other object binds outside
    refine Or.inl ⟨?_, rfl⟩
    rw [reads, if_neg]
    rintro ⟨rfl, here⟩
    exact unbound binding record object binds outside here
  · intro binding record other object _ _ awaited
    rcases awaited with awaited | ⟨handlers, member, more⟩
    · exact Or.inl awaited
    · refine Or.inr ⟨handlers, ?_, more⟩
      rw [spread.realProp]
      exact member

theorem start_getChannel (host : Host) {channel : Nat} {property : CString}
    {looked : Outcome (Option GValue)} (found : lookupIn daemon (world.channels channel).client.cache
      (world.realProp channel property) = looked) :
    world.start system host daemon (.getChannel channel property) =
      some (world.setClient channel { (world.channels channel).client with
        cache := looked.cache }) := by
  rw [← found]
  rfl

theorem starts_getChannel (rest : world.AtRest m system) {channel : Nat} {property : CString}
    (fetches : world.Fetches m daemon channel (world.realProp channel property)) :
    world.Starts m system daemon (.getChannel channel property) := by
  obtain ⟨aMeaning⟩ := rest.aMeaning
  rcases lookupIn_cases world channel (world.realProp channel property) with
    ⟨value, _, looked⟩ | ⟨missing, looked | ⟨variant, value, answer, converted, looked⟩⟩
  · exact rest.nothing aMeaning
      ((start_getChannel host looked).trans (congrArg some (setClient_self world channel)))
  · exact rest.nothing aMeaning
      ((start_getChannel host looked).trans (congrArg some (setClient_self world channel)))
  · obtain ⟨⟨meaning, rfl⟩, unbound⟩ := fetches missing variant value answer converted
    exact ⟨_, meaning, start_getChannel host looked,
      (rest.flows meaning).fetches fun binding record object binds _ =>
        unbound binding record object binds, Or.inl rest.idle⟩

section

variable (rest : world.AtRest m system) {channel : Nat}
include rest

theorem AtRest.still (meaning : A) :
    Moves m system meaning world channel (world.channels channel).client none :=
  ⟨rest.typed.coherent channel, rest.typed.saved channel, fun _ => Or.inl rfl, nofun⟩

theorem AtRest.gains (meaning : A) (name : CString) {client : CacheClient}
    (coherent : CacheClient.Coherent client.cache client.calls)
    (saved : ∀ number oldItem, client.cache.oldItems number = some oldItem → ∃ known,
      (world.channels channel).client.cache.oldItems number = some known ∧
        oldItem.item = known.item ∧ oldItem.property = known.property)
    (properties : client.cache.properties = Function.update
      (world.channels channel).client.cache.properties name
        (some (m.channelValue channel name meaning))) :
    Moves m system meaning world channel client
      (some (name, m.channelValue channel name meaning)) := by
  refine ⟨coherent, ?_, ?_, ?_⟩
  · intro number oldItem value there has
    obtain ⟨known, held, same, named⟩ := saved number oldItem there
    rw [named]
    exact rest.typed.saved channel number known value held (same ▸ has)
  · intro other
    rw [properties, Function.update_apply]
    split
    · next here => exact Or.inr (Or.inr ⟨by rw [here], by rw [here]⟩)
    · exact Or.inl rfl
  · rintro _ _ ⟨⟩
    have flows : world.Flows m system meaning (fun _ => False) := rest.flows meaning
    exact ⟨Or.inr (by rw [properties, Function.update_self]), flows.tells channel name meaning⟩

theorem AtRest.drops (meaning : A) {name : CString} {client : CacheClient}
    (tells : world.Tells m system meaning channel name .invalid)
    (coherent : CacheClient.Coherent client.cache client.calls)
    (saved : ∀ number oldItem, client.cache.oldItems number = some oldItem → ∃ known,
      (world.channels channel).client.cache.oldItems number = some known ∧
        oldItem.item = known.item ∧ oldItem.property = known.property)
    (properties : client.cache.properties = Function.update
      (world.channels channel).client.cache.properties name none) :
    Moves m system meaning world channel client (some (name, .invalid)) := by
  refine ⟨coherent, ?_, ?_, ?_⟩
  · intro number oldItem value there has
    obtain ⟨known, held, same, named⟩ := saved number oldItem there
    rw [named]
    exact rest.typed.saved channel number known value held (same ▸ has)
  · intro other
    rw [properties, Function.update_apply]
    split
    · exact Or.inr (Or.inl rfl)
    · exact Or.inl rfl
  · rintro _ _ ⟨⟩
    exact ⟨Or.inl (by rw [properties, Function.update_self]), tells⟩

theorem AtRest.starts (quiet : world.Quiet daemon) {meaning : A} {client : CacheClient}
    {announced : Announced} {event : Event}
    (moves : Moves m system meaning world channel client announced)
    (channelName : client.cache.channelName = (world.channels channel).client.cache.channelName)
    (gone : ∀ name, client.cache.properties name = none →
      world.cached channel name = none ∨ world.Absent daemon channel name)
    (begins : world.start system host daemon event =
      some ((world.setClient channel client).emitPropertyChanged channel announced)) :
    world.Starts m system daemon event := by
  obtain ⟨flows, quiet⟩ := rest.moves quiet moves channelName gone
  exact ⟨_, meaning, begins, flows, Or.inr quiet⟩

theorem starts_propertyChanged (quiet : world.Quiet daemon) (channelName property : CString)
    {propVariant : GVariant} (meaning : A) (converted : esconfGvariantToGvalue propVariant =
      some (m.channelValue channel property meaning)) :
    world.Starts m system daemon (.propertyChanged channel channelName property propVariant) := by
  have coherent := (rest.typed.coherent channel).propertyChanged channelName property propVariant
  have begins : ∀ handled, esconfCacheHandlePropertyChanged (world.channels channel).client.cache
      channelName property propVariant = handled →
      world.start system host daemon (.propertyChanged channel channelName property propVariant) =
        some ((world.setClient channel { (world.channels channel).client with
          cache := handled.1 }).emitPropertyChanged channel handled.2) := by
    rintro _ rfl
    rfl
  rcases esconfCacheHandlePropertyChanged_cases (world.channels channel).client.cache channelName
    property converted with unmoved | gained
  · exact rest.starts quiet (rest.still meaning) rfl (fun _ => Or.inl) (begins _ unmoved)
  · rw [gained] at coherent
    have moves : Moves m system meaning world channel { (world.channels channel).client with
        cache := (world.channels channel).client.cache.insertProperty property
          (m.channelValue channel property meaning) }
        (some (property, m.channelValue channel property meaning)) :=
      rest.gains meaning property coherent (fun _ oldItem held => ⟨oldItem, held, rfl, rfl⟩) rfl
    refine rest.starts quiet moves rfl ?_ (begins _ gained)
    intro name missing
    simp only [EsconfCache.insertProperty, Function.update_apply] at missing
    split at missing
    · cases missing
    · exact Or.inl missing

theorem starts_propertyRemoved (quiet : world.Quiet daemon) (channelName property : CString)
    (absent : world.Absent daemon channel property)
    (resets : world.Resets m system channel property) :
    world.Starts m system daemon (.propertyRemoved channel channelName property) := by
  obtain ⟨meaning, tells⟩ := resets
  have coherent := (rest.typed.coherent channel).propertyRemoved channelName property
  have begins : ∀ handled, esconfCacheHandlePropertyRemoved (world.channels channel).client.cache
      channelName property = handled →
      world.start system host daemon (.propertyRemoved channel channelName property) =
        some ((world.setClient channel { (world.channels channel).client with
          cache := handled.1 }).emitPropertyChanged channel handled.2) := by
    rintro _ rfl
    rfl
  unfold esconfCacheHandlePropertyRemoved at coherent begins
  split at coherent
  · next other =>
      exact rest.starts quiet (rest.still meaning) rfl (fun _ => Or.inl)
        (begins _ (if_pos other))
  · next same =>
      have moves : Moves m system meaning world channel { (world.channels channel).client with
          cache := (world.channels channel).client.cache.removeProperty property }
          (some (property, .invalid)) :=
        rest.drops meaning tells coherent (fun _ oldItem held => ⟨oldItem, held, rfl, rfl⟩) rfl
      refine rest.starts quiet moves rfl ?_ (begins _ (if_neg same))
      intro name missing
      simp only [EsconfCache.removeProperty, Function.update_apply] at missing
      split at missing
      · next here =>
          subst here
          exact Or.inr absent
      · exact Or.inl missing

theorem starts_callback (quiet : world.Quiet daemon) {index : Nat} {finish : Except DBusError Unit}
    (allowed : world.Allowed m system daemon (.callback channel index finish)) :
    world.Starts m system daemon (.callback channel index finish) := by
  obtain ⟨aMeaning⟩ := rest.aMeaning
  cases present : (world.channels channel).client.calls[index]? with
  | none => exact rest.nothing aMeaning (by simp only [start, present])
  | some call =>
      obtain ⟨before, held, _⟩ := (rest.typed.coherent channel).addressed call
        (List.mem_of_getElem? present)
      obtain ⟨cache, announced, done, coherent⟩ :=
        (rest.typed.coherent channel).callback present finish
      obtain ⟨channelName, saved, values⟩ := esconfCacheSetPropertyReplyHandler_values held done
      have begins : world.start system host daemon (.callback channel index finish) =
          some ((world.setClient channel ⟨cache,
            (world.channels channel).client.calls.eraseIdx index⟩).emitPropertyChanged channel
              announced) := by
        simp only [start, present, done, Option.map_some]
      rcases values with ⟨rfl, same⟩ | ⟨old, value, had, which, restored, rfl⟩ |
        ⟨⟨error, failed⟩, nothing, dropped, rfl⟩
      · have moves : Moves m system aMeaning world channel
            ⟨cache, (world.channels channel).client.calls.eraseIdx index⟩ none := by
          refine ⟨coherent, ?_, fun name => Or.inl (congrFun same name), nofun⟩
          intro number oldItem value there has
          obtain ⟨known, held, item, named⟩ := saved number oldItem there
          rw [named]
          exact rest.typed.saved channel number known value held (item ▸ has)
        exact rest.starts quiet moves channelName
          (fun name missing => Or.inl ((congrFun same name).symm.trans missing)) begins
      · obtain ⟨meaning, rfl⟩ := rest.typed.saved channel _ before old held had
        have put : value = m.channelValue channel before.property meaning := by
          rcases which with same | ⟨equal, found⟩
          · exact same
          · obtain ⟨other, rfl⟩ := rest.typed.cached channel before.property value found
            exact (m.same channel before.property other meaning).mp equal
        subst put
        refine rest.starts quiet (rest.gains meaning before.property coherent saved restored)
          channelName ?_ begins
        intro name missing
        rw [restored, Function.update_apply] at missing
        split at missing
        · cases missing
        · exact Or.inl missing
      · obtain ⟨absent, meaning, tells⟩ := allowed call before error present held nothing failed
        refine rest.starts quiet (rest.drops meaning tells coherent saved dropped) channelName ?_
          begins
        intro name missing
        rw [dropped, Function.update_apply] at missing
        split at missing
        · next here =>
            subst here
            exact Or.inr absent
        · exact Or.inl missing

theorem AtRest.freed {bindings : BindingWorld} {gone : Nat → EsconfGBinding → Prop}
    (frees : world.bindings.Frees gone bindings) : AtRest m system { world with bindings } := by
  have before : ∀ binding record channel object, Binds bindings binding record channel object →
      Binds world.bindings binding record channel object := fun binding record _ _ binds =>
    ⟨((frees.memory binding record).mp binds.held).1, binds.channel, binds.object⟩
  refine ⟨frees.sound, ⟨rest.typed.cached, rest.typed.saved, rest.typed.values,
    rest.typed.coherent⟩, ?_, rest.idle, rest.unblocked, ?_⟩
  · intro binding record channel object binds
    obtain ⟨toChannel, toObject, named⟩ :=
      rest.understood binding record channel object (before _ _ _ _ binds)
    exact ⟨toChannel, toObject, named⟩
  · intro binding record channel object binds
    exact rest.agree binding record channel object (before _ _ _ _ binds)

theorem AtRest.releases {event : Event} {unbinds : BindingWorld.Event}
    (begins : world.start system host daemon event =
      (world.bindings.step unbinds).map fun bindings => { world with bindings })
    (frees : world.bindings.Given unbinds = true → ∃ bindings gone,
      world.bindings.step unbinds = some bindings ∧ world.bindings.Frees gone bindings) :
    world.Starts m system daemon event := by
  obtain ⟨aMeaning⟩ := rest.aMeaning
  cases given : world.bindings.Given unbinds with
  | false =>
      refine rest.nothing aMeaning (begins.trans ?_)
      simp [BindingWorld.step, given]
  | true =>
      obtain ⟨bindings, gone, done, frees⟩ := frees given
      refine ⟨{ world with bindings }, aMeaning, begins.trans (by rw [done, Option.map_some]),
        (rest.freed frees).flows aMeaning, Or.inl rest.idle⟩

theorem starts_unbind (id : Nat) : world.Starts m system daemon (.unbind id) := by
  refine rest.releases rfl fun _ => ?_
  obtain ⟨after, done, frees⟩ := BindingWorld.unbindFirst_frees rest.sound (BindingWorld.hasId id)
  exact ⟨after, _, done, frees⟩

theorem starts_unbindByProperty (channel : Nat) (esconfProperty : CString) (object : Nat)
    (objectProperty : CString) : world.Starts m system daemon
      (.unbindByProperty channel esconfProperty object objectProperty) := by
  refine rest.releases rfl fun given => ?_
  obtain ⟨after, done, frees⟩ := BindingWorld.esconfGPropertyUnbindByProperty_frees rest.sound
    channel esconfProperty object objectProperty
  exact ⟨after, _, by simp [BindingWorld.step, given, done], frees⟩

theorem starts_unbindAll (emitter : Nat) (order : List Nat) :
    world.Starts m system daemon (.unbindAll emitter order) := by
  refine rest.releases rfl fun given => ?_
  obtain ⟨after, done, frees⟩ :=
    BindingWorld.esconfGPropertyUnbindAll_frees rest.sound emitter order
  exact ⟨after, _, by simp [BindingWorld.step, given, done], frees⟩

theorem starts_destroy (emitter : Nat) (order : List Nat) :
    world.Starts m system daemon (.destroy emitter order) := by
  refine rest.releases rfl fun given => ?_
  obtain ⟨after, done, frees⟩ := BindingWorld.gObjectDestroy_frees rest.sound emitter order
  exact ⟨after, _, by simp [BindingWorld.step, given, done], frees⟩

theorem starts_shutdown : world.Starts m system daemon .shutdown := by
  refine rest.releases rfl fun given => ?_
  obtain ⟨after, done, frees⟩ := BindingWorld.shutdown_frees rest.sound
  exact ⟨after, _, done, frees⟩

end

theorem AtRest.binds (rest : world.AtRest m system) (meaning : A) {channel object : Nat}
    {esconfProperty objectProperty : CString} {esconfType : PropertyType}
    (sound : (world.bindings.esconfGPropertyInit channel esconfProperty object
      objectProperty).Sound)
    (understood : world.Understood m system esconfType channel esconfProperty object
      objectProperty) :
    Flows m system meaning (· = world.bindings.nextBinding) { world with
      bindings := world.bindings.esconfGPropertyInit channel esconfProperty object objectProperty
      esconfTypes := Function.update world.esconfTypes world.bindings.nextBinding esconfType } := by
  have before : ∀ binding record channel' object', Binds (world.bindings.esconfGPropertyInit
        channel esconfProperty object objectProperty) binding record channel' object' →
      binding ≠ world.bindings.nextBinding →
        Binds world.bindings binding record channel' object' := by
    intro binding record channel' object' binds other
    have held := binds.held
    rw [BindingWorld.esconfGPropertyInit_memory, if_neg other] at held
    exact ⟨held, binds.channel, binds.object⟩
  refine ⟨sound, ⟨rest.typed.cached, rest.typed.saved, rest.typed.values, rest.typed.coherent⟩,
    ?_, ?_, ?_, ?_, ?_⟩
  · intro binding record channel' object' binds
    by_cases here : binding = world.bindings.nextBinding
    · subst here
      have held := binds.held
      rw [BindingWorld.esconfGPropertyInit_memory, if_pos rfl, Option.some.injEq] at held
      subst held
      obtain rfl := Option.some.inj binds.channel
      obtain rfl := Option.some.inj binds.object
      simp only [Function.update_self]
      exact ⟨understood.toChannel, understood.toObject, understood.named⟩
    · obtain ⟨toChannel, toObject, named⟩ :=
        rest.understood binding record channel' object' (before _ _ _ _ binds here)
      simp only [Function.update_of_ne here]
      exact ⟨toChannel, toObject, named⟩
  · intro handler
    rw [rest.unblocked, rest.idle]
    rfl
  · intro task member
    change task ∈ world.running at member
    rw [rest.idle] at member
    cases member
  · intro binding record channel' object' _ _ held
    change 0 < world.blocks _ ∨ 0 < world.blocks _ at held
    rw [rest.unblocked, rest.unblocked] at held
    exact absurd held (by decide)
  · intro binding record channel' object' binds other
    exact Or.inl (rest.agree binding record channel' object' (before _ _ _ _ binds other))

theorem Flows.carries {binding channel object : Nat} {record : EsconfGBinding}
    (flows : world.Flows m system meaning (· = binding)) (quiet : world.Quiet daemon)
    (binds : Binds world.bindings binding record channel object)
    (has : world.cached channel (world.realProp channel record.esconfProperty) =
      some (m.channelValue channel (world.realProp channel record.esconfProperty) meaning)) :
    ∃ after, (world.block record.channelHandler).esconfGPropertyChannelNotify system binding
        (m.channelValue channel (world.realProp channel record.esconfProperty) meaning) =
          some after ∧
      after.Flows m system meaning (fun _ => False) ∧ after.Quiet daemon := by
  have understood := flows.understood binding record channel object binds
  obtain ⟨after, done, flowed, holds, _⟩ := (flows.block binds (Or.inl rfl)).channelNotify binds
    (fun present there => Option.some.inj (there.symm.trans has)) (understood.toObject meaning)
  have still : (world.block record.channelHandler).Quiet daemon := quiet
  exact ⟨after, done, flowed, holds.quiet still⟩

theorem transfer_eq {binding channel object : Nat} {record : EsconfGBinding}
    (binds : Binds world.bindings binding record channel object) {looked : Outcome (Option GValue)}
    (found : lookupIn daemon (world.channels channel).client.cache
      (world.realProp channel record.esconfProperty) = looked) :
    world.transfer system daemon binding =
      let after := world.setClient channel
        { (world.channels channel).client with cache := looked.cache }
      match looked.ret with
      | none => some after
      | some value =>
        (after.block record.channelHandler).esconfGPropertyChannelNotify system binding value := by
  subst found
  unfold transfer
  simp only [binds.held, binds.channel, Option.bind_eq_bind, Option.bind_some]
  rfl

theorem Flows.transfers {binding channel object : Nat} {record : EsconfGBinding}
    (flows : ∀ meaning, world.Flows m system meaning (· = binding))
    (quiet : ∀ other another channel object, Binds world.bindings other another channel object →
      other ≠ binding →
        world.Unfetched daemon channel (world.realProp channel another.esconfProperty))
    (binds : Binds world.bindings binding record channel object) (aMeaning : A)
    (idle : world.running = []) (fetches : world.cached channel
        (world.realProp channel record.esconfProperty) = none → ∀ variant value,
      daemon.getProperty (world.channels channel).client.cache.channelName
        (world.realProp channel record.esconfProperty) = .ok variant →
      esconfGvariantToGvalue variant = some value →
      (∃ meaning, value =
        m.channelValue channel (world.realProp channel record.esconfProperty) meaning) ∧
      ∀ other another object, Binds world.bindings other another channel object → other ≠ binding →
        world.realProp channel another.esconfProperty ≠
          world.realProp channel record.esconfProperty) :
    ∃ after meaning, world.transfer system daemon binding = some after ∧
      after.Flows m system meaning (fun _ => False) ∧ (after.running = [] ∨ after.Quiet daemon) := by
  have typed := (flows aMeaning).typed
  have quietOf : ∀ after : BoundWorld, after.bindings = world.bindings →
      (∀ other property, after.realProp other property = world.realProp other property) →
      (∀ other, (after.channels other).client.cache.channelName =
        (world.channels other).client.cache.channelName) →
      (∀ other name, after.cached other name = none → world.cached other name = none) →
      (after.cached channel (world.realProp channel record.esconfProperty)).isSome →
      after.Quiet daemon := by
    intro after same realProp channelName fewer has other another channel' object' binds' gone
    rw [same] at binds'
    rw [realProp] at gone ⊢
    rw [Absent, channelName]
    by_cases here : other = binding
    · subst here
      obtain ⟨rfl, rfl, rfl⟩ := binds.unique binds'
      rw [gone] at has
      cases has
    · exact quiet other another channel' object' binds' here (fewer _ _ gone)
  have unmoved := setClient_self world channel
  rcases lookupIn_cases world channel (world.realProp channel record.esconfProperty) with
    ⟨value, found, looked⟩ | ⟨missing, looked | ⟨variant, value, answer, converted, looked⟩⟩
  · obtain ⟨meaning, rfl⟩ := typed.cached _ _ _ found
    obtain ⟨after, done, flowed, still⟩ := (flows meaning).carries (quietOf world rfl
      (fun _ _ => rfl) (fun _ => rfl) (fun _ _ => id) (Option.isSome_of_eq_some found)) binds found
    refine ⟨after, meaning, ?_, flowed, Or.inr still⟩
    rw [transfer_eq binds looked]
    simp only [unmoved]
    exact done
  · obtain ⟨meaning, has⟩ := typed.values object record.objectProperty
    refine ⟨world, meaning, ?_, (flows meaning).close binds ⟨has, fun value there => ?_⟩,
      Or.inl idle⟩
    · rw [transfer_eq binds looked]
      simp only [unmoved]
    · rw [missing] at there
      cases there
  · obtain ⟨⟨meaning, rfl⟩, unbound⟩ := fetches missing variant value answer converted
    obtain ⟨client, is⟩ : ∃ client : CacheClient, client = { (world.channels channel).client with
        cache := (world.channels channel).client.cache.insertProperty
          (world.realProp channel record.esconfProperty)
          (m.channelValue channel (world.realProp channel record.esconfProperty) meaning) } :=
      ⟨_, rfl⟩
    have fetched := (flows meaning).fetches unbound
    rw [← is] at fetched
    have properties : client.cache.properties = Function.update
        (world.channels channel).client.cache.properties
        (world.realProp channel record.esconfProperty)
        (some (m.channelValue channel (world.realProp channel record.esconfProperty) meaning)) := by
      rw [is]
      rfl
    have real := setClient_realProp world channel channel client record.esconfProperty
    have reads : (world.setClient channel client).cached channel
        ((world.setClient channel client).realProp channel record.esconfProperty) = some
          (m.channelValue channel
            ((world.setClient channel client).realProp channel record.esconfProperty) meaning) := by
      rw [real, set_cached properties, if_pos ⟨rfl, rfl⟩]
    have holds : Holds world (world.setClient channel client) :=
      set_holds properties (by rw [is]; rfl)
    obtain ⟨after, done, flowed, still⟩ := fetched.carries (quietOf _ rfl holds.realProp
      holds.channelName holds.cached (by rw [real] at reads; rw [reads]; rfl)) binds reads
    refine ⟨after, meaning, ?_, flowed, Or.inr still⟩
    rw [transfer_eq binds looked]
    rw [real] at done
    simp only
    rw [← is]
    exact done

theorem starts_bind (rest : world.AtRest m system) (quiet : world.Quiet daemon)
    {channel object : Nat} {esconfProperty objectProperty : CString} {esconfType : PropertyType}
    (understood : world.Understood m system esconfType channel esconfProperty object objectProperty)
    (fetches : world.Fetches m daemon channel (world.realProp channel esconfProperty)) :
    world.Starts m system daemon (.bind channel esconfProperty esconfType object objectProperty) := by
  obtain ⟨aMeaning⟩ := rest.aMeaning
  cases given : world.bindings.Given (.bind channel esconfProperty object objectProperty) with
  | false => exact rest.nothing aMeaning (by simp [start, BindingWorld.step, given])
  | true =>
      cases typed : world.bindings.isChannel channel with
      | false =>
          refine rest.nothing aMeaning ?_
          simp [start, BindingWorld.step, given, BindingWorld.esconfGPropertyBind, typed]
      | true =>
          cases names : BindingWorld.arePropertyNames esconfProperty objectProperty with
          | false =>
              refine rest.nothing aMeaning ?_
              simp [start, BindingWorld.step, given, BindingWorld.esconfGPropertyBind, typed, names]
          | true =>
              have alive := given
              rw [BindingWorld.Given, Bool.and_eq_true] at alive
              have sound := BindingWorld.esconfGPropertyInit_sound rest.sound alive.1 alive.2 typed
                names
              have before : ∀ other another channel' object',
                  Binds (world.bindings.esconfGPropertyInit channel esconfProperty object
                    objectProperty) other another channel' object' →
                  other ≠ world.bindings.nextBinding →
                    Binds world.bindings other another channel' object' := by
                intro other another channel' object' binds old
                have held := binds.held
                rw [BindingWorld.esconfGPropertyInit_memory, if_neg old] at held
                exact ⟨held, binds.channel, binds.object⟩
              obtain ⟨after, meaning, done, flows, still⟩ := Flows.transfers
                (fun meaning => rest.binds meaning sound understood)
                (fun other another channel' object' binds old =>
                  quiet other another channel' object' (before _ _ _ _ binds old))
                ⟨BindingWorld.esconfGPropertyInit_memory _ |>.trans (if_pos rfl), rfl, rfl⟩ aMeaning
                rest.idle (fun missing variant value answer converted => by
                  obtain ⟨known, unbound⟩ := fetches missing variant value answer converted
                  exact ⟨known, fun other another object binds old =>
                    unbound other another object (before _ _ _ _ binds old)⟩)
              refine ⟨after, meaning, ?_, flows, still⟩
              have made : (world.bindings.esconfGPropertyInit channel esconfProperty object
                  objectProperty).nextBinding ≠ world.bindings.nextBinding :=
                Nat.succ_ne_self _
              simp only [start, BindingWorld.step, given, BindingWorld.esconfGPropertyBind, typed,
                names, Bool.not_true, Bool.false_eq_true, if_false, Option.bind_some, made]
              exact done

theorem AtRest.started (rest : world.AtRest m system) (quiet : world.Quiet daemon) (event : Event)
    (allowed : world.Allowed m system daemon event) : world.Starts m system daemon event := by
  cases event with
  | setObject object name value =>
      obtain ⟨meaning, rfl⟩ := allowed
      exact starts_setObject rest quiet object name meaning
  | setChannel channel property value =>
      obtain ⟨unfetched, meaning, rfl⟩ := allowed
      exact starts_setChannel rest quiet meaning unfetched
  | getChannel channel property => exact starts_getChannel rest allowed
  | resetChannel channel propertyBase recursive =>
      exact starts_resetChannel rest channel propertyBase recursive
  | propertyChanged channel channelName property propVariant =>
      obtain ⟨meaning, converted⟩ := allowed
      exact starts_propertyChanged rest quiet channelName property meaning converted
  | propertyRemoved channel channelName property =>
      exact starts_propertyRemoved rest quiet channelName property allowed.1 allowed.2
  | callback channel index finish => exact starts_callback rest quiet allowed
  | bind channel esconfProperty esconfType object objectProperty =>
      exact starts_bind rest quiet allowed.1 allowed.2
  | unbind id => exact starts_unbind rest id
  | unbindByProperty channel esconfProperty object objectProperty =>
      exact starts_unbindByProperty rest channel esconfProperty object objectProperty
  | unbindAll emitter order => exact starts_unbindAll rest emitter order
  | destroy emitter order => exact starts_destroy rest emitter order
  | shutdown => exact starts_shutdown rest

/-- An event comes to an end, and with it every binding agrees again. -/
theorem AtRest.performs (rest : world.AtRest m system) (quiet : world.Quiet daemon) (event : Event)
    (allowed : world.Allowed m system daemon event) :
    ∃ fuel after, world.perform system host daemon fuel event = some after ∧
      after.AtRest m system := by
  obtain ⟨begun, meaning, begins, flows, ready⟩ := rest.started quiet event allowed
  rcases ready with idle | quiet
  · refine ⟨0, begun, ?_, flows.atRest idle⟩
    rw [perform, begins, Option.bind_some, settle, Settling.settle_idle]
    exact List.isEmpty_iff.mpr idle
  · obtain ⟨fuel, after, settled, flows, idle⟩ := flows.settles quiet
    refine ⟨fuel, after, ?_, flows.atRest idle⟩
    rw [perform, begins, Option.bind_some, settled]

def new (isChannel alive : Nat → Bool) (esconfTypes : Nat → PropertyType)
    (channels : Nat → Option CString × CString) (values : Nat → CString → ObjectValue) :
    BoundWorld :=
  ⟨BindingWorld.new isChannel alive, esconfTypes,
    fun channel => ⟨(channels channel).1, CacheClient.new (channels channel).2⟩, values,
    fun _ => 0, []⟩

/-- What a process can come to, whatever the daemon answers in between. -/
inductive Reached (m : Meaning host A) (system : ObjectSystem) : BoundWorld → Prop where
  | new (isChannel alive : Nat → Bool) (esconfTypes : Nat → PropertyType)
      (channels : Nat → Option CString × CString) (meanings : Nat → CString → A) :
      Reached m system (new isChannel alive esconfTypes channels
        fun object name => m.objectValue object name (meanings object name))
  | event {world after : BoundWorld} (daemon : Daemon) {event : Event} {fuel : Nat}
      (reached : Reached m system world) (quiet : world.Quiet daemon)
      (allowed : world.Allowed m system daemon event)
      (performed : world.perform system host daemon fuel event = some after) :
      Reached m system after

theorem new_atRest (isChannel alive : Nat → Bool) (esconfTypes : Nat → PropertyType)
    (channels : Nat → Option CString × CString) (meanings : Nat → CString → A) :
    AtRest m system (new isChannel alive esconfTypes channels
      fun object name => m.objectValue object name (meanings object name)) :=
  ⟨BindingWorld.new_sound isChannel alive,
    ⟨nofun, nofun, fun object name => ⟨meanings object name, rfl⟩,
      fun channel => CacheClient.Coherent.new (channels channel).2⟩,
    fun _ _ _ _ ⟨held, _, _⟩ => (nomatch held), rfl, fun _ => rfl,
    fun _ _ _ _ ⟨held, _, _⟩ => (nomatch held)⟩

theorem Reached.atRest (reached : Reached m system world) : world.AtRest m system := by
  induction reached with
  | new isChannel alive esconfTypes channels meanings =>
      exact new_atRest isChannel alive esconfTypes channels meanings
  | @event world after daemon event fuel _ quiet allowed performed ih =>
      obtain ⟨enough, ended, done, rest⟩ := ih.performs quiet event allowed
      obtain ⟨begun, begins, settled⟩ := Option.bind_eq_some_iff.mp performed
      rw [perform, begins, Option.bind_some] at done
      exact Settling.settle_unique done settled ▸ rest

def integerObjects : ObjectSystem where
  transform := fun value _ => some value
  isBoxed := fun _ => false
  valueType := fun _ _ => .plain .int
  default := fun _ _ => .int 0
  explicitNotify := fun _ _ => false

def performAll (host : Host) (world : BoundWorld) (events : List Event) : Option BoundWorld :=
  events.foldlM (fun world event => world.perform integerObjects host .ignorant 30 event) world

def unbound : BoundWorld :=
  new (· == 0) (fun _ => true) (fun _ => .plain .int) (fun _ => (none, "panel".toList))
    fun _ _ => .plain (.int 0)

end BoundWorld

end Esconf.Client
