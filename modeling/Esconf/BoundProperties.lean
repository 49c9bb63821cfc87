import Esconf.BindingNotifies
import Esconf.BindingTeardown
import Mathlib.Data.Finset.Card

/-! Properties that are bound stay in agreement, whatever is bound to what. -/

namespace Esconf.Client

/-- What the values of the properties mean; values of one property of a channel can be sent,
and they are equal to the library exactly if they are the same. -/
structure Meaning (host : Host) (A : Type) where
  channelValue : Nat → CString → A → GValue
  objectValue : Nat → CString → A → ObjectValue
  sent : ∀ channel name meaning, ∃ variant,
    esconfGvalueToGvariant host (channelValue channel name meaning) = some variant
  same : ∀ channel name meaning other,
    GValue.isEqual (channelValue channel name meaning) (channelValue channel name other) = true ↔
      channelValue channel name meaning = channelValue channel name other

namespace BoundWorld

variable {host : Host} {A : Type} (m : Meaning host A) (system : ObjectSystem)

def realProp (world : BoundWorld) (channel : Nat) (property : CString) : CString :=
  (world.channels channel).channel.realProp property

def cached (world : BoundWorld) (channel : Nat) (name : CString) : Option GValue :=
  (world.channels channel).client.cache.properties name

structure Binds (world : BindingWorld) (binding : Nat) (record : EsconfGBinding)
    (channel object : Nat) : Prop where
  held : world.memory binding = some record
  channel : record.channel = some channel
  object : record.object = some object

structure Understood (world : BoundWorld) (esconfType : PropertyType) (channel : Nat)
    (esconfProperty : CString) (object : Nat) (objectProperty : CString) : Prop where
  toChannel : ∀ meaning, system.toChannel esconfType (system.valueType object objectProperty)
    (m.objectValue object objectProperty meaning) =
      some (m.channelValue channel (world.realProp channel esconfProperty) meaning)
  toObject : ∀ meaning, system.toObject esconfType (system.valueType object objectProperty)
    (system.default object objectProperty)
    (m.channelValue channel (world.realProp channel esconfProperty) meaning) =
      some (some (m.objectValue object objectProperty meaning))
  named : esconfProperty ≠ "/".toList

structure Typed (world : BoundWorld) : Prop where
  cached : ∀ channel name value, world.cached channel name = some value →
    ∃ meaning, value = m.channelValue channel name meaning
  saved : ∀ channel number oldItem value,
    (world.channels channel).client.cache.oldItems number = some oldItem →
    oldItem.item = some value → ∃ meaning, value = m.channelValue channel oldItem.property meaning
  values : ∀ object name, ∃ meaning, world.values object name = m.objectValue object name meaning
  coherent : ∀ channel, CacheClient.Coherent (world.channels channel).client.cache
    (world.channels channel).client.calls

/-- What the channel has, if it has a value, and what the object has mean the same. -/
def Agrees (world : BoundWorld) (record : EsconfGBinding) (channel object : Nat) : Prop :=
  ∀ value, world.cached channel (world.realProp channel record.esconfProperty) = some value →
    ∃ meaning, value = m.channelValue channel (world.realProp channel record.esconfProperty) meaning ∧
      world.values object record.objectProperty =
        m.objectValue object record.objectProperty meaning

def Settled (meaning : A) (world : BoundWorld) (record : EsconfGBinding) (channel object : Nat) :
    Prop :=
  world.values object record.objectProperty = m.objectValue object record.objectProperty meaning ∧
    ∀ value, world.cached channel (world.realProp channel record.esconfProperty) = some value →
      value = m.channelValue channel (world.realProp channel record.esconfProperty) meaning

def Awaited (meaning : A) (world : BoundWorld) (record : EsconfGBinding) (channel object : Nat) :
    Prop :=
  (∃ handlers again, Task.notify object record.objectProperty handlers again ∈ world.running ∧
    (again = true ∨ record.objectHandler ∈ handlers)) ∨
  ∃ handlers, Task.propertyChanged
      (m.channelValue channel (world.realProp channel record.esconfProperty) meaning) handlers ∈
        world.running ∧ record.channelHandler ∈ handlers

/-- An emission tells its handlers of a value with the meaning, or, when the property of the
channel is gone, of one that sets the objects to it. -/
def Fits (meaning : A) (world : BoundWorld) : Task → Prop
  | .notify object name handlers _ =>
    world.values object name = m.objectValue object name meaning ∧
      ∀ number ∈ handlers, hears world.bindings object .objectNotify name number = true
  | .propertyChanged value handlers =>
    ∃ channel property,
      (∀ number ∈ handlers, hears world.bindings channel .channelNotify property number = true) ∧
      ∀ binding record object, Binds world.bindings binding record channel object →
        record.esconfProperty = property →
        (∀ present, world.cached channel (world.realProp channel property) = some present →
          present = m.channelValue channel (world.realProp channel property) meaning) ∧
        ∃ carried, system.toObject (world.esconfTypes binding)
            (system.valueType object record.objectProperty)
            (system.default object record.objectProperty) value = some carried ∧
          (carried = none ∨ carried = some (m.objectValue object record.objectProperty meaning))
  | .unblock _ => True

def unblocks (handler : Nat) : Task → Bool
  | .unblock other => other == handler
  | _ => false

/-- What holds while a value with a meaning spreads, nothing being said of the binding
`except`. -/
structure Flows (meaning : A) (except : Nat → Prop) (world : BoundWorld) : Prop where
  sound : world.bindings.Sound
  typed : world.Typed m
  understood : ∀ binding record channel object, Binds world.bindings binding record channel object →
    world.Understood m system (world.esconfTypes binding) channel record.esconfProperty object
      record.objectProperty
  counted : ∀ handler, world.blocks handler = world.running.countP (unblocks handler)
  fits : ∀ task ∈ world.running, world.Fits m system meaning task
  settled : ∀ binding record channel object, Binds world.bindings binding record channel object →
    ¬except binding →
    0 < world.blocks record.objectHandler ∨ 0 < world.blocks record.channelHandler →
    world.Settled m meaning record channel object
  covered : ∀ binding record channel object, Binds world.bindings binding record channel object →
    ¬except binding →
    world.Agrees m record channel object ∨ world.Awaited m meaning record channel object

section

variable {bindings : BindingWorld} {binding other emitter number channel object : Nat}
  {record : EsconfGBinding} {callback : BindingCallback} {name : CString}

theorem hears_iff : hears bindings emitter callback name number = true ↔
    ∃ binding record, bindings.handlers number = some ⟨emitter, callback, binding⟩ ∧
      bindings.memory binding = some record ∧ detail record callback = name := by
  unfold hears
  cases there : bindings.handlers number with
  | none => simp
  | some handler =>
      obtain ⟨other, called, binding⟩ := handler
      cases held : bindings.memory binding with
      | none => simp [held]
      | some record =>
          simp only [held, Bool.and_eq_true, beq_iff_eq, Option.some.injEq, SignalHandler.mk.injEq]
          constructor
          · rintro ⟨⟨rfl, rfl⟩, same⟩
            exact ⟨binding, record, ⟨rfl, rfl, rfl⟩, held, same⟩
          · rintro ⟨_, _, ⟨rfl, rfl, rfl⟩, again, same⟩
            rw [held, Option.some.injEq] at again
            exact ⟨⟨rfl, rfl⟩, again ▸ same⟩

theorem Binds.handler (binds : Binds bindings binding record channel object)
    (sound : bindings.Sound) :
    bindings.handlers record.channelHandler = some ⟨channel, .channelNotify, binding⟩ ∧
      bindings.handlers record.objectHandler = some ⟨object, .objectNotify, binding⟩ := by
  have linked := sound.linked binding record binds.held
  constructor
  · obtain ⟨emitter, has, _, handler⟩ := linked.connected .channelNotify
    obtain rfl := Option.some.inj (binds.channel.symm.trans has)
    exact handler
  · obtain ⟨emitter, has, _, handler⟩ := linked.connected .objectNotify
    obtain rfl := Option.some.inj (binds.object.symm.trans has)
    exact handler

theorem Binds.channel_listens (binds : Binds bindings binding record channel object)
    (sound : bindings.Sound) :
    record.channelHandler ∈ handlersOf bindings channel .channelNotify record.esconfProperty := by
  have there := (binds.handler sound).1
  rw [handlersOf, List.mem_filter, List.mem_range]
  exact ⟨sound.lt_nextHandler there, hears_iff.mpr ⟨binding, record, there, binds.held, rfl⟩⟩

theorem Binds.object_listens (binds : Binds bindings binding record channel object)
    (sound : bindings.Sound) :
    record.objectHandler ∈ handlersOf bindings object .objectNotify record.objectProperty := by
  have there := (binds.handler sound).2
  rw [handlersOf, List.mem_filter, List.mem_range]
  exact ⟨sound.lt_nextHandler there, hears_iff.mpr ⟨binding, record, there, binds.held, rfl⟩⟩

theorem hears_binds (sound : bindings.Sound)
    (heard : hears bindings emitter callback name number = true) :
    ∃ binding record channel object, Binds bindings binding record channel object ∧
      bindings.handlers number = some ⟨emitter, callback, binding⟩ ∧
      record.handler callback = number ∧ record.emitter callback = some emitter ∧
      detail record callback = name := by
  obtain ⟨binding, record, there, held, same⟩ := hears_iff.mp heard
  have linked := sound.linked binding record held
  obtain ⟨channel, hasChannel, _, _⟩ := linked.connected .channelNotify
  obtain ⟨object, hasObject, _, _⟩ := linked.connected .objectNotify
  obtain ⟨again, held', number'⟩ := sound.owned number _ there
  obtain rfl := Option.some.inj (held.symm.trans held')
  refine ⟨binding, record, channel, object, ⟨held, hasChannel, hasObject⟩, there, number', ?_, same⟩
  obtain ⟨known, has, _, handler⟩ := linked.connected callback
  rw [number', there] at handler
  cases handler
  exact has

end

section

variable {value : GValue} {property name : CString}

theorem announce_realProp (bound : BoundChannel) (full : property ≠ []) :
    bound.channel.announce (some (bound.channel.realProp property, value)) =
      some (property, value) := by
  obtain ⟨propertyBase, client⟩ := bound
  cases propertyBase with
  | none => simp [EsconfChannel.announce, esconfChannelPropertyChanged, EsconfChannel.realProp,
      BoundChannel.channel]
  | some propertyBase =>
      have front : propertyBase.isPrefixOf (propertyBase ++ property) = true :=
        List.isPrefixOf_iff_prefix.mpr (List.prefix_append propertyBase property)
      simp only [EsconfChannel.announce, esconfChannelPropertyChanged, EsconfChannel.realProp,
        BoundChannel.channel, Option.bind_some, ne_eq, not_true_eq_false, if_false, front, if_true,
        List.drop_left, if_neg full]

theorem announce_property (bound : BoundChannel) {emitted : CString × GValue}
    (announced : bound.channel.announce (some (name, value)) = some emitted) :
    emitted.2 = value ∧
      (emitted.1 ≠ "/".toList → bound.channel.realProp emitted.1 = name) := by
  obtain ⟨propertyBase, client⟩ := bound
  cases propertyBase with
  | none =>
      simp only [EsconfChannel.announce, esconfChannelPropertyChanged, BoundChannel.channel,
        Option.bind_some, ne_eq, not_true_eq_false, if_false, Option.some.injEq] at announced
      cases announced
      exact ⟨rfl, fun _ => rfl⟩
  | some propertyBase =>
      simp only [EsconfChannel.announce, esconfChannelPropertyChanged, BoundChannel.channel,
        Option.bind_some, ne_eq, not_true_eq_false, if_false] at announced
      split at announced
      · next front =>
          cases announced
          refine ⟨rfl, fun named => ?_⟩
          obtain ⟨rest, rfl⟩ := List.isPrefixOf_iff_prefix.mp front
          rw [List.drop_left] at named ⊢
          split at named
          · exact absurd rfl named
          · next some => rw [if_neg some]; rfl
      · cases announced

theorem notifyAgain_split {object : Nat} {running after : List Task}
    (found : notifyAgain object name running = some after) :
    ∃ front handlers again back, running = front ++ .notify object name handlers again :: back ∧
      after = front ++ .notify object name handlers true :: back := by
  induction running generalizing after with
  | nil => cases found
  | cons task rest ih =>
      cases task with
      | notify other property handlers again =>
          unfold notifyAgain at found
          split at found
          · next here =>
              obtain ⟨rfl, rfl⟩ := here
              cases found
              exact ⟨[], handlers, again, rest, rfl, rfl⟩
          · obtain ⟨tail, there, rfl⟩ := Option.map_eq_some_iff.mp found
            obtain ⟨front, hs, before, back, rfl, rfl⟩ := ih there
            exact ⟨_ :: front, hs, before, back, rfl, rfl⟩
      | propertyChanged value handlers =>
          obtain ⟨tail, there, rfl⟩ := Option.map_eq_some_iff.mp found
          obtain ⟨front, hs, before, back, rfl, rfl⟩ := ih there
          exact ⟨_ :: front, hs, before, back, rfl, rfl⟩
      | unblock handler =>
          obtain ⟨tail, there, rfl⟩ := Option.map_eq_some_iff.mp found
          obtain ⟨front, hs, before, back, rfl, rfl⟩ := ih there
          exact ⟨_ :: front, hs, before, back, rfl, rfl⟩

end

section

variable {m system} {meaning : A} {except : Nat → Prop} {world after : BoundWorld}

structure Spread (m : Meaning host A) (meaning : A) (world after : BoundWorld) : Prop where
  bindings : after.bindings = world.bindings
  esconfTypes : after.esconfTypes = world.esconfTypes
  realProp : ∀ channel property, after.realProp channel property = world.realProp channel property
  cached : ∀ channel name value, after.cached channel name = some value →
    value = m.channelValue channel name meaning ∨ world.cached channel name = some value
  values : ∀ object name, after.values object name = m.objectValue object name meaning ∨
    after.values object name = world.values object name

namespace Spread

variable (spread : Spread m meaning world after)
include spread

theorem settled {record : EsconfGBinding} {channel object : Nat}
    (settled : world.Settled m meaning record channel object) :
    after.Settled m meaning record channel object := by
  obtain ⟨has, only⟩ := settled
  constructor
  · rcases spread.values object record.objectProperty with new | old
    · exact new
    · rw [old, has]
  · intro value there
    rw [spread.realProp] at there ⊢
    rcases spread.cached _ _ _ there with new | old
    · exact new
    · exact only value old

theorem fits {task : Task} (fits : world.Fits m system meaning task) :
    after.Fits m system meaning task := by
  cases task with
  | unblock => trivial
  | notify object name handlers again =>
      obtain ⟨has, heard⟩ := fits
      refine ⟨?_, by rwa [spread.bindings]⟩
      rcases spread.values object name with new | old
      · exact new
      · rw [old, has]
  | propertyChanged value handlers =>
      obtain ⟨channel, property, heard, told⟩ := fits
      refine ⟨channel, property, by rwa [spread.bindings], ?_⟩
      intro binding record object binds same
      rw [spread.bindings] at binds
      obtain ⟨only, carried⟩ := told binding record object binds same
      refine ⟨?_, by rwa [spread.esconfTypes]⟩
      intro present there
      rw [spread.realProp] at there ⊢
      rcases spread.cached _ _ _ there with new | old
      · exact new
      · exact only present old

theorem understood {esconfType : PropertyType} {channel object : Nat}
    {esconfProperty objectProperty : CString}
    (understood : world.Understood m system esconfType channel esconfProperty object
      objectProperty) :
    after.Understood m system esconfType channel esconfProperty object objectProperty := by
  obtain ⟨toChannel, toObject, named⟩ := understood
  exact ⟨by simpa only [spread.realProp] using toChannel,
    by simpa only [spread.realProp] using toObject, named⟩

end Spread

/-- A change whose news is still to come keeps the flow. -/
theorem Flows.spread (flows : world.Flows m system meaning except)
    (spread : Spread m meaning world after) (typed : after.Typed m)
    (counted : ∀ handler, after.blocks handler = after.running.countP (unblocks handler))
    (fits : ∀ task ∈ after.running, after.Fits m system meaning task)
    (blocked : ∀ binding record channel object,
      Binds world.bindings binding record channel object → ¬except binding →
      0 < after.blocks record.objectHandler ∨ 0 < after.blocks record.channelHandler →
      0 < world.blocks record.objectHandler ∨ 0 < world.blocks record.channelHandler)
    (news : ∀ binding record channel object,
      Binds world.bindings binding record channel object → ¬except binding →
      (after.cached channel (world.realProp channel record.esconfProperty) =
          world.cached channel (world.realProp channel record.esconfProperty) ∧
        after.values object record.objectProperty = world.values object record.objectProperty) ∨
      after.cached channel (world.realProp channel record.esconfProperty) = none ∨
      after.Awaited m meaning record channel object)
    (kept : ∀ binding record channel object,
      Binds world.bindings binding record channel object → ¬except binding →
      world.Awaited m meaning record channel object →
        after.Awaited m meaning record channel object) :
    after.Flows m system meaning except := by
  refine ⟨spread.bindings ▸ flows.sound, typed, ?_, counted, fits, ?_, ?_⟩
  · intro binding record channel object binds
    rw [spread.bindings] at binds
    rw [spread.esconfTypes]
    exact spread.understood (flows.understood binding record channel object binds)
  · intro binding record channel object binds other held
    rw [spread.bindings] at binds
    exact spread.settled (flows.settled binding record channel object binds other
      (blocked binding record channel object binds other held))
  · intro binding record channel object binds other
    rw [spread.bindings] at binds
    rcases flows.covered binding record channel object binds other with agrees | awaited
    · rcases news binding record channel object binds other with ⟨sameChannel, sameObject⟩ |
        gone | awaited
      · left
        intro value there
        rw [spread.realProp] at there ⊢
        rw [sameObject]
        exact agrees value (sameChannel ▸ there)
      · left
        intro value there
        rw [spread.realProp, gone] at there
        cases there
      · exact Or.inr awaited
    · exact Or.inr (kept binding record channel object binds other awaited)

end

/-- The emissions of `notify` for a property are one more, or one of them starts again. -/
structure Rings (bindings : BindingWorld) (object : Nat) (name : CString)
    (before after : List Task) : Prop where
  rung : ∃ handlers again, Task.notify object name handlers again ∈ after ∧
    (again = true ∨ handlers = handlersOf bindings object .objectNotify name)
  known : ∀ task ∈ after, task ∈ before ∨
    (∃ handlers again, task = .notify object name handlers true ∧
      Task.notify object name handlers again ∈ before) ∨
    task = .notify object name (handlersOf bindings object .objectNotify name) false
  kept : ∀ task ∈ before, task ∈ after ∨
    ∃ handlers again, task = .notify object name handlers again ∧
      Task.notify object name handlers true ∈ after
  unblocks : ∀ handler, after.countP (unblocks handler) = before.countP (unblocks handler)

theorem emitNotify_rings (world : BoundWorld) (object : Nat) (name : CString) :
    ∃ running, world.emitNotify object name = { world with running } ∧
      Rings world.bindings object name world.running running := by
  unfold emitNotify
  cases found : notifyAgain object name world.running with
  | none =>
      refine ⟨_, rfl, ⟨_, _, List.mem_cons_self, Or.inr rfl⟩, ?_,
        fun task member => Or.inl (List.mem_cons_of_mem _ member), fun handler => by
          rw [List.countP_cons_of_neg (by exact Bool.false_ne_true)]⟩
      intro task member
      rcases List.mem_cons.mp member with rfl | old
      · exact Or.inr (Or.inr rfl)
      · exact Or.inl old
  | some after =>
      obtain ⟨front, handlers, again, back, before, rfl⟩ := notifyAgain_split found
      refine ⟨_, rfl, ⟨handlers, true, by simp, Or.inl rfl⟩, ?_, ?_, ?_⟩
      · intro task member
        rw [before]
        rcases List.mem_append.mp member with inFront | behind
        · exact Or.inl (List.mem_append_left _ inFront)
        · rcases List.mem_cons.mp behind with rfl | inBack
          · exact Or.inr (Or.inl ⟨handlers, again, rfl, by simp⟩)
          · exact Or.inl (by simp [inBack])
      · intro task member
        rw [before] at member
        rcases List.mem_append.mp member with inFront | behind
        · exact Or.inl (List.mem_append_left _ inFront)
        · rcases List.mem_cons.mp behind with rfl | inBack
          · exact Or.inr ⟨handlers, again, rfl, by simp⟩
          · exact Or.inl (by simp [inBack])
      · intro handler
        simp [before, unblocks]

section

variable {m system} {meaning : A} {except : Nat → Prop} {world after : BoundWorld}

theorem gObjectSetProperty_cases (system : ObjectSystem) (world : BoundWorld) (object : Nat)
    (name : CString) (value : ObjectValue) :
    ∃ running, world.gObjectSetProperty system object name value =
        { world.setValue object name value with running } ∧
      (running = world.running ∧ world.values object name = value ∨
        Rings world.bindings object name world.running running) := by
  unfold gObjectSetProperty
  simp only
  split
  · next quiet =>
      rw [Bool.and_eq_true, beq_iff_eq] at quiet
      exact ⟨world.running, rfl, Or.inl ⟨rfl, quiet.2⟩⟩
  · obtain ⟨running, done, rings⟩ :=
      emitNotify_rings (world.setValue object name value) object name
    exact ⟨running, done, Or.inr rings⟩

theorem setValue_values (world : BoundWorld) (object other : Nat) (name property : CString)
    (value : ObjectValue) :
    (world.setValue object name value).values other property =
      if other = object ∧ property = name then value else world.values other property := by
  unfold setValue
  by_cases here : other = object
  · subst here
    by_cases this : property = name <;> simp [this]
  · simp [here]

theorem Flows.setObject (flows : world.Flows m system meaning except) (object : Nat)
    (name : CString) :
    (world.gObjectSetProperty system object name (m.objectValue object name meaning)).Flows m system
      meaning except := by
  obtain ⟨running, done, rang⟩ :=
    gObjectSetProperty_cases system world object name (m.objectValue object name meaning)
  rw [done]
  have spread : Spread m meaning world
      { world.setValue object name (m.objectValue object name meaning) with running } := by
    refine ⟨rfl, rfl, fun _ _ => rfl, fun _ _ _ there => Or.inr there, ?_⟩
    intro other property
    simp only [setValue_values]
    split
    · next here =>
        obtain ⟨rfl, rfl⟩ := here
        exact Or.inl rfl
    · exact Or.inr rfl
  have typed : Typed m
      { world.setValue object name (m.objectValue object name meaning) with running } := by
    refine ⟨flows.typed.cached, flows.typed.saved, ?_, flows.typed.coherent⟩
    intro other property
    rcases spread.values other property with new | old
    · exact ⟨meaning, new⟩
    · rw [old]
      exact flows.typed.values other property
  -- The emissions that are the same, and the one that starts again.
  have kept : ∀ binding record channel other,
      Binds world.bindings binding record channel other → ¬except binding →
      world.Awaited m meaning record channel other → Awaited m meaning
        { world.setValue object name (m.objectValue object name meaning) with running } record
          channel other := by
    intro binding record channel other _ _ awaited
    rcases rang with ⟨same, _⟩ | rings
    · rw [same]
      exact awaited
    · rcases awaited with ⟨handlers, again, member, more⟩ | ⟨handlers, member, more⟩
      · rcases rings.kept _ member with there | ⟨handlers', again', same, there⟩
        · exact Or.inl ⟨handlers, again, there, more⟩
        · cases same
          exact Or.inl ⟨handlers, true, there, Or.inl rfl⟩
      · rcases rings.kept _ member with there | ⟨_, _, same, _⟩
        · exact Or.inr ⟨handlers, there, more⟩
        · cases same
  refine flows.spread spread typed ?_ ?_ (fun _ _ _ _ _ _ held => held) ?_ kept
  · intro handler
    rcases rang with ⟨same, _⟩ | rings
    · rw [same]
      exact flows.counted handler
    · exact (flows.counted handler).trans (rings.unblocks handler).symm
  · intro task member
    rcases rang with ⟨same, _⟩ | rings
    · rw [same] at member
      exact spread.fits (flows.fits task member)
    · rcases rings.known task member with old | ⟨handlers, again, rfl, old⟩ | rfl
      · exact spread.fits (flows.fits task old)
      · have before : world.Fits m system meaning (.notify object name handlers true) :=
          flows.fits (.notify object name handlers again) old
        exact spread.fits before
      · refine ⟨?_, fun number heard => (List.mem_filter.mp heard).2⟩
        exact (setValue_values world object object name name _).trans (if_pos ⟨rfl, rfl⟩)
  · intro binding record channel other binds _
    by_cases here : other = object ∧ record.objectProperty = name
    · obtain ⟨rfl, rfl⟩ := here
      rcases rang with ⟨same, still⟩ | rings
      · refine Or.inl ⟨rfl, ?_⟩
        exact (setValue_values world other other _ _ _).trans ((if_pos ⟨rfl, rfl⟩).trans still.symm)
      · obtain ⟨handlers, again, member, more⟩ := rings.rung
        refine Or.inr (Or.inr (Or.inl ⟨handlers, again, member, ?_⟩))
        rcases more with restarted | all
        · exact Or.inl restarted
        · exact Or.inr (all ▸ binds.object_listens flows.sound)
    · exact Or.inl ⟨rfl, (setValue_values world object other name _ _).trans (if_neg here)⟩

def Tells (m : Meaning host A) (system : ObjectSystem) (meaning : A) (world : BoundWorld)
    (channel : Nat) (name : CString) (value : GValue) : Prop :=
  ∀ binding record object, Binds world.bindings binding record channel object →
    world.realProp channel record.esconfProperty = name →
    ∃ carried, system.toObject (world.esconfTypes binding)
        (system.valueType object record.objectProperty)
        (system.default object record.objectProperty) value = some carried ∧
      (carried = none ∨ carried = some (m.objectValue object record.objectProperty meaning))

structure Moves (m : Meaning host A) (system : ObjectSystem) (meaning : A) (world : BoundWorld)
    (channel : Nat) (client : CacheClient) (announced : Announced) : Prop where
  coherent : CacheClient.Coherent client.cache client.calls
  saved : ∀ number oldItem value, client.cache.oldItems number = some oldItem →
    oldItem.item = some value → ∃ meaning, value = m.channelValue channel oldItem.property meaning
  cells : ∀ name, client.cache.properties name = world.cached channel name ∨
    client.cache.properties name = none ∨
    client.cache.properties name = some (m.channelValue channel name meaning) ∧
      announced = some (name, m.channelValue channel name meaning)
  told : ∀ name value, announced = some (name, value) →
    (client.cache.properties name = none ∨
      client.cache.properties name = some (m.channelValue channel name meaning)) ∧
    Tells m system meaning world channel name value

theorem setClient_channels (world : BoundWorld) (channel other : Nat) (client : CacheClient) :
    (world.setClient channel client).channels other =
      if other = channel then { world.channels channel with client } else world.channels other := by
  simp [setClient, Function.update_apply]

theorem emitPropertyChanged_cases (world : BoundWorld) (channel : Nat) (announced : Announced) :
    (world.emitPropertyChanged channel announced = world ∧
      ∀ property name value, announced = some (name, value) → property ≠ [] →
        world.realProp channel property ≠ name) ∨
    ∃ name value property, announced = some (name, value) ∧
      world.emitPropertyChanged channel announced =
        { world with
          running := .propertyChanged value
            (handlersOf world.bindings channel .channelNotify property) :: world.running } ∧
      (property ≠ "/".toList → world.realProp channel property = name) ∧
      ∀ other, other ≠ [] → world.realProp channel other = name → other = property := by
  unfold emitPropertyChanged
  cases emitted : (world.channels channel).channel.announce announced with
  | none =>
      refine Or.inl ⟨rfl, ?_⟩
      rintro property name value rfl full same
      rw [← same, realProp, announce_realProp _ full] at emitted
      cases emitted
  | some signal =>
      obtain ⟨property, value⟩ := signal
      cases announced with
      | none => cases emitted
      | some announced =>
          obtain ⟨name, told⟩ := announced
          obtain ⟨rfl, real⟩ := announce_property _ emitted
          refine Or.inr ⟨name, value, property, rfl, rfl, real, ?_⟩
          rintro other full rfl
          rw [realProp, announce_realProp _ full, Option.some.injEq] at emitted
          exact congrArg Prod.fst emitted

theorem Binds.esconfProperty_ne_nil {bindings : BindingWorld} {binding channel object : Nat}
    {record : EsconfGBinding} (binds : Binds bindings binding record channel object)
    (sound : bindings.Sound) : record.esconfProperty ≠ [] := by
  have names := (sound.linked binding record binds.held).names
  rintro empty
  simp [BindingWorld.arePropertyNames, empty] at names

theorem setClient_realProp (world : BoundWorld) (channel other : Nat) (client : CacheClient)
    (property : CString) :
    (world.setClient channel client).realProp other property = world.realProp other property := by
  simp only [realProp, setClient_channels]
  split
  · next here => subst here; rfl
  · rfl

theorem setClient_cached (world : BoundWorld) (channel other : Nat) (client : CacheClient)
    (name : CString) : (world.setClient channel client).cached other name =
      if other = channel then client.cache.properties name else world.cached other name := by
  simp only [cached, setClient_channels]
  split <;> rfl

namespace Moves

variable {channel : Nat} {client : CacheClient} {announced : Announced}
  (moves : Moves m system meaning world channel client announced)
include moves

theorem spread (running : List Task) :
    Spread m meaning world { world.setClient channel client with running } := by
  refine ⟨rfl, rfl, fun other => setClient_realProp world channel other client, ?_,
    fun _ _ => Or.inr rfl⟩
  intro other name value there
  replace there := (setClient_cached world channel other client name).symm.trans there
  split at there
  · next here =>
      subst here
      rcases moves.cells name with old | gone | ⟨new, _⟩
      · exact Or.inr (old ▸ there)
      · rw [gone] at there
        cases there
      · rw [new, Option.some.injEq] at there
        exact Or.inl there.symm
  · exact Or.inr there

theorem typed (typed : world.Typed m) (running : List Task) :
    Typed m { world.setClient channel client with running } := by
  refine ⟨?_, ?_, typed.values, ?_⟩
  · intro other name value there
    rcases (moves.spread running).cached other name value there with new | old
    · exact ⟨meaning, new⟩
    · exact typed.cached other name value old
  · intro other number oldItem value
    simp only [setClient_channels]
    split
    · next here =>
        subst here
        exact moves.saved number oldItem value
    · exact typed.saved other number oldItem value
  · intro other
    simp only [setClient_channels]
    split
    · exact moves.coherent
    · exact typed.coherent other

theorem news {running : List Task} {other object : Nat} {record : EsconfGBinding}
    (told : other = channel → announced = some (world.realProp channel record.esconfProperty,
        m.channelValue channel (world.realProp channel record.esconfProperty) meaning) →
      Awaited m meaning { world.setClient channel client with running } record channel object) :
    ((world.setClient channel client).cached other (world.realProp other record.esconfProperty) =
        world.cached other (world.realProp other record.esconfProperty) ∧
      world.values object record.objectProperty = world.values object record.objectProperty) ∨
    (world.setClient channel client).cached other (world.realProp other record.esconfProperty) =
      none ∨
    Awaited m meaning { world.setClient channel client with running } record other object := by
  rw [setClient_cached]
  by_cases here : other = channel
  · subst here
    rw [if_pos rfl]
    rcases moves.cells (world.realProp other record.esconfProperty) with old | gone | ⟨_, new⟩
    · exact Or.inl ⟨old, rfl⟩
    · exact Or.inr (Or.inl gone)
    · exact Or.inr (Or.inr (told rfl new))
  · rw [if_neg here]
    exact Or.inl ⟨rfl, rfl⟩

theorem emission_fits {name property : CString} {value : GValue}
    (announces : announced = some (name, value)) (real : property ≠ "/".toList →
      (world.setClient channel client).realProp channel property = name)
    (named : ∀ binding record object, Binds world.bindings binding record channel object →
      record.esconfProperty ≠ "/".toList) (running : List Task) :
    Fits m system meaning { world.setClient channel client with running }
      (.propertyChanged value (handlersOf world.bindings channel .channelNotify property)) := by
  obtain ⟨after, tells⟩ := moves.told name value announces
  refine ⟨channel, property, fun number heard => (List.mem_filter.mp heard).2, ?_⟩
  rintro binding record object binds rfl
  have same := real (named binding record object binds)
  refine ⟨?_, tells binding record object binds
    ((setClient_realProp _ _ _ _ _).symm.trans same)⟩
  intro present there
  change (world.setClient channel client).cached channel
    ((world.setClient channel client).realProp channel record.esconfProperty) = _ at there
  change present = m.channelValue channel
    ((world.setClient channel client).realProp channel record.esconfProperty) meaning
  rw [same, setClient_cached, if_pos rfl] at there
  rw [same]
  rcases after with gone | has
  · rw [gone] at there
    cases there
  · rw [has, Option.some.injEq] at there
    exact there.symm

end Moves

theorem Flows.moves (flows : world.Flows m system meaning except) {channel : Nat}
    {client : CacheClient} {announced : Announced}
    (moves : Moves m system meaning world channel client announced) :
    ((world.setClient channel client).emitPropertyChanged channel announced).Flows m system meaning
      except := by
  have realProp := fun other => setClient_realProp world channel other client
  rcases emitPropertyChanged_cases (world.setClient channel client) channel announced with
    ⟨same, quiet⟩ | ⟨name, value, property, announces, same, real, only⟩
  · rw [same]
    refine flows.spread (moves.spread world.running) (moves.typed flows.typed _) flows.counted
      (fun task member => (moves.spread _).fits (flows.fits task member))
      (fun _ _ _ _ _ _ held => held) ?_ (fun _ _ _ _ _ _ awaited => ?_)
    · intro binding record other object binds _
      refine moves.news fun here told => ?_
      subst here
      exact absurd (realProp other record.esconfProperty)
        (quiet _ _ _ told (binds.esconfProperty_ne_nil flows.sound))
    · rcases awaited with awaited | ⟨handlers, member, more⟩
      · exact Or.inl awaited
      · exact Or.inr ⟨handlers, by rw [realProp]; exact member, more⟩
  · rw [same]
    refine flows.spread (moves.spread _) (moves.typed flows.typed _) ?_ ?_
      (fun _ _ _ _ _ _ held => held) ?_ ?_
    · intro handler
      rw [List.countP_cons_of_neg (by exact Bool.false_ne_true)]
      exact flows.counted handler
    · intro task member
      rcases List.mem_cons.mp member with rfl | old
      · exact moves.emission_fits announces real
          (fun binding record object binds =>
            (flows.understood binding record channel object binds).named) _
      · exact (moves.spread _).fits (flows.fits task old)
    · intro binding record other object binds _
      refine moves.news fun here told => ?_
      subst here
      rw [announces] at told
      cases told
      have this := only record.esconfProperty (binds.esconfProperty_ne_nil flows.sound)
        (realProp other record.esconfProperty)
      refine Or.inr ⟨handlersOf world.bindings other .channelNotify property, ?_, ?_⟩
      · exact List.mem_cons.mpr (Or.inl (congrArg
          (fun name => Task.propertyChanged (m.channelValue other name meaning)
            (handlersOf world.bindings other .channelNotify property))
          (realProp other record.esconfProperty)))
      · exact this ▸ binds.channel_listens flows.sound
    · intro binding record other object binds _ awaited
      rcases awaited with ⟨handlers, again, member, more⟩ | ⟨handlers, member, more⟩
      · exact Or.inl ⟨handlers, again, List.mem_cons_of_mem _ member, more⟩
      · refine Or.inr ⟨handlers, List.mem_cons_of_mem _ ?_, more⟩
        exact (realProp other record.esconfProperty).symm ▸ member

def Absent (daemon : Daemon) (world : BoundWorld) (channel : Nat) (name : CString) : Prop :=
  ∃ error, daemon.getProperty (world.channels channel).client.cache.channelName name =
    .error error ∧ saysNotFound (some error) = true

/-- A property that is not cached is not in the daemon either. -/
def Unfetched (daemon : Daemon) (world : BoundWorld) (channel : Nat) (name : CString) : Prop :=
  world.cached channel name = none → world.Absent daemon channel name

theorem Flows.tells (flows : world.Flows m system meaning except) (channel : Nat)
    (name : CString) (meaning : A) :
    Tells m system meaning world channel name (m.channelValue channel name meaning) := by
  rintro binding record object binds rfl
  have understood := flows.understood binding record channel object binds
  exact ⟨_, understood.toObject meaning, Or.inr rfl⟩

theorem Flows.set_differs (flows : world.Flows m system meaning except) {channel : Nat}
    {name : CString}
    (differs : (world.cached channel name).any
      (GValue.isEqual · (m.channelValue channel name meaning)) = false) :
    ∃ outcome, setLookedUp host (world.channels channel).client.cache name
        (m.channelValue channel name meaning) (world.cached channel name) = some outcome ∧
      Moves m system meaning world channel ⟨outcome.cache,
        (world.channels channel).client.calls ++ outcome.call.toList⟩ outcome.announced ∧
      outcome.cache.properties = Function.update (world.channels channel).client.cache.properties
        name (some (m.channelValue channel name meaning)) ∧
      outcome.cache.channelName = (world.channels channel).client.cache.channelName := by
  obtain ⟨variant, converted⟩ := m.sent channel name meaning
  have coherent := flows.typed.coherent channel
  have keeps : ∀ outcome : SetReturn,
      setLookedUp host (world.channels channel).client.cache name
        (m.channelValue channel name meaning) (world.cached channel name) = some outcome →
      outcome.cache.properties = Function.update (world.channels channel).client.cache.properties
        name (some (m.channelValue channel name meaning)) →
      outcome.announced = some (name, m.channelValue channel name meaning) →
      (∀ number oldItem value, outcome.cache.oldItems number = some oldItem →
        oldItem.item = some value →
          ∃ meaning, value = m.channelValue channel oldItem.property meaning) →
      Moves m system meaning world channel ⟨outcome.cache,
        (world.channels channel).client.calls ++ outcome.call.toList⟩ outcome.announced := by
    intro outcome returned properties announced saved
    refine ⟨coherent.setLookedUp (Or.inl (by rw [converted]; rfl)) returned, saved, ?_, ?_⟩
    · intro other
      simp only [properties, announced]
      by_cases here : other = name
      · subst here
        exact Or.inr (Or.inr ⟨Function.update_self .., rfl⟩)
      · exact Or.inl (Function.update_of_ne here ..)
    · intro other value told
      rw [announced] at told
      cases told
      exact ⟨Or.inr (by simp only [properties, Function.update_self]),
        flows.tells channel name meaning⟩
  cases there : (world.channels channel).client.cache.oldProperties name with
  | some number =>
      obtain ⟨oldItem, held, named, running, _⟩ := coherent.known name number there
      have returned := setLookedUp_again differs there held running converted
      refine ⟨_, returned, keeps _ returned rfl rfl ?_, rfl, rfl⟩
      intro other otherItem value present saved
      change Function.update _ number _ other = _ at present
      by_cases here : other = number
      · subst here
        rw [Function.update_self, Option.some.injEq] at present
        subst present
        exact flows.typed.saved channel other oldItem value held saved
      · rw [Function.update_of_ne here] at present
        exact flows.typed.saved channel other otherItem value present saved
  | none =>
      have returned := setLookedUp_first differs there converted
      refine ⟨_, returned, keeps _ returned rfl rfl ?_, rfl, rfl⟩
      intro other otherItem value present saved
      change Function.update _ (world.channels channel).client.cache.nextOldItem _ other = _
        at present
      by_cases here : other = (world.channels channel).client.cache.nextOldItem
      · subst here
        rw [Function.update_self, Option.some.injEq] at present
        subst present
        exact flows.typed.cached channel name value saved
      · rw [Function.update_of_ne here] at present
        exact flows.typed.saved channel other otherItem value present saved

theorem Flows.set_moves (flows : world.Flows m system meaning except) {daemon : Daemon}
    {channel : Nat} {name : CString} (unfetched : Unfetched daemon world channel name) :
    ∃ outcome, esconfCacheSet host (world.channels channel).client.cache name
        (m.channelValue channel name meaning) (daemon.getProperty
          (world.channels channel).client.cache.channelName name) = some outcome ∧
      Moves m system meaning world channel ⟨outcome.cache,
        (world.channels channel).client.calls ++ outcome.call.toList⟩ outcome.announced ∧
      outcome.cache.properties = Function.update (world.channels channel).client.cache.properties
        name (some (m.channelValue channel name meaning)) ∧
      outcome.cache.channelName = (world.channels channel).client.cache.channelName ∧
      (outcome.announced = none ∨
        world.cached channel name ≠ some (m.channelValue channel name meaning)) := by
  have split : esconfCacheSet host (world.channels channel).client.cache name
      (m.channelValue channel name meaning) (daemon.getProperty
        (world.channels channel).client.cache.channelName name) =
      setLookedUp host (world.channels channel).client.cache name
        (m.channelValue channel name meaning) (world.cached channel name) := by
    unfold esconfCacheSet esconfCacheLookupLocked
    cases found : world.cached channel name with
    | some item =>
        rw [cached] at found
        simp only [found]
        rfl
    | none =>
        obtain ⟨error, answered, notFound⟩ := unfetched found
        rw [cached] at found
        simp only [found, answered, lookupFetched, setAfterLookup, notFound, if_true]
  rw [split]
  cases differs : (world.cached channel name).any
      (GValue.isEqual · (m.channelValue channel name meaning)) with
  | true =>
      obtain ⟨item, found, equal⟩ := (Option.any_eq_true _ _).mp differs
      obtain ⟨other, rfl⟩ := flows.typed.cached channel name item found
      have same := (m.same channel name other meaning).mp equal
      rw [same] at found
      refine ⟨_, setLookedUp_equal differs, ⟨?_, flows.typed.saved channel, fun _ => Or.inl rfl,
        fun _ _ announced => by cases announced⟩, ?_, rfl, Or.inl rfl⟩
      · rw [Option.toList_none, List.append_nil]
        exact flows.typed.coherent channel
      · exact (Function.update_eq_self_iff.mpr found.symm).symm
  | false =>
      obtain ⟨outcome, returned, moves, has, named⟩ := flows.set_differs differs
      refine ⟨outcome, returned, moves, has, named, Or.inr fun found => ?_⟩
      rw [found, Option.any_some] at differs
      exact Bool.false_ne_true (differs.symm.trans ((m.same channel name meaning meaning).mpr rfl))

/-- No property that is bound is fetched. -/
def Quiet (daemon : Daemon) (world : BoundWorld) : Prop :=
  ∀ binding record channel object, Binds world.bindings binding record channel object →
    Unfetched daemon world channel (world.realProp channel record.esconfProperty)

theorem Flows.block {binding channel object handler : Nat} {record : EsconfGBinding}
    (flows : world.Flows m system meaning (· = binding))
    (binds : Binds world.bindings binding record channel object)
    (own : handler = record.channelHandler ∨ handler = record.objectHandler) :
    (world.block handler).Flows m system meaning (· = binding) := by
  refine flows.spread ⟨rfl, rfl, fun _ _ => rfl, fun _ _ _ there => Or.inr there,
    fun _ _ => Or.inr rfl⟩ ⟨flows.typed.cached, flows.typed.saved, flows.typed.values,
      flows.typed.coherent⟩ ?_ ?_ ?_ (fun _ _ _ _ _ _ => Or.inl ⟨rfl, rfl⟩) ?_
  · intro other
    simp only [BoundWorld.block, List.countP_cons, Function.update_apply, flows.counted]
    by_cases here : other = handler
    · subst here
      simp [unblocks]
    · simp [unblocks, here, Ne.symm here]
  · intro task member
    rcases List.mem_cons.mp member with rfl | old
    · trivial
    · cases task <;> exact flows.fits _ old
  · intro other another channel' object' binds' different
    have mine := binds.handler flows.sound
    have theirs := binds'.handler flows.sound
    have apart : ∀ number, number = another.objectHandler ∨ number = another.channelHandler →
        number ≠ handler := by
      rintro number which rfl
      apply different
      rcases which with rfl | rfl <;> rcases own with same | same <;> rw [same] at theirs <;>
        simp_all
    simp only [BoundWorld.block, Function.update_of_ne (apart _ (Or.inl rfl)),
      Function.update_of_ne (apart _ (Or.inr rfl))]
    exact id
  · intro other another channel' object' _ _ awaited
    rcases awaited with ⟨handlers, again, member, more⟩ | ⟨handlers, member, more⟩
    · exact Or.inl ⟨handlers, again, List.mem_cons_of_mem _ member, more⟩
    · exact Or.inr ⟨handlers, List.mem_cons_of_mem _ member, more⟩

theorem Flows.close {binding channel object : Nat} {record : EsconfGBinding}
    (flows : world.Flows m system meaning (· = binding))
    (binds : Binds world.bindings binding record channel object)
    (settled : world.Settled m meaning record channel object) :
    world.Flows m system meaning fun _ => False := by
  have same : ∀ other channel' object', Binds world.bindings binding other channel' object' →
      world.Settled m meaning other channel' object' := by
    intro other channel' object' binds'
    obtain rfl := Option.some.inj (binds.held.symm.trans binds'.held)
    obtain rfl := Option.some.inj (binds.channel.symm.trans binds'.channel)
    obtain rfl := Option.some.inj (binds.object.symm.trans binds'.object)
    exact settled
  refine { flows with settled := ?_, covered := ?_ }
  · intro other another channel' object' binds' _ held
    by_cases here : other = binding
    · subst here
      exact same another channel' object' binds'
    · exact flows.settled other another channel' object' binds' here held
  · intro other another channel' object' binds' _
    by_cases here : other = binding
    · subst here
      obtain ⟨has, only⟩ := same another channel' object' binds'
      exact Or.inl fun value there => ⟨meaning, only value there, has⟩
    · exact flows.covered other another channel' object' binds' here

end

end BoundWorld

end Esconf.Client
