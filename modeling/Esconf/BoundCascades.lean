import Mathlib.Algebra.GroupWithZero.Nat
import Esconf.BoundProperties

/-! What one set of a property that is bound causes comes to an end. -/

namespace Esconf.Client.BoundWorld

variable {host : Host} {A : Type} {m : Meaning host A} {system : ObjectSystem} {daemon : Daemon}
  {meaning : A} {except : Nat → Prop} {world after : BoundWorld}

def Behind (m : Meaning host A) (meaning : A) (world : BoundWorld) (binding : Nat) : Prop :=
  ∃ record channel object, Binds world.bindings binding record channel object ∧
    world.cached channel (world.realProp channel record.esconfProperty) ≠
      some (m.channelValue channel (world.realProp channel record.esconfProperty) meaning)

open scoped Classical in
noncomputable def rank (m : Meaning host A) (meaning : A) (world : BoundWorld) : Nat :=
  ((Finset.range world.bindings.nextBinding).filter (world.Behind m meaning)).card

def taskWeight (handlers : Nat) : Task → Nat
  | .notify _ _ numbers again => 2 * numbers.length + 1 + if again then 2 * handlers + 1 else 0
  | .propertyChanged _ numbers => numbers.length * (2 * handlers + 4) + 1
  | .unblock _ => 1

def weight (world : BoundWorld) : Nat :=
  (world.running.map (taskWeight world.bindings.nextHandler)).sum

/-- The bindings are the same, and the caches have dropped nothing. -/
structure Holds (world after : BoundWorld) : Prop where
  bindings : after.bindings = world.bindings
  realProp : ∀ channel property, after.realProp channel property = world.realProp channel property
  channelName : ∀ channel, (after.channels channel).client.cache.channelName =
    (world.channels channel).client.cache.channelName
  cached : ∀ channel name, after.cached channel name = none → world.cached channel name = none

theorem Holds.trans {last : BoundWorld} (first : Holds world after) (next : Holds after last) :
    Holds world last :=
  ⟨next.bindings.trans first.bindings,
    fun channel property => (next.realProp channel property).trans (first.realProp channel property),
    fun channel => (next.channelName channel).trans (first.channelName channel),
    fun channel name gone => first.cached channel name (next.cached channel name gone)⟩

theorem Holds.of_channels (bindings : after.bindings = world.bindings)
    (channels : after.channels = world.channels) : Holds world after := by
  refine ⟨bindings, fun channel property => ?_, fun channel => by rw [channels],
    fun channel name gone => ?_⟩
  · rw [BoundWorld.realProp, channels]
    rfl
  · rwa [BoundWorld.cached, channels] at gone

theorem Quiet.of (quiet : world.Quiet daemon) (bindings : after.bindings = world.bindings)
    (realProp : ∀ channel property,
      after.realProp channel property = world.realProp channel property)
    (channelName : ∀ channel, (after.channels channel).client.cache.channelName =
      (world.channels channel).client.cache.channelName)
    (cached : ∀ channel name, after.cached channel name = none →
      world.cached channel name = none ∨ world.Absent daemon channel name) :
    after.Quiet daemon := by
  intro binding record channel object binds gone
  rw [bindings] at binds
  rw [realProp] at gone ⊢
  rw [Absent, channelName]
  rcases cached _ _ gone with before | absent
  · exact quiet binding record channel object binds before
  · exact absent

theorem Holds.quiet (holds : Holds world after) (quiet : world.Quiet daemon) :
    after.Quiet daemon :=
  quiet.of holds.bindings holds.realProp holds.channelName
    fun channel name gone => Or.inl (holds.cached channel name gone)

theorem rank_le_of (bindings : after.bindings = world.bindings)
    (fewer : ∀ binding, after.Behind m meaning binding → world.Behind m meaning binding) :
    after.rank m meaning ≤ world.rank m meaning := by
  classical
  unfold rank
  rw [bindings]
  exact Finset.card_le_card (Finset.monotone_filter_right _ fun binding _ => fewer binding)

theorem rank_lt_of (bindings : after.bindings = world.bindings)
    (fewer : ∀ binding, after.Behind m meaning binding → world.Behind m meaning binding)
    {binding : Nat} (known : binding < world.bindings.nextBinding)
    (before : world.Behind m meaning binding) (caught : ¬after.Behind m meaning binding) :
    after.rank m meaning < world.rank m meaning := by
  classical
  unfold rank
  rw [bindings]
  refine Finset.card_lt_card ((Finset.ssubset_iff_of_subset
    (Finset.monotone_filter_right _ fun binding _ => fewer binding)).mpr ⟨binding, ?_, ?_⟩)
  · exact Finset.mem_filter.mpr ⟨Finset.mem_range.mpr known, before⟩
  · exact fun member => caught (Finset.mem_filter.mp member).2

theorem rank_of_channels (bindings : after.bindings = world.bindings)
    (channels : after.channels = world.channels) :
    after.rank m meaning ≤ world.rank m meaning := by
  refine rank_le_of bindings ?_
  rintro binding ⟨record, channel, object, binds, behind⟩
  rw [bindings] at binds
  rw [BoundWorld.cached, BoundWorld.realProp, channels] at behind
  exact ⟨record, channel, object, binds, behind⟩

theorem handlersOf_length (bindings : BindingWorld) (emitter : Nat) (callback : BindingCallback)
    (name : CString) : (handlersOf bindings emitter callback name).length ≤ bindings.nextHandler := by
  refine (List.length_filter_le ..).trans ?_
  rw [List.length_range]

/-- An emission of `notify` weighs less than a handler of the channel. -/
theorem weight_emitNotify (world : BoundWorld) (object : Nat) (name : CString) :
    weight (world.emitNotify object name) ≤ weight world + 2 * world.bindings.nextHandler + 1 := by
  unfold emitNotify
  cases found : notifyAgain object name world.running with
  | none =>
      have few := handlersOf_length world.bindings object .objectNotify name
      simp only [weight, List.map_cons, List.sum_cons, taskWeight, Bool.false_eq_true, if_false]
      omega
  | some running =>
      obtain ⟨front, handlers, again, back, before, rfl⟩ := notifyAgain_split found
      simp only [weight, before, List.map_append, List.map_cons, List.sum_append, List.sum_cons,
        taskWeight, if_true]
      omega

theorem emitPropertyChanged_running (world : BoundWorld) (channel : Nat) (announced : Announced) :
    ∃ running, world.emitPropertyChanged channel announced = { world with running } ∧
      (announced = none → running = world.running) := by
  rcases emitPropertyChanged_cases world channel announced with
    ⟨same, _⟩ | ⟨name, value, property, announces, same, _⟩
  · exact ⟨world.running, same, fun _ => rfl⟩
  · exact ⟨_, same, fun none => nomatch announces.symm.trans none⟩

section

variable {channel : Nat} {client : CacheClient} {name : CString} {running : List Task}
  (properties : client.cache.properties = Function.update
    (world.channels channel).client.cache.properties name
      (some (m.channelValue channel name meaning)))
include properties

theorem set_cached (other : Nat) (property : CString) :
    (world.setClient channel client).cached other property =
      if other = channel ∧ property = name then some (m.channelValue channel name meaning)
      else world.cached other property := by
  rw [setClient_cached, properties]
  by_cases here : other = channel
  · subst here
    rw [if_pos rfl, Function.update_apply]
    by_cases this : property = name <;> simp [this, BoundWorld.cached]
  · rw [if_neg here, if_neg fun both => here both.1]

theorem set_holds (channelName : client.cache.channelName =
    (world.channels channel).client.cache.channelName) :
    Holds world { world.setClient channel client with running } := by
  refine ⟨rfl, fun other => setClient_realProp world channel other client, fun other => ?_, ?_⟩
  · simp only [setClient_channels]
    split
    · next here =>
        subst here
        exact channelName
    · rfl
  · intro other property gone
    replace gone := (set_cached properties other property).symm.trans gone
    split at gone
    · cases gone
    · exact gone

theorem set_behind {binding : Nat}
    (behind : Behind m meaning { world.setClient channel client with running } binding) :
    world.Behind m meaning binding := by
  obtain ⟨record, other, object, binds, behind⟩ := behind
  refine ⟨record, other, object, binds, fun caught => behind ?_⟩
  have real := setClient_realProp world channel other client record.esconfProperty
  change (world.setClient channel client).cached other
    ((world.setClient channel client).realProp other record.esconfProperty) =
      some (m.channelValue other
        ((world.setClient channel client).realProp other record.esconfProperty) meaning)
  rw [real, set_cached properties]
  split
  · next here => rw [here.2, here.1]
  · exact caught

end

theorem Flows.setProperty (flows : world.Flows m system meaning except) {channel : Nat}
    {property : CString}
    (unfetched : Unfetched daemon world channel (world.realProp channel property)) :
    ∃ client running, world.esconfChannelSetProperty host daemon channel property
        (m.channelValue channel (world.realProp channel property) meaning) =
          some { world.setClient channel client with running } ∧
      Flows m system meaning except { world.setClient channel client with running } ∧
      client.cache.properties = Function.update (world.channels channel).client.cache.properties
        (world.realProp channel property)
        (some (m.channelValue channel (world.realProp channel property) meaning)) ∧
      client.cache.channelName = (world.channels channel).client.cache.channelName ∧
      (running = world.running ∨
        world.cached channel (world.realProp channel property) ≠
          some (m.channelValue channel (world.realProp channel property) meaning)) := by
  obtain ⟨outcome, set, moves, properties, channelName, news⟩ := flows.set_moves unfetched
  have moved := flows.moves moves
  obtain ⟨running, same, still⟩ := emitPropertyChanged_running
    (world.setClient channel ⟨outcome.cache,
      (world.channels channel).client.calls ++ outcome.call.toList⟩) channel outcome.announced
  rw [same] at moved
  refine ⟨⟨outcome.cache, (world.channels channel).client.calls ++ outcome.call.toList⟩,
    running, ?_, moved, properties, channelName, news.imp_left still⟩
  exact (congrArg (Option.map _) set).trans (congrArg some same)

theorem Binds.unique {bindings : BindingWorld} {binding channel object channel' object' : Nat}
    {record record' : EsconfGBinding} (binds : Binds bindings binding record channel object)
    (binds' : Binds bindings binding record' channel' object') :
    record' = record ∧ channel' = channel ∧ object' = object := by
  obtain rfl := Option.some.inj (binds.held.symm.trans binds'.held)
  exact ⟨rfl, Option.some.inj (binds'.channel.symm.trans binds.channel),
    Option.some.inj (binds'.object.symm.trans binds.object)⟩

theorem Flows.objectNotify {binding channel object : Nat} {record : EsconfGBinding}
    (flows : world.Flows m system meaning (· = binding)) (quiet : world.Quiet daemon)
    (binds : Binds world.bindings binding record channel object)
    (has : world.values object record.objectProperty =
      m.objectValue object record.objectProperty meaning) :
    ∃ after, world.esconfGPropertyObjectNotify system host daemon binding = some after ∧
      after.Flows m system meaning (fun _ => False) ∧ Holds world after ∧
      (after.rank m meaning < world.rank m meaning ∨ after.rank m meaning ≤ world.rank m meaning ∧
        weight after ≤ weight world + 1) := by
  have understood := flows.understood binding record channel object binds
  have unfetched : Unfetched daemon (world.block record.channelHandler) channel
      (world.realProp channel record.esconfProperty) := quiet binding record channel object binds
  obtain ⟨client, running, set, moved, properties, channelName, news⟩ :=
    (flows.block binds (Or.inl rfl)).setProperty unfetched
  have real := setClient_realProp world channel channel client record.esconfProperty
  have reads := set_cached properties channel (world.realProp channel record.esconfProperty)
  have blocked : Holds world (world.block record.channelHandler) := .of_channels rfl rfl
  refine ⟨_, ?_, moved.close binds ⟨has, fun value there => ?_⟩,
    blocked.trans (set_holds properties channelName), ?_⟩
  · unfold esconfGPropertyObjectNotify
    simp only [binds.held, binds.object, binds.channel, has, understood.toChannel meaning,
      Option.bind_eq_bind, Option.bind_some]
    exact set
  · change ((world.block record.channelHandler).setClient channel client).cached channel
      ((world.setClient channel client).realProp channel record.esconfProperty) = some value at there
    change value = m.channelValue channel
      ((world.setClient channel client).realProp channel record.esconfProperty) meaning
    rw [real] at there ⊢
    rw [reads, if_pos ⟨rfl, rfl⟩, Option.some.injEq] at there
    exact there.symm
  · rcases news with rfl | behind
    · refine Or.inr ⟨rank_le_of rfl fun binding => set_behind properties, ?_⟩
      simp only [weight, BoundWorld.block, BoundWorld.setClient, List.map_cons, List.sum_cons,
        taskWeight]
      omega
    · refine Or.inl (rank_lt_of rfl (fun binding => set_behind properties)
        (flows.sound.lt_nextBinding binds.held) ⟨record, channel, object, binds, behind⟩ ?_)
      rintro ⟨_, _, _, binds', still⟩
      obtain ⟨rfl, rfl, rfl⟩ := binds.unique binds'
      refine still ?_
      change ((world.block _).setClient _ client).cached _
        ((world.setClient _ client).realProp _ _) = some (m.channelValue _
          ((world.setClient _ client).realProp _ _) meaning)
      rw [real]
      exact reads.trans (if_pos ⟨rfl, rfl⟩)

theorem weight_gObjectSetProperty (system : ObjectSystem) (world : BoundWorld) (object : Nat)
    (name : CString) (value : ObjectValue) :
    weight (world.gObjectSetProperty system object name value) ≤
      weight world + 2 * world.bindings.nextHandler + 1 := by
  unfold gObjectSetProperty
  simp only
  split
  · simp only [weight, setValue]
    omega
  · exact weight_emitNotify (world.setValue object name value) object name

theorem Flows.channelNotify {binding channel object : Nat} {record : EsconfGBinding}
    (flows : world.Flows m system meaning (· = binding))
    (binds : Binds world.bindings binding record channel object)
    (only : ∀ present, world.cached channel (world.realProp channel record.esconfProperty) =
      some present → present =
        m.channelValue channel (world.realProp channel record.esconfProperty) meaning)
    {value : GValue} (carries : system.toObject (world.esconfTypes binding)
      (system.valueType object record.objectProperty)
      (system.default object record.objectProperty) value =
        some (some (m.objectValue object record.objectProperty meaning))) :
    ∃ after, world.esconfGPropertyChannelNotify system binding value = some after ∧
      after.Flows m system meaning (fun _ => False) ∧ Holds world after ∧
      after.rank m meaning ≤ world.rank m meaning ∧
      weight after ≤ weight world + 2 * world.bindings.nextHandler + 2 := by
  have flowed := (flows.block binds (Or.inr rfl)).setObject object record.objectProperty
  have light := weight_gObjectSetProperty system (world.block record.objectHandler) object
    record.objectProperty (m.objectValue object record.objectProperty meaning)
  obtain ⟨running, same, _⟩ := gObjectSetProperty_cases system (world.block record.objectHandler)
    object record.objectProperty (m.objectValue object record.objectProperty meaning)
  rw [same] at flowed light
  refine ⟨_, ?_, flowed.close binds ⟨?_, only⟩, .of_channels rfl rfl, rank_of_channels rfl rfl, ?_⟩
  · unfold esconfGPropertyChannelNotify
    simp only [binds.held, binds.object, binds.channel, carries, Option.bind_eq_bind,
      Option.bind_some]
    exact congrArg some same
  · exact (setValue_values _ _ _ _ _ _).trans (if_pos ⟨rfl, rfl⟩)
  · refine light.trans ?_
    simp only [weight, BoundWorld.block, List.map_cons, List.sum_cons, taskWeight]
    omega

theorem Flows.continue (flows : world.Flows m system meaning fun _ => False)
    {running : List Task} (counted : ∀ handler,
      running.countP (unblocks handler) = world.running.countP (unblocks handler))
    (fits : ∀ task ∈ running, task ∈ world.running ∨ world.Fits m system meaning task)
    (kept : ∀ binding record channel object, Binds world.bindings binding record channel object →
      ¬except binding → world.Awaited m meaning record channel object →
        world.Agrees m record channel object ∨
          Awaited m meaning { world with running } record channel object) :
    Flows m system meaning except { world with running } := by
  refine ⟨flows.sound, ⟨flows.typed.cached, flows.typed.saved, flows.typed.values,
    flows.typed.coherent⟩, ?_, fun handler => ?_, fun task member => ?_, ?_, ?_⟩
  · intro binding record channel object binds
    obtain ⟨toChannel, toObject, named⟩ := flows.understood binding record channel object binds
    exact ⟨toChannel, toObject, named⟩
  · exact (flows.counted handler).trans (counted handler).symm
  · have before : world.Fits m system meaning task := by
      rcases fits task member with old | new
      · exact flows.fits task old
      · exact new
    cases task <;> exact before
  · exact fun binding record channel object binds _ =>
      flows.settled binding record channel object binds id
  · intro binding record channel object binds other
    rcases flows.covered binding record channel object binds id with agrees | awaited
    · exact Or.inl agrees
    · exact kept binding record channel object binds other awaited

section

variable (flows : world.Flows m system meaning fun _ => False) {object number binding : Nat}
  {name : CString} {value : GValue} {handlers : List Nat} {again : Bool} {rest : List Task}
include flows

theorem Flows.restart (running : world.running = .notify object name handlers true :: rest) :
    Flows m system meaning (fun _ => False) { world with
      running := .notify object name (handlersOf world.bindings object .objectNotify name) false ::
        rest } := by
  refine flows.continue (fun handler => ?_) (fun task member => ?_) ?_
  · simp [running, unblocks]
  · rcases List.mem_cons.mp member with rfl | old
    · obtain ⟨has, _⟩ := flows.fits _ (running ▸ List.mem_cons_self)
      exact Or.inr ⟨has, fun number heard => (List.mem_filter.mp heard).2⟩
    · exact Or.inl (running ▸ List.mem_cons_of_mem _ old)
  · intro binding record channel other binds _ awaited
    right
    rcases awaited with ⟨handlers', again, member, more⟩ | ⟨handlers', member, more⟩
    · rcases List.mem_cons.mp (running ▸ member) with same | old
      · cases same
        exact Or.inl ⟨_, false, List.mem_cons_self, Or.inr (binds.object_listens flows.sound)⟩
      · exact Or.inl ⟨handlers', again, List.mem_cons_of_mem _ old, more⟩
    · rcases List.mem_cons.mp (running ▸ member) with same | old
      · cases same
      · exact Or.inr ⟨handlers', List.mem_cons_of_mem _ old, more⟩

theorem Flows.ends {task : Task} (running : world.running = task :: rest)
    (ended : (∃ object name, task = .notify object name [] false) ∨
      ∃ value, task = .propertyChanged value []) :
    Flows m system meaning (fun _ => False) { world with running := rest } := by
  refine flows.continue (fun handler => ?_)
    (fun task member => Or.inl (running ▸ List.mem_cons_of_mem _ member)) ?_
  · rw [running]
    rcases ended with ⟨_, _, rfl⟩ | ⟨_, rfl⟩ <;> rfl
  · intro binding record channel other binds _ awaited
    right
    rcases awaited with ⟨handlers', again, member, more⟩ | ⟨handlers', member, more⟩
    · rcases List.mem_cons.mp (running ▸ member) with same | old
      · rcases ended with ⟨_, _, rfl⟩ | ⟨_, rfl⟩ <;> cases same
        simp at more
      · exact Or.inl ⟨handlers', again, old, more⟩
    · rcases List.mem_cons.mp (running ▸ member) with same | old
      · rcases ended with ⟨_, _, rfl⟩ | ⟨_, rfl⟩ <;> cases same
        simp at more
      · exact Or.inr ⟨handlers', old, more⟩

theorem Flows.unblock {handler : Nat} (running : world.running = .unblock handler :: rest) :
    Flows m system meaning (fun _ => False) ({ world with running := rest }.unblock handler) := by
  have counted : ∀ other, ({ world with running := rest }.unblock handler).blocks other =
      rest.countP (unblocks other) := by
    intro other
    have before := flows.counted other
    rw [running, List.countP_cons] at before
    simp only [BoundWorld.unblock, Function.update_apply]
    by_cases here : other = handler
    · subst here
      simp only [unblocks, beq_self_eq_true, if_true] at before ⊢
      omega
    · simpa [unblocks, here, Ne.symm here] using before
  refine flows.spread ⟨rfl, rfl, fun _ _ => rfl, fun _ _ _ there => Or.inr there,
    fun _ _ => Or.inr rfl⟩ ⟨flows.typed.cached, flows.typed.saved, flows.typed.values,
      flows.typed.coherent⟩ counted ?_ ?_ (fun _ _ _ _ _ _ => Or.inl ⟨rfl, rfl⟩) ?_
  · intro task member
    have before := flows.fits task (running ▸ List.mem_cons_of_mem _ member)
    cases task <;> exact before
  · intro binding record channel other binds _ held
    have fewer : ∀ number, ({ world with running := rest }.unblock handler).blocks number ≤
        world.blocks number := by
      intro number
      rw [counted, flows.counted, running, List.countP_cons]
      exact Nat.le_add_right _ _
    exact held.imp (fun some => some.trans_le (fewer _)) fun some => some.trans_le (fewer _)
  · intro binding record channel other binds _ awaited
    rcases awaited with ⟨handlers', again, member, more⟩ | ⟨handlers', member, more⟩
    · rcases List.mem_cons.mp (running ▸ member) with same | old
      · cases same
      · exact Or.inl ⟨handlers', again, old, more⟩
    · rcases List.mem_cons.mp (running ▸ member) with same | old
      · cases same
      · exact Or.inr ⟨handlers', old, more⟩

/-- The next handler of an emission of `notify` is taken out of it; only its binding may have
waited for that. -/
theorem Flows.notified
    (running : world.running = .notify object name (number :: handlers) false :: rest)
    {record : EsconfGBinding} {channel : Nat}
    (binds : Binds world.bindings binding record channel object)
    (owned : record.objectHandler = number)
    (own : except binding ∨ world.Agrees m record channel object) :
    Flows m system meaning except
      { world with running := .notify object name handlers false :: rest } := by
  refine flows.continue (fun handler => ?_) (fun task member => ?_) ?_
  · simp [running, unblocks]
  · rcases List.mem_cons.mp member with rfl | old
    · obtain ⟨has, heard⟩ := flows.fits _ (running ▸ List.mem_cons_self)
      exact Or.inr ⟨has, fun number member => heard number (List.mem_cons_of_mem _ member)⟩
    · exact Or.inl (running ▸ List.mem_cons_of_mem _ old)
  · intro other another channel' object' binds' outside awaited
    rcases awaited with ⟨handlers', again, member, more⟩ | ⟨handlers', member, more⟩
    · rcases List.mem_cons.mp (running ▸ member) with same | old
      · cases same
        rcases List.mem_cons.mp (more.resolve_left Bool.false_ne_true) with mine | others
        · have theirs := (binds'.handler flows.sound).2
          rw [mine, ← owned, (binds.handler flows.sound).2, Option.some.injEq,
            SignalHandler.mk.injEq] at theirs
          obtain ⟨_, _, rfl⟩ := theirs
          obtain ⟨rfl, rfl, _⟩ := binds.unique binds'
          exact Or.inl (own.resolve_left outside)
        · exact Or.inr (Or.inl ⟨handlers, false, List.mem_cons_self, Or.inr others⟩)
      · exact Or.inr (Or.inl ⟨handlers', again, List.mem_cons_of_mem _ old, more⟩)
    · rcases List.mem_cons.mp (running ▸ member) with same | old
      · cases same
      · exact Or.inr (Or.inr ⟨handlers', List.mem_cons_of_mem _ old, more⟩)

/-- The same for an emission of `property-changed`. -/
theorem Flows.told (running : world.running = .propertyChanged value (number :: handlers) :: rest)
    {record : EsconfGBinding} {channel : Nat}
    (binds : Binds world.bindings binding record channel object)
    (owned : record.channelHandler = number)
    (own : except binding ∨ world.Agrees m record channel object ∨
      value ≠ m.channelValue channel (world.realProp channel record.esconfProperty) meaning) :
    Flows m system meaning except
      { world with running := .propertyChanged value handlers :: rest } := by
  refine flows.continue (fun handler => ?_) (fun task member => ?_) ?_
  · simp [running, unblocks]
  · rcases List.mem_cons.mp member with rfl | old
    · obtain ⟨emitter, property, heard, told⟩ := flows.fits _ (running ▸ List.mem_cons_self)
      exact Or.inr ⟨emitter, property,
        fun number member => heard number (List.mem_cons_of_mem _ member), told⟩
    · exact Or.inl (running ▸ List.mem_cons_of_mem _ old)
  · intro other another channel' object' binds' outside awaited
    rcases awaited with ⟨handlers', again, member, more⟩ | ⟨handlers', member, more⟩
    · rcases List.mem_cons.mp (running ▸ member) with same | old
      · cases same
      · exact Or.inr (Or.inl ⟨handlers', again, List.mem_cons_of_mem _ old, more⟩)
    · rcases List.mem_cons.mp (running ▸ member) with same | old
      · cases same
        rcases List.mem_cons.mp more with mine | others
        · have theirs := (binds'.handler flows.sound).1
          rw [mine, ← owned, (binds.handler flows.sound).1, Option.some.injEq,
            SignalHandler.mk.injEq] at theirs
          obtain ⟨_, _, rfl⟩ := theirs
          obtain ⟨rfl, rfl, rfl⟩ := binds.unique binds'
          rcases own with out | agrees | differs
          · exact absurd out outside
          · exact Or.inl agrees
          · exact absurd rfl differs
        · exact Or.inr (Or.inr ⟨handlers, List.mem_cons_self, others⟩)
      · exact Or.inr (Or.inr ⟨handlers', List.mem_cons_of_mem _ old, more⟩)

end

theorem weight_eq {task : Task} {rest : List Task} (running : world.running = task :: rest) :
    weight world = taskWeight world.bindings.nextHandler task +
      (rest.map (taskWeight world.bindings.nextHandler)).sum := by
  rw [weight, running, List.map_cons, List.sum_cons]

theorem Settled.agrees {record : EsconfGBinding} {channel object : Nat}
    (settled : world.Settled m meaning record channel object) :
    world.Agrees m record channel object :=
  fun value there => ⟨meaning, settled.2 value there, settled.1⟩

/-- The next handler of an emission of `notify`. -/
theorem Flows.notifies (flows : world.Flows m system meaning fun _ => False)
    (quiet : world.Quiet daemon) {object number : Nat} {name : CString} {handlers : List Nat}
    {rest : List Task}
    (running : world.running = .notify object name (number :: handlers) false :: rest) :
    ∃ next, { world with running := .notify object name handlers false :: rest }.runHandler number
        (esconfGPropertyObjectNotify system host daemon) = some next ∧
      next.Flows m system meaning (fun _ => False) ∧ Holds world next ∧
      (next.rank m meaning < world.rank m meaning ∨ next.rank m meaning ≤ world.rank m meaning ∧
        weight next < weight world) := by
  obtain ⟨has, heard⟩ := flows.fits _ (running ▸ List.mem_cons_self)
  obtain ⟨binding, record, channel, other, binds, there, owned, emits, same⟩ :=
    hears_binds flows.sound (heard number List.mem_cons_self)
  change record.objectHandler = number at owned
  change record.objectProperty = name at same
  subst owned same
  obtain rfl := Option.some.inj (binds.object.symm.trans emits)
  have lighter : weight { world with
      running := .notify other record.objectProperty handlers false :: rest } + 2 = weight world := by
    rw [weight_eq running]
    simp only [weight, List.map_cons, List.sum_cons, taskWeight, List.length_cons]
    omega
  unfold runHandler
  split
  · next blocked =>
      refine ⟨_, rfl, flows.notified running binds rfl (Or.inr ?_), .of_channels rfl rfl,
        Or.inr ⟨rank_of_channels rfl rfl, by omega⟩⟩
      exact (flows.settled binding record channel other binds id
        (Or.inl blocked)).agrees
  · obtain ⟨next, done, flowed, holds, less⟩ := Flows.objectNotify
      (flows.notified running binds rfl (Or.inl rfl))
      (fun binding record channel object => quiet binding record channel object) binds has
    refine ⟨next, ?_, flowed, ⟨holds.bindings, holds.realProp, holds.channelName, holds.cached⟩, ?_⟩
    · simp only [there]
      exact done
    · rcases less with lower | ⟨same, light⟩
      · exact Or.inl lower
      · exact Or.inr ⟨same, by omega⟩

/-- The next handler of an emission of `property-changed`. -/
theorem Flows.tellsNext (flows : world.Flows m system meaning fun _ => False) {number : Nat}
    {value : GValue} {handlers : List Nat} {rest : List Task}
    (running : world.running = .propertyChanged value (number :: handlers) :: rest) :
    ∃ next, { world with running := .propertyChanged value handlers :: rest }.runHandler number
        (fun world binding => world.esconfGPropertyChannelNotify system binding value) = some next ∧
      next.Flows m system meaning (fun _ => False) ∧ Holds world next ∧
      next.rank m meaning ≤ world.rank m meaning ∧ weight next < weight world := by
  obtain ⟨channel, property, heard, told⟩ := flows.fits _ (running ▸ List.mem_cons_self)
  obtain ⟨binding, record, other, object, binds, there, owned, emits, same⟩ :=
    hears_binds flows.sound (heard number List.mem_cons_self)
  change record.channelHandler = number at owned
  change record.esconfProperty = property at same
  subst owned same
  obtain rfl := Option.some.inj (binds.channel.symm.trans emits)
  obtain ⟨only, carried, carries, which⟩ := told binding record object binds rfl
  have lighter : weight { world with running := .propertyChanged value handlers :: rest } +
      (2 * world.bindings.nextHandler + 4) = weight world := by
    rw [weight_eq running]
    simp only [weight, List.map_cons, List.sum_cons, taskWeight, List.length_cons, Nat.add_mul]
    omega
  unfold runHandler
  split
  · next blocked =>
      refine ⟨_, rfl, flows.told running binds rfl (Or.inr (Or.inl ?_)), .of_channels rfl rfl,
        rank_of_channels rfl rfl, by omega⟩
      exact (flows.settled binding record other object binds id
        (Or.inr blocked)).agrees
  · rcases which with rfl | rfl
    · refine ⟨_, ?_, flows.told running binds rfl (Or.inr (Or.inr ?_)), .of_channels rfl rfl,
        rank_of_channels rfl rfl, by omega⟩
      · simp only [there, esconfGPropertyChannelNotify, binds.held, binds.object, binds.channel,
          carries, Option.bind_eq_bind, Option.bind_some]
      · rintro rfl
        have understood := flows.understood binding record other object binds
        have := (understood.toObject meaning).symm.trans carries
        cases this
    · obtain ⟨next, done, flowed, holds, same, light⟩ := Flows.channelNotify
        (flows.told running binds rfl (Or.inl rfl)) binds only carries
      refine ⟨next, ?_, flowed, ⟨holds.bindings, holds.realProp, holds.channelName, holds.cached⟩,
        same, ?_⟩
      · simp only [there]
        exact done
      · change _ ≤ _ + 2 * world.bindings.nextHandler + 2 at light
        omega

/-- A step of an emission keeps the flow, and there is less to do. -/
theorem Flows.step (flows : world.Flows m system meaning fun _ => False)
    (quiet : world.Quiet daemon) (busy : world.running ≠ []) :
    ∃ next, world.step system host daemon = some next ∧
      next.Flows m system meaning (fun _ => False) ∧ Holds world next ∧
      (next.rank m meaning < world.rank m meaning ∨ next.rank m meaning ≤ world.rank m meaning ∧
        weight next < weight world) := by
  cases running : world.running with
  | nil => exact absurd running busy
  | cons task rest =>
    have before := weight_eq running
    cases task with
    | unblock handler =>
      refine ⟨_, by rw [BoundWorld.step, running], flows.unblock running, .of_channels rfl rfl,
        Or.inr ⟨rank_of_channels rfl rfl, ?_⟩⟩
      rw [before]
      exact Nat.lt_add_of_pos_left Nat.one_pos
    | notify object name handlers again =>
      cases again with
      | true =>
        refine ⟨_, by rw [BoundWorld.step, running], flows.restart running, .of_channels rfl rfl,
          Or.inr ⟨rank_of_channels rfl rfl, ?_⟩⟩
        have few := handlersOf_length world.bindings object .objectNotify name
        rw [before]
        simp only [weight, List.map_cons, List.sum_cons, taskWeight]
        simp
        omega
      | false =>
        cases handlers with
        | nil =>
          refine ⟨_, by rw [BoundWorld.step, running], flows.ends running (Or.inl ⟨object, name, rfl⟩),
            .of_channels rfl rfl, Or.inr ⟨rank_of_channels rfl rfl, ?_⟩⟩
          rw [before]
          exact Nat.lt_add_of_pos_left (Nat.succ_pos _)
        | cons number handlers =>
          obtain ⟨next, done, kept⟩ := flows.notifies quiet running
          exact ⟨next, by rw [BoundWorld.step, running]; exact done, kept⟩
    | propertyChanged value handlers =>
      cases handlers with
      | nil =>
        refine ⟨_, by rw [BoundWorld.step, running], flows.ends running (Or.inr ⟨value, rfl⟩),
          .of_channels rfl rfl, Or.inr ⟨rank_of_channels rfl rfl, ?_⟩⟩
        rw [before]
        exact Nat.lt_add_of_pos_left (Nat.succ_pos _)
      | cons number handlers =>
        obtain ⟨next, done, flowed, holds, less⟩ := flows.tellsNext running
        exact ⟨next, by rw [BoundWorld.step, running]; exact done, flowed, holds, Or.inr less⟩

/-- While a value spreads no property is fetched; it spreads to an end. -/
theorem Flows.settles (flows : world.Flows m system meaning fun _ => False)
    (quiet : world.Quiet daemon) :
    ∃ fuel after, world.settle system host daemon fuel = some after ∧
      after.Flows m system meaning (fun _ => False) ∧ after.running = [] := by
  have progress : ∀ state : BoundWorld,
      Flows m system meaning (fun _ => False) state ∧ state.Quiet daemon →
      state.running.isEmpty = false → ∃ next, BoundWorld.step system host daemon state = some next ∧
        (Flows m system meaning (fun _ => False) next ∧ next.Quiet daemon) ∧
        (next.rank m meaning < state.rank m meaning ∨
          next.rank m meaning ≤ state.rank m meaning ∧ weight next < weight state) := by
    rintro state ⟨flows, quiet⟩ busy
    obtain ⟨next, stepped, flowed, holds, less⟩ :=
      flows.step quiet (List.isEmpty_eq_false_iff.mp busy)
    exact ⟨next, stepped, ⟨flowed, holds.quiet quiet⟩, less⟩
  obtain ⟨fuel, after, done, ⟨flowed, _⟩, idle⟩ :=
    Settling.settles (rank m meaning) weight progress ⟨flows, quiet⟩
  exact ⟨fuel, after, done, flowed, List.isEmpty_iff.mp idle⟩

end Esconf.Client.BoundWorld
