import Esconf.Bindings
import Mathlib.Data.List.Range
import Mathlib.Tactic.Common

/-! Bindings are torn down exactly once, whichever end goes first. -/

namespace Esconf.Client

def EsconfGBinding.emitter (record : EsconfGBinding) : BindingCallback → Option Nat
  | .objectNotify => record.object
  | .channelNotify => record.channel

def EsconfGBinding.handler (record : EsconfGBinding) : BindingCallback → Nat
  | .objectNotify => record.objectHandler
  | .channelNotify => record.channelHandler

namespace BindingWorld

structure Linked (world : BindingWorld) (binding : Nat) (record : EsconfGBinding) : Prop where
  connected : ∀ callback, ∃ emitter, record.emitter callback = some emitter ∧
    world.alive emitter = true ∧
    world.handlers (record.handler callback) = some ⟨emitter, callback, binding⟩
  channel : ∀ channel, record.channel = some channel → world.isChannel channel = true
  names : arePropertyNames record.esconfProperty record.objectProperty = true

/-- The records in memory are linked, the handlers are theirs, and a record that is not there
any more has been freed once. -/
structure Connected (world : BindingWorld) : Prop where
  linked : ∀ binding record, world.memory binding = some record → world.Linked binding record
  owned : ∀ number handler, world.handlers number = some handler →
    ∃ record, world.memory handler.binding = some record ∧
      record.handler handler.callback = number
  numbered : ∀ number, world.nextHandler ≤ number → world.handlers number = none
  allocated : ∀ binding, world.nextBinding ≤ binding → world.memory binding = none
  freed : ∀ binding, world.freed.count binding =
    if binding < world.nextBinding ∧ world.memory binding = none then 1 else 0

/-- Between two events the lock is free, and the list has the records in memory. -/
structure Sound (world : BindingWorld) : Prop extends Connected world where
  unlocked : world.locked = false
  listed : ∀ binding, world.bindings.count binding =
    if (world.memory binding).isSome then 1 else 0

def released (world : BindingWorld) (binding : Nat) (record : EsconfGBinding) : BindingWorld :=
  { world with
    handlers := Function.update (Function.update world.handlers record.objectHandler none)
      record.channelHandler none
    memory := Function.update world.memory binding none
    bindings := world.bindings.erase binding
    freed := world.freed ++ [binding] }

section

variable {world : BindingWorld} {binding : Nat} {record : EsconfGBinding}

theorem removeBinding_eq (free : world.locked = false ∨ world.bindings = []) (binding : Nat) :
    world.removeBinding binding =
      some { world with bindings := world.bindings.erase binding } := by
  unfold removeBinding
  split
  · next empty =>
      rw [List.isEmpty_iff.mp empty, List.erase_nil, ← List.isEmpty_iff.mp empty]
  · next full =>
      have unlocked := free.resolve_right fun empty => full (List.isEmpty_iff.mpr empty)
      simp [lockBindings, unlockBindings, unlocked]

theorem gSignalHandlerDisconnect_succ (depth : Nat) {emitter number : Nat}
    {callback : BindingCallback} (alive : world.alive emitter = true)
    (there : world.handlers number = some ⟨emitter, callback, binding⟩) :
    gSignalHandlerDisconnect (depth + 1) world emitter number =
      destroyNotify (gSignalHandlerDisconnect depth) (world.removeHandler number) binding
        callback := by
  simp [gSignalHandlerDisconnect, alive, there]

theorem esconfGPropertyObjectDisconnect_linked
    (disconnect : BindingWorld → Nat → Nat → Option BindingWorld) {object channel : Nat}
    (held : world.memory binding = some record) (hasObject : record.object = some object)
    (hasChannel : record.channel = some channel) (objectAlive : world.alive object = true)
    (channelAlive : world.alive channel = true) (typed : world.isChannel channel = true)
    (free : world.locked = false ∨ world.bindings = []) :
    esconfGPropertyObjectDisconnect disconnect world binding =
      (disconnect ({ world with bindings := world.bindings.erase binding }.setBinding binding
        { record with object := none }) channel record.channelHandler).bind
          (·.freeBinding binding) := by
  simp [esconfGPropertyObjectDisconnect, gIsObject, esconfIsChannel, removeBinding_eq, *]

theorem esconfGPropertyChannelDisconnect_linked
    (disconnect : BindingWorld → Nat → Nat → Option BindingWorld) {object channel : Nat}
    (held : world.memory binding = some record) (hasObject : record.object = some object)
    (hasChannel : record.channel = some channel) (objectAlive : world.alive object = true)
    (channelAlive : world.alive channel = true) (typed : world.isChannel channel = true) :
    esconfGPropertyChannelDisconnect disconnect world binding =
      disconnect (world.setBinding binding { record with channel := none }) object
        record.objectHandler := by
  simp [esconfGPropertyChannelDisconnect, gIsObject, esconfIsChannel, *]

theorem disconnect_channel_alone (depth binding : Nat) {number channel : Nat}
    (record : EsconfGBinding)
    (connected : world.handlers number = some ⟨channel, .channelNotify, binding⟩)
    (held : world.memory binding = some record) (there : record.channel = some channel)
    (gone : record.object = none) (alive : world.alive channel = true)
    (typed : world.isChannel channel = true) :
    gSignalHandlerDisconnect (depth + 1) world channel number =
      some ((world.removeHandler number).setBinding binding { record with channel := none }) := by
  rw [gSignalHandlerDisconnect_succ depth alive connected]
  simp [destroyNotify, esconfGPropertyChannelDisconnect, esconfIsChannel, gIsObject, removeHandler, *]

theorem disconnect_object_alone (depth binding : Nat) {number object : Nat}
    (record : EsconfGBinding)
    (connected : world.handlers number = some ⟨object, .objectNotify, binding⟩)
    (held : world.memory binding = some record) (there : record.object = some object)
    (gone : record.channel = none) (alive : world.alive object = true)
    (free : world.locked = false ∨ world.bindings = []) :
    gSignalHandlerDisconnect (depth + 1) world object number =
      some { world.removeHandler number with
        memory := Function.update world.memory binding none
        bindings := world.bindings.erase binding
        freed := world.freed ++ [binding] } := by
  rw [gSignalHandlerDisconnect_succ depth alive connected]
  simp [destroyNotify, esconfGPropertyObjectDisconnect, esconfIsChannel, gIsObject, removeHandler,
    removeBinding_eq, setBinding, freeBinding, *]

theorem Linked.apart (linked : world.Linked binding record) :
    record.channelHandler ≠ record.objectHandler := by
  intro same
  obtain ⟨_, _, _, channelHandler⟩ := linked.connected .channelNotify
  obtain ⟨_, _, _, objectHandler⟩ := linked.connected .objectNotify
  simp only [EsconfGBinding.handler] at channelHandler objectHandler
  rw [same, objectHandler] at channelHandler
  cases channelHandler

/-- Whichever end goes first, the other one follows, and the record is freed. -/
theorem disconnect_linked (linked : world.Linked binding record)
    (held : world.memory binding = some record)
    (free : world.locked = false ∨ world.bindings = []) {callback : BindingCallback} {emitter : Nat}
    (there : record.emitter callback = some emitter) :
    gSignalHandlerDisconnect disconnectDepth world emitter (record.handler callback) =
      some (world.released binding record) := by
  obtain ⟨object, hasObject, objectAlive, objectHandler⟩ := linked.connected .objectNotify
  obtain ⟨channel, hasChannel, channelAlive, channelHandler⟩ := linked.connected .channelNotify
  simp only [EsconfGBinding.emitter, EsconfGBinding.handler] at *
  have typed := linked.channel channel hasChannel
  have apart := linked.apart
  cases callback with
  | objectNotify =>
      obtain rfl := Option.some.inj (hasObject.symm.trans there)
      rw [disconnectDepth, gSignalHandlerDisconnect_succ 1 objectAlive objectHandler,
        destroyNotify]
      rw [@esconfGPropertyObjectDisconnect_linked (world.removeHandler record.objectHandler) binding
        record _ object channel held hasObject hasChannel objectAlive channelAlive typed free,
        disconnect_channel_alone 0 binding { record with object := none }]
      · simp [setBinding, freeBinding, removeHandler, released]
      all_goals simp [setBinding, removeHandler, *]
  | channelNotify =>
      obtain rfl := Option.some.inj (hasChannel.symm.trans there)
      rw [disconnectDepth, gSignalHandlerDisconnect_succ 1 channelAlive channelHandler,
        destroyNotify]
      rw [@esconfGPropertyChannelDisconnect_linked (world.removeHandler record.channelHandler)
        binding record _ object channel held hasObject hasChannel objectAlive channelAlive typed,
        disconnect_object_alone 0 binding { record with channel := none }]
      · simp [setBinding, removeHandler, released, Function.update_comm apart]
      all_goals simp [setBinding, removeHandler, Function.update_of_ne apart.symm, *]

theorem released_handlers (connected : world.Connected) (held : world.memory binding = some record)
    (number : Nat) (handler : SignalHandler) :
    (world.released binding record).handlers number = some handler ↔
      world.handlers number = some handler ∧ handler.binding ≠ binding := by
  have mine (callback : BindingCallback) {there : SignalHandler}
      (here : world.handlers (record.handler callback) = some there) : there.binding = binding := by
    obtain ⟨_, _, _, known⟩ := (connected.linked binding record held).connected callback
    rw [known] at here
    cases here
    rfl
  have other (there : world.handlers number = some handler) (same : handler.binding = binding) :
      number = record.channelHandler ∨ number = record.objectHandler := by
    obtain ⟨kept, present, rfl⟩ := connected.owned number handler there
    rw [same, held, Option.some.injEq] at present
    subst present
    cases handler.callback with
    | objectNotify => exact Or.inr rfl
    | channelNotify => exact Or.inl rfl
  simp only [released, Function.update_apply]
  split
  · next here =>
      exact iff_of_false nofun fun ⟨there, apart⟩ => 
        apart (mine .channelNotify ((congrArg world.handlers here).symm.trans there))
  · next notChannel =>
      split
      · next here =>
          exact iff_of_false nofun fun ⟨there, apart⟩ => 
            apart (mine .objectNotify ((congrArg world.handlers here).symm.trans there))
      · next notObject =>
          refine ⟨fun there => ⟨there, fun same => ?_⟩, And.left⟩
          exact (other there same).elim notChannel notObject

theorem released_connected (connected : world.Connected)
    (held : world.memory binding = some record) : (world.released binding record).Connected := by
  have handlers := released_handlers connected held
  refine ⟨?_, ?_, ?_, ?_, ?_⟩
  · intro other kept there
    have apart : other ≠ binding := by
      rintro rfl
      simp [released] at there
    have before : world.memory other = some kept := by
      simpa [released, apart] using there
    obtain ⟨both, typed, names⟩ := connected.linked other kept before
    refine ⟨?_, typed, names⟩
    intro callback
    obtain ⟨emitter, known, alive, handler⟩ := both callback
    exact ⟨emitter, known, alive, (handlers _ _).mpr ⟨handler, apart⟩⟩
  · intro number handler there
    obtain ⟨before, apart⟩ := (handlers number handler).mp there
    obtain ⟨kept, present, mine⟩ := connected.owned number handler before
    exact ⟨kept, by simpa [released, apart] using present, mine⟩
  · intro number large
    rw [Option.eq_none_iff_forall_ne_some]
    intro handler there
    have before := ((handlers number handler).mp there).1
    rw [connected.numbered number large] at before
    cases before
  · intro other large
    simp only [released, Function.update_apply]
    split
    · rfl
    · exact connected.allocated other large
  · intro other
    have small : binding < world.nextBinding := by
      by_contra large
      rw [connected.allocated binding (Nat.le_of_not_lt large)] at held
      cases held
    simp only [released, List.count_append, connected.freed other, List.count_singleton]
    by_cases same : other = binding
    · simp [same, held, small]
    · simp [same, Ne.symm same]

theorem released_sound (sound : world.Sound) (held : world.memory binding = some record) :
    (world.released binding record).Sound := by
  refine ⟨released_connected sound.toConnected held, sound.unlocked, ?_⟩
  intro other
  simp only [released, List.count_erase, sound.listed other]
  by_cases same : other = binding
  · simp [same, held]
  · simp [same, Ne.symm same]

end

structure Frees (world : BindingWorld) (gone : Nat → EsconfGBinding → Prop)
    (after : BindingWorld) : Prop where
  sound : after.Sound
  nextBinding : after.nextBinding = world.nextBinding
  memory : ∀ binding record, after.memory binding = some record ↔
    world.memory binding = some record ∧ ¬gone binding record

section

variable {world : BindingWorld} {binding : Nat} {record : EsconfGBinding}

theorem Sound.frees_none (sound : world.Sound) {gone : Nat → EsconfGBinding → Prop}
    (none : ∀ binding record, world.memory binding = some record → ¬gone binding record) :
    world.Frees gone world :=
  ⟨sound, rfl, fun binding record =>
    ⟨fun held => ⟨held, none binding record held⟩, And.left⟩⟩

theorem Frees.congr {gone others : Nat → EsconfGBinding → Prop} {after : BindingWorld}
    (frees : world.Frees gone after)
    (same : ∀ binding record, world.memory binding = some record →
      (gone binding record ↔ others binding record)) : world.Frees others after := by
  refine ⟨frees.sound, frees.nextBinding, ?_⟩
  intro binding record
  rw [frees.memory]
  exact and_congr_right fun held => not_congr (same binding record held)

theorem released_frees (sound : world.Sound) (held : world.memory binding = some record) :
    world.Frees (fun other _ => other = binding) (world.released binding record) := by
  refine ⟨released_sound sound held, rfl, ?_⟩
  intro other kept
  by_cases same : other = binding
  · simp [released, same]
  · simp [released, same]

def Wanted (emitter : Nat) (wanted : BindingCallback → Bool) (handler : SignalHandler) : Prop :=
  handler.emitter = emitter ∧ wanted handler.callback = true

def Matched (world : BindingWorld) (emitter : Nat) (wanted : BindingCallback → Bool)
    (numbers : List Nat) (binding : Nat) : Prop :=
  ∃ number ∈ numbers, ∃ handler, world.handlers number = some handler ∧
    Wanted emitter wanted handler ∧ handler.binding = binding

theorem matched_cons {emitter number : Nat} {wanted : BindingCallback → Bool}
    {numbers : List Nat} : world.Matched emitter wanted (number :: numbers) binding ↔
      (∃ handler, world.handlers number = some handler ∧ Wanted emitter wanted handler ∧
        handler.binding = binding) ∨ world.Matched emitter wanted numbers binding := by
  simp only [Matched, List.mem_cons, exists_eq_or_imp]

theorem released_matched (connected : world.Connected) (held : world.memory binding = some record)
    {emitter other : Nat} {wanted : BindingCallback → Bool} {numbers : List Nat} :
    (world.released binding record).Matched emitter wanted numbers other ↔
      world.Matched emitter wanted numbers other ∧ other ≠ binding := by
  simp only [Matched, released_handlers connected held]
  constructor
  · rintro ⟨number, member, handler, ⟨there, apart⟩, matched, rfl⟩
    exact ⟨⟨number, member, handler, there, matched, rfl⟩, apart⟩
  · rintro ⟨⟨number, member, handler, there, matched, rfl⟩, apart⟩
    exact ⟨number, member, handler, ⟨there, apart⟩, matched, rfl⟩

theorem disconnect_matched (sound : world.Sound) {number emitter : Nat} {handler : SignalHandler}
    (there : world.handlers number = some handler) (mine : handler.emitter = emitter) :
    ∃ record, world.memory handler.binding = some record ∧
      gSignalHandlerDisconnect disconnectDepth world emitter number =
        some (world.released handler.binding record) := by
  obtain ⟨record, held, same⟩ := sound.owned number handler there
  have linked := sound.linked handler.binding record held
  have has : record.emitter handler.callback = some emitter := by
    obtain ⟨known, has, _, again⟩ := linked.connected handler.callback
    rw [same, there, Option.some.injEq] at again
    rw [has, ← mine, again]
  have done := disconnect_linked linked held (Or.inl sound.unlocked) has
  rw [same] at done
  exact ⟨record, held, done⟩

theorem disconnectMatched_frees (emitter : Nat) (wanted : BindingCallback → Bool)
    (numbers : List Nat) (sound : world.Sound) :
    ∃ after, disconnectMatched emitter wanted numbers world = some after ∧
      world.Frees (fun binding _ => world.Matched emitter wanted numbers binding) after := by
  induction numbers generalizing world with
  | nil => exact ⟨world, rfl, sound.frees_none fun _ _ _ ⟨_, member, _⟩ => nomatch member⟩
  | cons number numbers ih =>
      -- A handler that is not wanted leaves the world to the others.
      have skip (unwanted : ∀ handler, world.handlers number = some handler →
          ¬Wanted emitter wanted handler) :
          ∃ after, disconnectMatched emitter wanted numbers world = some after ∧
            world.Frees (fun binding _ =>
              world.Matched emitter wanted (number :: numbers) binding) after := by
        obtain ⟨after, done, frees⟩ := ih sound
        refine ⟨after, done, frees.congr fun binding _ _ => ?_⟩
        rw [matched_cons, or_iff_right]
        rintro ⟨handler, there, want, _⟩
        exact unwanted handler there want
      unfold disconnectMatched
      split
      · next missing => exact skip fun handler there => nomatch missing.symm.trans there
      · next handler there =>
          split
          · next want =>
              obtain ⟨record, held, freed⟩ := disconnect_matched sound there want.1
              rw [freed, Option.bind_some]
              obtain ⟨after, done, frees⟩ := ih (released_sound sound held)
              refine ⟨after, done, frees.sound, frees.nextBinding, ?_⟩
              intro binding kept
              rw [frees.memory, (released_frees sound held).memory, and_assoc, matched_cons,
                released_matched sound.toConnected held]
              refine and_congr_right fun _ => ?_
              rw [← not_or, not_iff_not]
              constructor
              · rintro (rfl | ⟨matched, _⟩)
                · exact Or.inl ⟨handler, there, want, rfl⟩
                · exact Or.inr matched
              · rintro (⟨again, here, _, rfl⟩ | matched)
                · obtain rfl := Option.some.inj (there.symm.trans here)
                  exact Or.inl rfl
                · by_cases same : binding = handler.binding
                  · exact Or.inl same
                  · exact Or.inr ⟨matched, same⟩
          · next unwanted =>
              refine skip fun other here => ?_
              obtain rfl := Option.some.inj (there.symm.trans here)
              exact unwanted

theorem matched_all (sound : world.Sound) (held : world.memory binding = some record)
    (emitter : Nat) (wanted : BindingCallback → Bool) (order : List Nat) :
    world.Matched emitter wanted (world.handlersFrom order) binding ↔
      ∃ callback, wanted callback = true ∧ record.emitter callback = some emitter := by
  have linked := sound.linked binding record held
  constructor
  · rintro ⟨number, _, handler, there, ⟨rfl, want⟩, rfl⟩
    obtain ⟨kept, present, same⟩ := sound.owned number handler there
    obtain rfl := Option.some.inj (held.symm.trans present)
    obtain ⟨emitter, has, _, again⟩ := linked.connected handler.callback
    rw [same, there, Option.some.injEq] at again
    exact ⟨handler.callback, want, by rw [has, again]⟩
  · rintro ⟨callback, want, has⟩
    obtain ⟨known, there, _, handler⟩ := linked.connected callback
    obtain rfl := Option.some.inj (has.symm.trans there)
    refine ⟨_, ?_, _, handler, ⟨rfl, want⟩, rfl⟩
    refine List.mem_append_right _ (List.mem_range.mpr ?_)
    by_contra large
    rw [sound.numbered _ (Nat.le_of_not_lt large)] at handler
    cases handler

theorem findBinding_eq (wanted : EsconfGBinding → Bool) (bindings : List Nat)
    (present : ∀ binding ∈ bindings, (world.memory binding).isSome) :
    world.findBinding wanted bindings =
      some (bindings.find? fun binding => (world.memory binding).any wanted) := by
  induction bindings with
  | nil => rfl
  | cons binding bindings ih =>
      obtain ⟨record, held⟩ := Option.isSome_iff_exists.mp (present binding (List.mem_cons_self ..))
      have rest := ih fun other member => present other (List.mem_cons_of_mem _ member)
      rw [findBinding, held, List.find?_cons]
      simp only [Option.bind_eq_bind, Option.bind_some, held, Option.any_some, rest]
      cases wanted record <;> rfl

def IsFirst (world : BindingWorld) (wanted : EsconfGBinding → Bool) (binding : Nat) : Prop :=
  (world.bindings.find? fun other => (world.memory other).any wanted) = some binding

theorem IsFirst.held {wanted : EsconfGBinding → Bool} (first : world.IsFirst wanted binding) :
    ∃ record, world.memory binding = some record ∧ wanted record = true := by
  have found := List.find?_some first
  cases held : world.memory binding with
  | none =>
      rw [held] at found
      cases found
  | some record =>
      rw [held] at found
      exact ⟨record, rfl, found⟩

theorem Sound.mem_bindings (sound : world.Sound) :
    binding ∈ world.bindings ↔ (world.memory binding).isSome := by
  rw [← List.count_pos_iff, sound.listed]
  cases world.memory binding <;> simp

theorem disconnectObject_released (linked : world.Linked binding record)
    (held : world.memory binding = some record)
    (free : world.locked = false ∨ world.bindings = []) :
    world.disconnectObject binding = some (world.released binding record) := by
  obtain ⟨object, has, _, _⟩ := linked.connected .objectNotify
  have done := disconnect_linked linked held free has
  simp only [EsconfGBinding.emitter, EsconfGBinding.handler] at has done
  simp [disconnectObject, held, has, done]

/-- The lock is given back before the binding is disconnected. -/
theorem unbindFirst_eq (sound : world.Sound) (wanted : EsconfGBinding → Bool) :
    world.unbindFirst wanted =
      (world.bindings.find? fun other => (world.memory other).any wanted).elim (some world)
        world.disconnectObject := by
  have looked := @findBinding_eq { world with locked := true } wanted world.bindings
    fun binding member => sound.mem_bindings.mp member
  have back : unlockBindings { world with locked := true } = world := by
    rw [unlockBindings, ← sound.unlocked]
  have locks : world.lockBindings = some { world with locked := true } := by
    rw [lockBindings, sound.unlocked, if_neg Bool.false_ne_true]
  cases found : world.bindings.find? fun other => (world.memory other).any wanted with
  | none => simp [unbindFirst, locks, looked, back, found]
  | some binding => simp [unbindFirst, locks, looked, back, found]

theorem unbindFirst_frees (sound : world.Sound) (wanted : EsconfGBinding → Bool) :
    ∃ after, world.unbindFirst wanted = some after ∧
      world.Frees (fun binding _ => world.IsFirst wanted binding) after := by
  rw [unbindFirst_eq sound]
  cases found : world.bindings.find? fun other => (world.memory other).any wanted with
  | none =>
      refine ⟨world, rfl, sound.frees_none ?_⟩
      intro binding _ _ first
      cases found.symm.trans first
  | some binding =>
      obtain ⟨record, held, _⟩ := IsFirst.held found
      have done := disconnectObject_released (sound.linked binding record held) held
        (Or.inl sound.unlocked)
      refine ⟨_, done, (released_frees sound held).congr ?_⟩
      intro other _ _
      rw [IsFirst, found, Option.some.injEq, eq_comm]

theorem isFirst_hasId (sound : world.Sound) (held : world.memory binding = some record)
    (id : Nat) : world.IsFirst (hasId id) binding ↔ record.channelHandler = id := by
  constructor
  · intro first
    obtain ⟨kept, again, found⟩ := first.held
    obtain rfl := Option.some.inj (held.symm.trans again)
    exact beq_iff_eq.mp found
  · rintro rfl
    have found : (world.bindings.find? fun other =>
        (world.memory other).any (hasId record.channelHandler)).isSome := by
      rw [List.find?_isSome]
      refine ⟨binding, sound.mem_bindings.mpr (by rw [held]; rfl), ?_⟩
      rw [held]
      exact beq_self_eq_true record.channelHandler
    obtain ⟨other, first⟩ := Option.isSome_iff_exists.mp found
    obtain ⟨kept, there, found⟩ := IsFirst.held first
    obtain ⟨_, _, _, one⟩ := (sound.linked _ _ there).connected .channelNotify
    obtain ⟨_, _, _, two⟩ := (sound.linked _ _ held).connected .channelNotify
    simp only [EsconfGBinding.handler] at one two
    rw [beq_iff_eq.mp found, two, Option.some.injEq] at one
    cases one
    exact first

theorem disconnectObjects_released (bindings : List Nat) (connected : world.Connected)
    (emptied : world.bindings = []) (listed : ∀ binding,
      bindings.count binding = if (world.memory binding).isSome then 1 else 0) :
    ∃ after, disconnectObjects bindings world = some after ∧ after.Connected ∧
      after.bindings = [] ∧ after.nextBinding = world.nextBinding ∧
      ∀ binding, after.memory binding = none := by
  induction bindings generalizing world with
  | nil =>
      refine ⟨world, rfl, connected, emptied, rfl, ?_⟩
      intro binding
      have none := listed binding
      cases held : world.memory binding with
      | none => rfl
      | some => simp [held] at none
  | cons binding bindings ih =>
      have first := listed binding
      rw [List.count_cons_self] at first
      cases held : world.memory binding with
      | none => simp [held] at first
      | some record =>
          have done := disconnectObject_released (connected.linked binding record held) held
            (Or.inr emptied)
          rw [disconnectObjects, done, Option.bind_some]
          refine ih (released_connected connected held) ?_ ?_
          · rw [released, emptied, List.erase_nil]
          · intro other
            have counted := listed other
            by_cases same : other = binding
            · simpa [same, released, held] using first
            · simpa [same, released, List.count_cons, Ne.symm same] using counted

theorem Connected.listing (connected : world.Connected) (bindings : List Nat) (locked : Bool) :
    { world with bindings := bindings, locked := locked }.Connected := by
  refine ⟨?_, connected.owned, connected.numbered, connected.allocated, connected.freed⟩
  intro binding record held
  have linked := connected.linked binding record held
  exact ⟨linked.connected, linked.channel, linked.names⟩

theorem shutdown_frees (sound : world.Sound) :
    ∃ after, world.esconfGBindingsShutdown = some after ∧
      world.Frees (fun _ _ => True) after := by
  unfold esconfGBindingsShutdown
  split
  · next empty =>
      refine ⟨world, rfl, sound.frees_none ?_⟩
      intro binding record held _
      have member := sound.mem_bindings.mpr (Option.isSome_of_eq_some held)
      rw [List.isEmpty_iff.mp empty] at member
      cases member
  · obtain ⟨left, done, connected, emptied, next, gone⟩ :=
      disconnectObjects_released world.bindings (sound.toConnected.listing [] true) rfl sound.listed
    refine ⟨left.unlockBindings, ?_, ⟨⟨?_, rfl, ?_⟩, next, ?_⟩⟩
    · simp [lockBindings, sound.unlocked, done]
    · exact connected.listing left.bindings false
    · intro binding
      simp [unlockBindings, emptied, gone]
    · intro binding record
      simp [unlockBindings, gone]

theorem esconfGPropertyUnbindAll_frees (sound : world.Sound) (emitter : Nat) (order : List Nat) :
    ∃ after, world.esconfGPropertyUnbindAll emitter order = some after ∧
      world.Frees (fun _ record =>
        if world.isChannel emitter then record.channel = some emitter
        else record.object = some emitter) after := by
  obtain ⟨after, done, frees⟩ := disconnectMatched_frees emitter
    (· == world.unboundCallback emitter) (world.handlersFrom order) sound
  refine ⟨after, done, frees.congr fun binding record held => ?_⟩
  simp only [matched_all sound held, beq_iff_eq, exists_eq_left, unboundCallback]
  split <;> rfl

theorem gObjectDestroy_frees (sound : world.Sound) (emitter : Nat) (order : List Nat) :
    ∃ after, world.gObjectDestroy emitter order = some after ∧
      world.Frees (fun _ record => record.channel = some emitter ∨ record.object = some emitter)
        after := by
  obtain ⟨left, done, frees⟩ := disconnectMatched_frees emitter (fun _ => true)
    (world.handlersFrom order) sound
  have matched (binding : Nat) (record : EsconfGBinding)
      (held : world.memory binding = some record) :
      world.Matched emitter (fun _ => true) (world.handlersFrom order) binding ↔
        record.channel = some emitter ∨ record.object = some emitter := by
    rw [matched_all sound held]
    constructor
    · rintro ⟨_ | _, _, has⟩
      · exact Or.inr has
      · exact Or.inl has
    · rintro (has | has)
      · exact ⟨.channelNotify, rfl, has⟩
      · exact ⟨.objectNotify, rfl, has⟩
  have freed := frees.congr matched
  have sane := freed.sound
  refine ⟨{ left with alive := Function.update left.alive emitter false },
    by rw [gObjectDestroy, done, Option.map_some],
    ⟨⟨?_, sane.unlocked, sane.listed⟩, freed.nextBinding, freed.memory⟩⟩
  refine ⟨?_, sane.owned, sane.numbered, sane.allocated, sane.freed⟩
  intro binding record held
  have linked := sane.linked binding record held
  have other := ((freed.memory binding record).mp held).2
  refine ⟨?_, linked.channel, linked.names⟩
  intro callback
  obtain ⟨known, has, alive, handler⟩ := linked.connected callback
  refine ⟨known, has, ?_, handler⟩
  have apart : known ≠ emitter := by
    rintro rfl
    cases callback with
    | objectNotify => exact other (Or.inr has)
    | channelNotify => exact other (Or.inl has)
  exact (Function.update_of_ne apart false left.alive).trans alive

def Targets (world : BindingWorld) : Event → Nat → EsconfGBinding → Prop
  | .bind .., _, _ => False
  | .unbind id, _, record => record.channelHandler = id
  | .unbindByProperty channel esconfProperty object objectProperty, binding, _ =>
    world.IsFirst (hasProperties channel esconfProperty object objectProperty) binding
  | .unbindAll emitter _, _, record =>
    if world.isChannel emitter then record.channel = some emitter
    else record.object = some emitter
  | .destroy emitter _, _, record =>
    record.channel = some emitter ∨ record.object = some emitter
  | .shutdown, _, _ => True

theorem Linked.alive (linked : world.Linked binding record) {callback : BindingCallback}
    {emitter : Nat} (has : record.emitter callback = some emitter) :
    world.alive emitter = true := by
  obtain ⟨known, there, alive, _⟩ := linked.connected callback
  rwa [Option.some.inj (has.symm.trans there)]

theorem hasProperties_iff {channel object : Nat} {esconfProperty objectProperty : CString} :
    hasProperties channel esconfProperty object objectProperty record = true ↔
      record.object = some object ∧ record.channel = some channel ∧
        esconfProperty = record.esconfProperty ∧ objectProperty = record.objectProperty := by
  simp [hasProperties, and_assoc]

theorem IsFirst.accepted (sound : world.Sound) {channel object : Nat}
    {esconfProperty objectProperty : CString} (first : world.IsFirst
      (hasProperties channel esconfProperty object objectProperty) binding) :
    world.alive channel = true ∧ world.alive object = true ∧ world.isChannel channel = true ∧
      arePropertyNames esconfProperty objectProperty = true := by
  obtain ⟨record, held, found⟩ := first.held
  obtain ⟨hasObject, hasChannel, rfl, rfl⟩ := hasProperties_iff.mp found
  have linked := sound.linked binding record held
  exact ⟨@Linked.alive _ _ _ linked .channelNotify _ hasChannel,
    @Linked.alive _ _ _ linked .objectNotify _ hasObject, linked.channel channel hasChannel,
    linked.names⟩

theorem esconfGPropertyUnbindByProperty_frees (sound : world.Sound) (channel : Nat)
    (esconfProperty : CString) (object : Nat) (objectProperty : CString) :
    ∃ after, world.esconfGPropertyUnbindByProperty channel esconfProperty object objectProperty =
        some after ∧
      world.Frees (fun binding _ => world.IsFirst
        (hasProperties channel esconfProperty object objectProperty) binding) after := by
  unfold esconfGPropertyUnbindByProperty
  split
  · next wrong =>
      refine ⟨world, rfl, sound.frees_none fun _ _ _ first => ?_⟩
      simp [(first.accepted sound).2.2.1] at wrong
  · split
    · next wrong =>
        refine ⟨world, rfl, sound.frees_none fun _ _ _ first => ?_⟩
        simp [(first.accepted sound).2.2.2] at wrong
    · exact unbindFirst_frees sound _

theorem targets_given (sound : world.Sound) {event : Event} (dead : world.Given event = false)
    (held : world.memory binding = some record) : ¬world.Targets event binding record := by
  have linked := sound.linked binding record held
  intro target
  cases event with
  | bind | unbind | shutdown => first | exact target | cases dead
  | unbindByProperty channel esconfProperty object objectProperty =>
      obtain ⟨channelAlive, objectAlive, _⟩ := IsFirst.accepted sound target
      simp [Given, channelAlive, objectAlive] at dead
  | unbindAll emitter order =>
      have alive : world.alive emitter = true := by
        simp only [Targets] at target
        split at target
        · exact @Linked.alive _ _ _ linked .channelNotify _ target
        · exact @Linked.alive _ _ _ linked .objectNotify _ target
      simp [Given, alive] at dead
  | destroy emitter order =>
      have alive : world.alive emitter = true := by
        rcases target with has | has
        · exact @Linked.alive _ _ _ linked .channelNotify _ has
        · exact @Linked.alive _ _ _ linked .objectNotify _ has
      simp [Given, alive] at dead

end

section

variable {world : BindingWorld} {binding : Nat} {record : EsconfGBinding}

theorem Connected.lt_nextBinding (connected : world.Connected)
    (held : world.memory binding = some record) : binding < world.nextBinding := by
  by_contra large
  rw [connected.allocated binding (Nat.le_of_not_lt large)] at held
  cases held

theorem Connected.lt_nextHandler (connected : world.Connected) {number : Nat}
    {handler : SignalHandler} (there : world.handlers number = some handler) :
    number < world.nextHandler := by
  by_contra large
  rw [connected.numbered number (Nat.le_of_not_lt large)] at there
  cases there

variable {channel object : Nat} {esconfProperty objectProperty : CString}

theorem esconfGPropertyInit_handlers (number : Nat) :
    (world.esconfGPropertyInit channel esconfProperty object objectProperty).handlers number =
      if number = world.nextHandler + 1 then
        some ⟨channel, .channelNotify, world.nextBinding⟩
      else if number = world.nextHandler then
        some ⟨object, .objectNotify, world.nextBinding⟩
      else world.handlers number := by
  simp [esconfGPropertyInit, Function.update_apply]

theorem esconfGPropertyInit_memory (other : Nat) :
    (world.esconfGPropertyInit channel esconfProperty object objectProperty).memory other =
      if other = world.nextBinding then
        some ⟨some channel, esconfProperty, world.nextHandler + 1, some object, objectProperty,
          world.nextHandler⟩
      else world.memory other := by
  simp [esconfGPropertyInit, Function.update_apply]

theorem esconfGPropertyInit_linked (sound : world.Sound) (channelAlive : world.alive channel = true)
    (objectAlive : world.alive object = true) (typed : world.isChannel channel = true)
    (names : arePropertyNames esconfProperty objectProperty = true)
    (held : (world.esconfGPropertyInit channel esconfProperty object objectProperty).memory binding =
      some record) :
    (world.esconfGPropertyInit channel esconfProperty object objectProperty).Linked binding
      record := by
  rw [esconfGPropertyInit_memory] at held
  split at held
  · next new =>
      cases held
      refine ⟨?_, ?_, names⟩
      · rintro (_ | _)
        · refine ⟨object, rfl, objectAlive, ?_⟩
          rw [esconfGPropertyInit_handlers, EsconfGBinding.handler, if_neg (Nat.ne_of_lt
            (Nat.lt_succ_self _)), if_pos rfl, new]
        · refine ⟨channel, rfl, channelAlive, ?_⟩
          rw [esconfGPropertyInit_handlers, EsconfGBinding.handler, if_pos rfl, new]
      · intro other there
        cases there
        exact typed
  · next =>
      have linked := sound.linked binding record held
      refine ⟨?_, linked.channel, linked.names⟩
      intro callback
      obtain ⟨emitter, has, alive, handler⟩ := linked.connected callback
      have small := sound.lt_nextHandler handler
      refine ⟨emitter, has, alive, ?_⟩
      rw [esconfGPropertyInit_handlers, if_neg (by omega), if_neg (by omega), handler]

theorem esconfGPropertyInit_sound (sound : world.Sound) (channelAlive : world.alive channel = true)
    (objectAlive : world.alive object = true) (typed : world.isChannel channel = true)
    (names : arePropertyNames esconfProperty objectProperty = true) :
    (world.esconfGPropertyInit channel esconfProperty object objectProperty).Sound := by
  have unheld := sound.allocated world.nextBinding (Nat.le_refl _)
  refine ⟨⟨?_, ?_, ?_, ?_, ?_⟩, sound.unlocked, ?_⟩
  · intro binding record held
    exact esconfGPropertyInit_linked sound channelAlive objectAlive typed names held
  · intro number handler there
    simp only [esconfGPropertyInit_memory]
    rw [esconfGPropertyInit_handlers] at there
    split at there
    · next here =>
        cases there
        exact ⟨_, if_pos rfl, here.symm⟩
    · split at there
      · next here =>
          cases there
          exact ⟨_, if_pos rfl, here.symm⟩
      · obtain ⟨record, held, same⟩ := sound.owned number handler there
        have small := sound.lt_nextBinding held
        exact ⟨record, by rw [if_neg (Nat.ne_of_lt small), held], same⟩
  · intro number large
    change world.nextHandler + 2 ≤ number at large
    rw [esconfGPropertyInit_handlers, if_neg (by omega), if_neg (by omega)]
    exact sound.numbered number (by omega)
  · intro other large
    change world.nextBinding + 1 ≤ other at large
    rw [esconfGPropertyInit_memory, if_neg (by omega)]
    exact sound.allocated other (by omega)
  · intro other
    rw [esconfGPropertyInit_memory]
    change world.freed.count other = if other < world.nextBinding + 1 ∧ _ then 1 else 0
    rw [sound.freed]
    by_cases new : other = world.nextBinding
    · simp [new]
    · have same : other < world.nextBinding + 1 ↔ other < world.nextBinding := by omega
      simp [new, same]
  · intro other
    rw [esconfGPropertyInit_memory]
    change (world.nextBinding :: world.bindings).count other = _
    rw [List.count_cons, sound.listed]
    by_cases new : other = world.nextBinding
    · simp [new, unheld]
    · simp [new, Ne.symm new]

theorem esconfGPropertyBind_sound (sound : world.Sound) (channelAlive : world.alive channel = true)
    (objectAlive : world.alive object = true) (esconfProperty objectProperty : CString) :
    let after := world.esconfGPropertyBind channel esconfProperty object objectProperty
    after.Sound ∧ world.nextBinding ≤ after.nextBinding ∧
      ∀ binding < world.nextBinding, after.memory binding = world.memory binding := by
  simp only [esconfGPropertyBind]
  split
  · exact ⟨sound, Nat.le_refl _, fun _ _ => rfl⟩
  · next typed =>
      split
      · exact ⟨sound, Nat.le_refl _, fun _ _ => rfl⟩
      · next names =>
          rw [Bool.not_eq_true', Bool.not_eq_false] at typed names
          refine ⟨esconfGPropertyInit_sound sound channelAlive objectAlive typed names,
            Nat.le_succ _, ?_⟩
          intro binding old
          rw [esconfGPropertyInit_memory, if_neg (Nat.ne_of_lt old)]

end

section

variable {world : BindingWorld} {binding : Nat}

structure Settles (world : BindingWorld) (event : Event) (after : BindingWorld) : Prop where
  sound : after.Sound
  nextBinding : world.nextBinding ≤ after.nextBinding
  memory : ∀ binding < world.nextBinding, ∀ record, after.memory binding = some record ↔
    world.memory binding = some record ∧ ¬world.Targets event binding record

theorem Frees.settles {event : Event} {after : BindingWorld}
    (frees : world.Frees (world.Targets event) after) : world.Settles event after :=
  ⟨frees.sound, Nat.le_of_eq frees.nextBinding.symm, fun binding _ => frees.memory binding⟩

theorem step_settles (sound : world.Sound) (event : Event) :
    ∃ after, world.step event = some after ∧ world.Settles event after := by
  cases given : world.Given event with
  | false =>
      refine ⟨world, by simp [step, given], (sound.frees_none ?_).settles⟩
      intro binding record held
      exact targets_given sound given held
  | true =>
      simp only [step, given, Bool.not_true, Bool.false_eq_true, if_false]
      cases event with
      | bind channel esconfProperty object objectProperty =>
          rw [Given, Bool.and_eq_true] at given
          obtain ⟨sane, more, kept⟩ :=
            esconfGPropertyBind_sound sound given.1 given.2 esconfProperty objectProperty
          refine ⟨_, rfl, sane, more, ?_⟩
          intro binding old record
          rw [kept binding old]
          exact ⟨fun held => ⟨held, id⟩, And.left⟩
      | unbind id =>
          obtain ⟨after, done, frees⟩ := unbindFirst_frees sound (hasId id)
          exact ⟨after, done, (frees.congr fun _ _ held => isFirst_hasId sound held id).settles⟩
      | unbindByProperty channel esconfProperty object objectProperty =>
          obtain ⟨after, done, frees⟩ := esconfGPropertyUnbindByProperty_frees sound channel
            esconfProperty object objectProperty
          exact ⟨after, done, frees.settles⟩
      | unbindAll emitter order =>
          obtain ⟨after, done, frees⟩ := esconfGPropertyUnbindAll_frees sound emitter order
          exact ⟨after, done, frees.settles⟩
      | destroy emitter order =>
          obtain ⟨after, done, frees⟩ := gObjectDestroy_frees sound emitter order
          exact ⟨after, done, frees.settles⟩
      | shutdown =>
          obtain ⟨after, done, frees⟩ := shutdown_frees sound
          exact ⟨after, done, frees.settles⟩

theorem new_sound (isChannel alive : Nat → Bool) : (new isChannel alive).Sound :=
  ⟨⟨nofun, nofun, fun _ _ => rfl, fun _ _ => rfl, fun _ => rfl⟩, rfl, fun _ => rfl⟩

theorem run_sound (sound : world.Sound) (events : List Event) :
    ∃ after, world.run events = some after ∧ after.Sound := by
  induction events generalizing world with
  | nil => exact ⟨world, rfl, sound⟩
  | cons event events ih =>
      obtain ⟨next, done, settles⟩ := step_settles sound event
      obtain ⟨after, ran, sane⟩ := ih settles.sound
      refine ⟨after, ?_, sane⟩
      rw [run, List.foldlM_cons, done]
      exact ran

/-- The binding is in the list once, its handlers are connected to its object and its channel,
and it has not been freed. -/
def Bound (world : BindingWorld) (binding : Nat) : Prop :=
  ∃ record, world.memory binding = some record ∧ world.Linked binding record ∧
    world.bindings.count binding = 1 ∧ world.freed.count binding = 0

/-- The binding is not in the list, no handler is left of it, and it has been freed once. -/
def TornDown (world : BindingWorld) (binding : Nat) : Prop :=
  world.memory binding = none ∧ binding ∉ world.bindings ∧
    (∀ number handler, world.handlers number = some handler → handler.binding ≠ binding) ∧
    world.freed.count binding = 1

theorem Sound.bound (sound : world.Sound) {record : EsconfGBinding}
    (held : world.memory binding = some record) : world.Bound binding := by
  refine ⟨record, held, sound.linked binding record held, ?_, ?_⟩
  · simp [sound.listed, held]
  · simp [sound.freed, held]

theorem Sound.tornDown (sound : world.Sound) (made : binding < world.nextBinding)
    (gone : world.memory binding = none) : world.TornDown binding := by
  refine ⟨gone, ?_, ?_, ?_⟩
  · rw [sound.mem_bindings, gone]
    exact nofun
  · rintro number handler there rfl
    obtain ⟨record, held, _⟩ := sound.owned number handler there
    cases gone.symm.trans held
  · simp [sound.freed, made, gone]

end

/-- Whatever happens, nothing faults, and every binding that was made is bound, or torn down
once. An event tears down the bindings it is about, and keeps the others as they are. -/
theorem bindings_torn_down_once (isChannel alive : Nat → Bool) (events : List Event) :
    ∃ world, (new isChannel alive).run events = some world ∧
      (∀ binding < world.nextBinding, world.Bound binding ∨ world.TornDown binding) ∧
      ∀ event, ∃ after, world.step event = some after ∧
        (∀ binding record, world.memory binding = some record →
          world.Targets event binding record → after.TornDown binding) ∧
        (∀ binding record, world.memory binding = some record →
          ¬world.Targets event binding record →
            after.memory binding = some record ∧ after.Bound binding) ∧
        ∀ binding, world.TornDown binding → after.TornDown binding := by
  obtain ⟨world, ran, sound⟩ := run_sound (new_sound isChannel alive) events
  refine ⟨world, ran, ?_, ?_⟩
  · intro binding made
    cases held : world.memory binding with
    | none => exact Or.inr (sound.tornDown made held)
    | some record => exact Or.inl (sound.bound held)
  · intro event
    obtain ⟨after, done, settles⟩ := step_settles sound event
    -- A binding that was made, and is not in memory after the event.
    have gone (binding : Nat) (made : binding < world.nextBinding)
        (missing : ∀ record, world.memory binding = some record →
          world.Targets event binding record) : after.TornDown binding := by
      refine settles.sound.tornDown (Nat.lt_of_lt_of_le made settles.nextBinding) ?_
      rw [Option.eq_none_iff_forall_ne_some]
      intro record held
      obtain ⟨before, kept⟩ := (settles.memory binding made record).mp held
      exact kept (missing record before)
    refine ⟨after, done, ?_, ?_, ?_⟩
    · intro binding record held target
      refine gone binding (sound.lt_nextBinding held) fun other there => ?_
      obtain rfl := Option.some.inj (held.symm.trans there)
      exact target
    · intro binding record held aside
      have kept := (settles.memory binding (sound.lt_nextBinding held) record).mpr ⟨held, aside⟩
      exact ⟨kept, settles.sound.bound kept⟩
    · rintro binding ⟨missing, _, _, once⟩
      refine gone binding ?_ fun record there => nomatch missing.symm.trans there
      have freed := sound.freed binding
      rw [once] at freed
      by_contra large
      simp [large] at freed

/-- Two bindings of one object, whose channel goes first, then the object, then the library. -/
example : ((new (· == 0) fun _ => true).run
    [.bind 0 "/a".toList 1 "a".toList, .bind 2 "/b".toList 1 "b".toList,
      .bind 0 "/b".toList 1 "b".toList, .destroy 0 [4], .destroy 1 [], .shutdown]).map
    (fun world => (world.nextBinding, world.bindings, world.freed)) =
      some (2, [], [1, 0]) := by
  decide

end BindingWorld

end Esconf.Client
