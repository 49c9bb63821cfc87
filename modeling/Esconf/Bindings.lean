import Esconf.CString
import Mathlib.Logic.Function.Basic

/-! The bindings of channels to objects, `esconf/esconf-binding.c`, and the signal handlers of
GObject that hold them. A fault (a record that has been freed, an instance that has been
destroyed, a lock that is taken twice) is `none`. -/

namespace Esconf.Client

/-- An `EsconfGBinding`, with its handlers of signals of the object and the channel. -/
structure EsconfGBinding where
  channel : Option Nat
  esconfProperty : CString
  channelHandler : Nat
  object : Option Nat
  objectProperty : CString
  objectHandler : Nat

/-- `esconf_g_property_object_notify` and `esconf_g_property_channel_notify`. -/
inductive BindingCallback where
  | objectNotify
  | channelNotify
  deriving DecidableEq

/-- A handler of a signal of `emitter`. The callback has the disconnect of its name as its
destroy notification (`destroyNotify`), with the same binding. -/
structure SignalHandler where
  emitter : Nat
  callback : BindingCallback
  binding : Nat

/-- What a process has of GObject and of bindings. `bindings` is the global list, and `freed`
are the records given to `g_slice_free`. -/
structure BindingWorld where
  isChannel : Nat → Bool
  alive : Nat → Bool
  handlers : Nat → Option SignalHandler
  nextHandler : Nat
  memory : Nat → Option EsconfGBinding
  nextBinding : Nat
  bindings : List Nat
  locked : Bool
  freed : List Nat

namespace BindingWorld

def new (isChannel alive : Nat → Bool) : BindingWorld :=
  ⟨isChannel, alive, fun _ => none, 1, fun _ => none, 0, [], false, []⟩

/-- `G_IS_OBJECT`. -/
def gIsObject (world : BindingWorld) : Option Nat → Option Bool
  | none => some false
  | some object => if world.alive object then some true else none

/-- `ESCONF_IS_CHANNEL`. -/
def esconfIsChannel (world : BindingWorld) : Option Nat → Option Bool
  | none => some false
  | some channel => if world.alive channel then some (world.isChannel channel) else none

/-- `G_LOCK(__bindings)`; a thread that has the lock waits for ever. -/
def lockBindings (world : BindingWorld) : Option BindingWorld :=
  if world.locked then none else some { world with locked := true }

/-- `G_UNLOCK(__bindings)`. -/
def unlockBindings (world : BindingWorld) : BindingWorld :=
  { world with locked := false }

def setBinding (world : BindingWorld) (binding : Nat) (record : EsconfGBinding) : BindingWorld :=
  { world with memory := Function.update world.memory binding (some record) }

/-- `g_slice_free`. -/
def freeBinding (world : BindingWorld) (binding : Nat) : Option BindingWorld :=
  (world.memory binding).map fun _ =>
    { world with
      memory := Function.update world.memory binding none
      freed := world.freed ++ [binding] }

def removeBinding (world : BindingWorld) (binding : Nat) : Option BindingWorld :=
  if world.bindings.isEmpty then some world
  else world.lockBindings.map fun world =>
    { world with bindings := world.bindings.erase binding }.unlockBindings

section

-- `g_signal_handler_disconnect`, of an instance and a handler.
variable (disconnect : BindingWorld → Nat → Nat → Option BindingWorld)

/-- `esconf_g_property_object_disconnect`. -/
def esconfGPropertyObjectDisconnect (world : BindingWorld) (binding : Nat) :
    Option BindingWorld := do
  let record ← world.memory binding
  if !(← world.gIsObject record.object) then return world
  if !(record.channel.isNone || (← world.esconfIsChannel record.channel)) then return world
  let world ← world.removeBinding binding
  let world := world.setBinding binding { record with object := none }
  -- The handler of the channel goes too; its notification finds no object any more.
  let world ← match record.channel with
    | none => some world
    | some channel => disconnect world channel record.channelHandler
  world.freeBinding binding

/-- `esconf_g_property_channel_disconnect`. -/
def esconfGPropertyChannelDisconnect (world : BindingWorld) (binding : Nat) :
    Option BindingWorld := do
  let record ← world.memory binding
  if !(← world.esconfIsChannel record.channel) then return world
  if !(record.object.isNone || (← world.gIsObject record.object)) then return world
  let world := world.setBinding binding { record with channel := none }
  match record.object with
  | none => some world
  | some object => disconnect world object record.objectHandler

/-- The destroy notification of the handler with the callback. -/
def destroyNotify (world : BindingWorld) (binding : Nat) : BindingCallback → Option BindingWorld
  | .objectNotify => esconfGPropertyObjectDisconnect disconnect world binding
  | .channelNotify => esconfGPropertyChannelDisconnect disconnect world binding

end

def removeHandler (world : BindingWorld) (number : Nat) : BindingWorld :=
  { world with handlers := Function.update world.handlers number none }

/-- `g_signal_handler_disconnect`: the handler is gone when its destroy notification runs, which
may disconnect another. `depth` bounds how many run inside each other. -/
def gSignalHandlerDisconnect : Nat → BindingWorld → Nat → Nat → Option BindingWorld
  | 0, _, _, _ => none
  | depth + 1, world, emitter, number =>
    if !world.alive emitter then none
    else
      match world.handlers number with
      | none => some world
      | some handler =>
        if handler.emitter ≠ emitter then some world
        else
          destroyNotify (gSignalHandlerDisconnect depth) (world.removeHandler number)
            handler.binding handler.callback

/-- The handler of the object and the one of the channel. -/
def disconnectDepth : Nat := 2

def arePropertyNames (esconfProperty objectProperty : CString) : Bool :=
  esconfProperty.head? == some '/' && !objectProperty.isEmpty

/-- `esconf_g_property_init`. -/
def esconfGPropertyInit (world : BindingWorld) (channel : Nat) (esconfProperty : CString)
    (object : Nat) (objectProperty : CString) : BindingWorld :=
  let objectHandler := world.nextHandler
  let channelHandler := world.nextHandler + 1
  { world with
    handlers := Function.update
      (Function.update world.handlers objectHandler
        (some ⟨object, .objectNotify, world.nextBinding⟩))
      channelHandler (some ⟨channel, .channelNotify, world.nextBinding⟩)
    nextHandler := world.nextHandler + 2
    memory := Function.update world.memory world.nextBinding (some
      ⟨some channel, esconfProperty, channelHandler, some object, objectProperty, objectHandler⟩)
    nextBinding := world.nextBinding + 1
    bindings := world.nextBinding :: world.bindings }

/-- `esconf_g_property_bind` of properties that exist and have types that go together, and the
other two functions that bind. -/
def esconfGPropertyBind (world : BindingWorld) (channel : Nat) (esconfProperty : CString)
    (object : Nat) (objectProperty : CString) : BindingWorld :=
  if !world.isChannel channel then world
  else if !arePropertyNames esconfProperty objectProperty then world
  else world.esconfGPropertyInit channel esconfProperty object objectProperty

/-- `g_signal_handler_disconnect` with the object and the handler of a binding. -/
def disconnectObject (world : BindingWorld) (binding : Nat) : Option BindingWorld := do
  let record ← world.memory binding
  match record.object with
  | none => some world
  | some object => gSignalHandlerDisconnect disconnectDepth world object record.objectHandler

/-- The loop of `_esconf_g_bindings_shutdown`. -/
def disconnectObjects : List Nat → BindingWorld → Option BindingWorld
  | [], world => some world
  | binding :: bindings, world =>
    (world.disconnectObject binding).bind (disconnectObjects bindings)

/-- `_esconf_g_bindings_shutdown`. -/
def esconfGBindingsShutdown (world : BindingWorld) : Option BindingWorld :=
  if world.bindings.isEmpty then some world
  else do
    let world ← world.lockBindings
    -- The lock is held here, so that the list has to be empty for the disconnects.
    let world ← disconnectObjects world.bindings { world with bindings := [] }
    return world.unlockBindings

def findBinding (world : BindingWorld) (wanted : EsconfGBinding → Bool) :
    List Nat → Option (Option Nat)
  | [] => some none
  | binding :: bindings => do
    let record ← world.memory binding
    if wanted record then return some binding
    world.findBinding wanted bindings

def unbindFirst (world : BindingWorld) (wanted : EsconfGBinding → Bool) :
    Option BindingWorld := do
  let world ← world.lockBindings
  let found ← world.findBinding wanted world.bindings
  let world := world.unlockBindings
  match found with
  | none => some world
  | some binding => world.disconnectObject binding

def hasId (id : Nat) (record : EsconfGBinding) : Bool :=
  record.channelHandler == id

/-- `esconf_g_property_unbind`. -/
def esconfGPropertyUnbind (world : BindingWorld) (id : Nat) : Option BindingWorld :=
  world.unbindFirst (hasId id)

def hasProperties (channel : Nat) (esconfProperty : CString) (object : Nat)
    (objectProperty : CString) (record : EsconfGBinding) : Bool :=
  record.object == some object && record.channel == some channel &&
    esconfProperty == record.esconfProperty && objectProperty == record.objectProperty

/-- `esconf_g_property_unbind_by_property`. -/
def esconfGPropertyUnbindByProperty (world : BindingWorld) (channel : Nat)
    (esconfProperty : CString) (object : Nat) (objectProperty : CString) :
    Option BindingWorld :=
  if !world.isChannel channel then some world
  else if !arePropertyNames esconfProperty objectProperty then some world
  else world.unbindFirst (hasProperties channel esconfProperty object objectProperty)

/-- The handlers of the list that are an instance's, with a callback that is wanted, are
disconnected as long as they are there. -/
def disconnectMatched (emitter : Nat) (wanted : BindingCallback → Bool) :
    List Nat → BindingWorld → Option BindingWorld
  | [], world => some world
  | number :: numbers, world =>
    (match world.handlers number with
    | none => some world
    | some handler =>
      if handler.emitter = emitter ∧ wanted handler.callback then
        gSignalHandlerDisconnect disconnectDepth world emitter number
      else some world).bind (disconnectMatched emitter wanted numbers)

/-- All handlers, those of `order` first: GObject may take them in any order. -/
def handlersFrom (world : BindingWorld) (order : List Nat) : List Nat :=
  order ++ List.range world.nextHandler

/-- The callback that `esconf_g_property_unbind_all` looks for. -/
def unboundCallback (world : BindingWorld) (emitter : Nat) : BindingCallback :=
  if world.isChannel emitter then .channelNotify else .objectNotify

/-- `esconf_g_property_unbind_all`. -/
def esconfGPropertyUnbindAll (world : BindingWorld) (emitter : Nat) (order : List Nat) :
    Option BindingWorld :=
  disconnectMatched emitter (· == world.unboundCallback emitter) (world.handlersFrom order) world

def gObjectDestroy (world : BindingWorld) (emitter : Nat) (order : List Nat) :
    Option BindingWorld :=
  (disconnectMatched emitter (fun _ => true) (world.handlersFrom order) world).map fun world =>
    { world with alive := Function.update world.alive emitter false }

/-- What the program does with its instances and bindings. -/
inductive Event where
  | bind (channel : Nat) (esconfProperty : CString) (object : Nat) (objectProperty : CString)
  | unbind (id : Nat)
  | unbindByProperty (channel : Nat) (esconfProperty : CString) (object : Nat)
      (objectProperty : CString)
  | unbindAll (emitter : Nat) (order : List Nat)
  | destroy (emitter : Nat) (order : List Nat)
  | shutdown

def Given (world : BindingWorld) : Event → Bool
  | .bind channel _ object _ | .unbindByProperty channel _ object _ =>
    world.alive channel && world.alive object
  | .unbindAll emitter _ | .destroy emitter _ => world.alive emitter
  | .unbind _ | .shutdown => true

/-- With an instance that is not there nothing is done. -/
def step (world : BindingWorld) (event : Event) : Option BindingWorld :=
  if !world.Given event then some world
  else
    match event with
    | .bind channel esconfProperty object objectProperty =>
      some (world.esconfGPropertyBind channel esconfProperty object objectProperty)
    | .unbind id => world.esconfGPropertyUnbind id
    | .unbindByProperty channel esconfProperty object objectProperty =>
      world.esconfGPropertyUnbindByProperty channel esconfProperty object objectProperty
    | .unbindAll emitter order => world.esconfGPropertyUnbindAll emitter order
    | .destroy emitter order => world.gObjectDestroy emitter order
    | .shutdown => world.esconfGBindingsShutdown

def run (world : BindingWorld) (events : List Event) : Option BindingWorld :=
  events.foldlM step world

end BindingWorld

end Esconf.Client
