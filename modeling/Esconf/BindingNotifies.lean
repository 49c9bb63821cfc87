import Esconf.Bindings
import Esconf.BusEncoding
import Esconf.CacheRuns
import Esconf.Library.Settling

/-! What bindings carry over, `esconf/esconf-binding.c`: the two notifications, the sets they
make, and the notifications these cause in turn. -/

namespace Esconf.Client

inductive PropertyType where
  | plain (type : GType)
  | gdkColor
  | gdkRgba

inductive ObjectValue where
  | plain (value : GValue)
  | gdkColor (color : Option (UInt16 × UInt16 × UInt16))
  | gdkRgba (color : Option (UInt64 × UInt64 × UInt64 × UInt64))
  deriving DecidableEq

/-- The types of GLib and the classes of the objects: `transform` is `g_value_transform`, and
`explicitNotify` are the properties with G_PARAM_EXPLICIT_NOTIFY. -/
structure ObjectSystem where
  transform : GValue → GType → Option GValue
  isBoxed : GType → Bool
  valueType : Nat → CString → PropertyType
  default : Nat → CString → GValue
  explicitNotify : Nat → CString → Bool

/-- The value that `esconf_g_property_object_notify` sets, if it sets one. -/
def ObjectSystem.toChannel (system : ObjectSystem) (esconfType objectType : PropertyType)
    (value : ObjectValue) : Option GValue :=
  match objectType, value with
  | .gdkColor, .gdkColor (some (red, green, blue)) =>
    (arrayValues [.uint16 red, .uint16 green, .uint16 blue, .uint16 0xffff]).map .ptrArray
  | .gdkRgba, .gdkRgba (some (red, green, blue, alpha)) =>
    (arrayValues [.double red, .double green, .double blue, .double alpha]).map .ptrArray
  | .plain _, .plain value =>
    match esconfType with
    | .plain type => system.transform value type
    | _ => none
  | _, _ => none

/-- `g_value_get_boxed` taken for a GPtrArray; a list of strings is none. -/
def boxedArray : GValue → Option (Option (List GValue))
  | .ptrArray arr => some (some arr)
  | .strv _ => none
  | _ => some none

/-- `g_value_get_uint`: 0 for a value of another type. -/
def gValueGetUint : GValue → UInt32
  | .uint n => n
  | _ => 0

/-- `g_value_get_double`: 0 for a value of another type. -/
def gValueGetDouble : GValue → UInt64
  | .double bits => bits
  | _ => 0

/-- The value that `esconf_g_property_channel_notify` sets, if it sets one; a type confusion is
a fault. -/
def ObjectSystem.toObject (system : ObjectSystem) (esconfType objectType : PropertyType)
    (default value : GValue) : Option (Option ObjectValue) :=
  match esconfType with
  | .gdkColor =>
    if !value.isSet then some none
    else (boxedArray value).map fun arr =>
      match arr with
      | some (red :: green :: blue :: _) =>
        some (.gdkColor (some ((gValueGetUint red).toUInt16, (gValueGetUint green).toUInt16,
          (gValueGetUint blue).toUInt16)))
      | _ => none
  | .gdkRgba =>
    if !value.isSet then some none
    else (boxedArray value).map fun arr =>
      match arr with
      | some (red :: green :: blue :: alpha :: _) =>
        some (.gdkRgba (some (gValueGetDouble red, gValueGetDouble green, gValueGetDouble blue,
          gValueGetDouble alpha)))
      | _ => none
  | .plain _ =>
    match objectType with
    | .plain type =>
      if !value.isSet then some (if system.isBoxed type then none else some (.plain default))
      else some ((system.transform value type).map .plain)
    | _ => some none

/-- A channel object and the calls of its cache whose callbacks have not run. -/
structure BoundChannel where
  propertyBase : Option CString
  client : CacheClient

def BoundChannel.channel (bound : BoundChannel) : EsconfChannel :=
  ⟨bound.client.cache.channelName, bound.propertyBase, bound.client.cache, rfl⟩

/-- What is still to do in a process. `notify` may be emitted again when the handler that runs
has returned, and a handler that was blocked is unblocked. -/
inductive Task where
  | notify (object : Nat) (name : CString) (handlers : List Nat) (again : Bool)
  | propertyChanged (value : GValue) (handlers : List Nat)
  | unblock (handler : Nat)

/-- The bindings, the channels and objects they bind, how often each handler is blocked, and
the emissions there are, the innermost first. -/
structure BoundWorld where
  bindings : BindingWorld
  esconfTypes : Nat → PropertyType
  channels : Nat → BoundChannel
  values : Nat → CString → ObjectValue
  blocks : Nat → Nat
  running : List Task

namespace BoundWorld

def detail (record : EsconfGBinding) : BindingCallback → CString
  | .objectNotify => record.objectProperty
  | .channelNotify => record.esconfProperty

def hears (world : BindingWorld) (emitter : Nat) (callback : BindingCallback) (name : CString)
    (number : Nat) : Bool :=
  match world.handlers number with
  | none => false
  | some handler =>
    match world.memory handler.binding with
    | none => false
    | some record =>
      handler.emitter == emitter && handler.callback == callback && detail record callback == name

def handlersOf (world : BindingWorld) (emitter : Nat) (callback : BindingCallback)
    (name : CString) : List Nat :=
  (List.range world.nextHandler).filter (hears world emitter callback name)

/-- `g_signal_handler_block`. -/
def block (world : BoundWorld) (handler : Nat) : BoundWorld :=
  { world with
    blocks := Function.update world.blocks handler (world.blocks handler + 1)
    running := .unblock handler :: world.running }

/-- `g_signal_handler_unblock`. -/
def unblock (world : BoundWorld) (handler : Nat) : BoundWorld :=
  { world with blocks := Function.update world.blocks handler (world.blocks handler - 1) }

/-- The emission of `notify` for the property that is running, if there is one, starts again. -/
def notifyAgain (object : Nat) (name : CString) : List Task → Option (List Task)
  | [] => none
  | .notify other property handlers again :: rest =>
    if other = object ∧ property = name then some (.notify other property handlers true :: rest)
    else (notifyAgain object name rest).map (.notify other property handlers again :: ·)
  | task :: rest => (notifyAgain object name rest).map (task :: ·)

/-- `notify` is emitted for a property; it has G_SIGNAL_NO_RECURSE. -/
def emitNotify (world : BoundWorld) (object : Nat) (name : CString) : BoundWorld :=
  match notifyAgain object name world.running with
  -- The emission that runs starts again when its handler has returned.
  | some running => { world with running }
  | none =>
    { world with
      running := .notify object name (handlersOf world.bindings object .objectNotify name) false ::
        world.running }

def setValue (world : BoundWorld) (object : Nat) (name : CString) (value : ObjectValue) :
    BoundWorld :=
  { world with
    values := Function.update world.values object
      (Function.update (world.values object) name value) }

/-- `g_object_set_property` on an object that keeps what it is given. -/
def gObjectSetProperty (system : ObjectSystem) (world : BoundWorld) (object : Nat)
    (name : CString) (value : ObjectValue) : BoundWorld :=
  let still := world.values object name == value
  if system.explicitNotify object name && still then world.setValue object name value
  else (world.setValue object name value).emitNotify object name

def setClient (world : BoundWorld) (channel : Nat) (client : CacheClient) : BoundWorld :=
  { world with
    channels := Function.update world.channels channel { world.channels channel with client } }

def emitPropertyChanged (world : BoundWorld) (channel : Nat) (announced : Announced) :
    BoundWorld :=
  match (world.channels channel).channel.announce announced with
  | none => world
  | some (property, value) =>
    { world with
      running := .propertyChanged value
        (handlersOf world.bindings channel .channelNotify property) :: world.running }

/-- `esconf_channel_set_property`; `none` when the old item has been freed. -/
def esconfChannelSetProperty (host : Host) (daemon : Daemon) (world : BoundWorld) (channel : Nat)
    (property : CString) (value : GValue) : Option BoundWorld :=
  let bound := world.channels channel
  let realProperty := bound.channel.realProp property
  (esconfCacheSet host bound.client.cache realProperty value
    (daemon.getProperty bound.client.cache.channelName realProperty)).map fun outcome =>
      (world.setClient channel ⟨outcome.cache, bound.client.calls ++ outcome.call.toList⟩)
        |>.emitPropertyChanged channel outcome.announced

/-- `esconf_g_property_object_notify`. -/
def esconfGPropertyObjectNotify (system : ObjectSystem) (host : Host) (daemon : Daemon)
    (world : BoundWorld) (binding : Nat) : Option BoundWorld := do
  let record ← world.bindings.memory binding
  match record.object, record.channel with
  | some object, some channel =>
    match system.toChannel (world.esconfTypes binding)
        (system.valueType object record.objectProperty)
        (world.values object record.objectProperty) with
    | none => some world
    | some value =>
      -- The other end is blocked while the value is on its way.
      (world.block record.channelHandler).esconfChannelSetProperty host daemon channel
        record.esconfProperty value
  | _, _ => some world

/-- `esconf_g_property_channel_notify`. -/
def esconfGPropertyChannelNotify (system : ObjectSystem) (world : BoundWorld) (binding : Nat)
    (value : GValue) : Option BoundWorld := do
  let record ← world.bindings.memory binding
  match record.object, record.channel with
  | some object, some _ =>
    match ← system.toObject (world.esconfTypes binding)
        (system.valueType object record.objectProperty)
        (system.default object record.objectProperty) value with
    | none => some world
    | some carried =>
      some ((world.block record.objectHandler).gObjectSetProperty system object
        record.objectProperty carried)
  | _, _ => some world

section

variable (system : ObjectSystem) (host : Host) (daemon : Daemon)

def runHandler (world : BoundWorld) (number : Nat)
    (callback : BoundWorld → Nat → Option BoundWorld) : Option BoundWorld :=
  if 0 < world.blocks number then some world
  else
    match world.bindings.handlers number with
    -- The handler has been disconnected since the emission began.
    | none => some world
    | some handler => callback world handler.binding

def step (world : BoundWorld) : Option BoundWorld :=
  match world.running with
  | [] => some world
  | .notify object name _ true :: rest =>
    some { world with
      running := .notify object name (handlersOf world.bindings object .objectNotify name) false ::
        rest }
  | .notify _ _ [] false :: rest => some { world with running := rest }
  | .notify object name (number :: numbers) false :: rest =>
    { world with running := .notify object name numbers false :: rest }.runHandler number
      (esconfGPropertyObjectNotify system host daemon)
  | .propertyChanged _ [] :: rest => some { world with running := rest }
  | .propertyChanged value (number :: numbers) :: rest =>
    { world with running := .propertyChanged value numbers :: rest }.runHandler number
      fun world binding => world.esconfGPropertyChannelNotify system binding value
  | .unblock handler :: rest => some ({ world with running := rest }.unblock handler)

/-- The emissions run to their end, if that takes no more than `fuel` steps. -/
def settle (fuel : Nat) (world : BoundWorld) : Option BoundWorld :=
  Settling.settle (step system host daemon) (fun world => world.running.isEmpty) fuel world

end

/-- What the program does with the properties, and what the daemon sends. -/
inductive Event where
  | setObject (object : Nat) (name : CString) (value : ObjectValue)
  | setChannel (channel : Nat) (property : CString) (value : GValue)
  | getChannel (channel : Nat) (property : CString)
  | resetChannel (channel : Nat) (propertyBase : CString) (recursive : Bool)
  | propertyChanged (channel : Nat) (channelName property : CString) (propVariant : GVariant)
  | propertyRemoved (channel : Nat) (channelName property : CString)
  | callback (channel index : Nat) (finish : Except DBusError Unit)
  | bind (channel : Nat) (esconfProperty : CString) (esconfType : PropertyType) (object : Nat)
      (objectProperty : CString)
  | unbind (id : Nat)
  | unbindByProperty (channel : Nat) (esconfProperty : CString) (object : Nat)
      (objectProperty : CString)
  | unbindAll (emitter : Nat) (order : List Nat)
  | destroy (emitter : Nat) (order : List Nat)
  | shutdown

/-- The channel's property is carried over to the object before the channel is listened to:
until then the handler, which has a number already, is blocked. -/
def transfer (system : ObjectSystem) (daemon : Daemon) (world : BoundWorld)
    (binding : Nat) : Option BoundWorld := do
  let record ← world.bindings.memory binding
  match record.channel with
  | none => some world
  | some channel =>
    let bound := world.channels channel
    let looked := lookupIn daemon bound.client.cache (bound.channel.realProp record.esconfProperty)
    let world := world.setClient channel { bound.client with cache := looked.cache }
    match looked.ret with
    | none => some world
    | some value =>
      (world.block record.channelHandler).esconfGPropertyChannelNotify system binding value

/-- What an event does before the emissions it starts run. -/
def start (system : ObjectSystem) (host : Host) (daemon : Daemon) (world : BoundWorld) :
    Event → Option BoundWorld
  | .setObject object name value =>
    if world.bindings.alive object then some (world.gObjectSetProperty system object name value)
    else some world
  | .setChannel channel property value =>
    if world.bindings.alive channel then
      world.esconfChannelSetProperty host daemon channel property value
    else some world
  | .getChannel channel property =>
    let bound := world.channels channel
    let looked := lookupIn daemon bound.client.cache (bound.channel.realProp property)
    some (world.setClient channel { bound.client with cache := looked.cache })
  | .resetChannel channel propertyBase recursive =>
    let bound := world.channels channel
    let reset := esconfChannelResetProperty daemon bound.channel propertyBase recursive
    some (world.setClient channel { bound.client with cache := reset.cache })
  | .propertyChanged channel channelName property propVariant =>
    let client := (world.channels channel).client
    let handled := esconfCacheHandlePropertyChanged client.cache channelName property propVariant
    some ((world.setClient channel { client with cache := handled.1 }).emitPropertyChanged channel
      handled.2)
  | .propertyRemoved channel channelName property =>
    let client := (world.channels channel).client
    let handled := esconfCacheHandlePropertyRemoved client.cache channelName property
    some ((world.setClient channel { client with cache := handled.1 }).emitPropertyChanged channel
      handled.2)
  | .callback channel index finish =>
    let client := (world.channels channel).client
    match client.calls[index]? with
    | none => some world
    | some call =>
      (esconfCacheSetPropertyReplyHandler client.cache call.userData finish).map fun settled =>
        (world.setClient channel ⟨settled.1, client.calls.eraseIdx index⟩).emitPropertyChanged
          channel settled.2
  | .bind channel esconfProperty esconfType object objectProperty =>
    let binding := world.bindings.nextBinding
    (world.bindings.step (.bind channel esconfProperty object objectProperty)).bind fun bindings =>
      if bindings.nextBinding = binding then some { world with bindings }
      else
        { world with
          bindings, esconfTypes := Function.update world.esconfTypes binding esconfType }.transfer
            system daemon binding
  | .unbind id =>
    (world.bindings.step (.unbind id)).map fun bindings => { world with bindings }
  | .unbindByProperty channel esconfProperty object objectProperty =>
    (world.bindings.step (.unbindByProperty channel esconfProperty object objectProperty)).map
      fun bindings => { world with bindings }
  | .unbindAll emitter order =>
    (world.bindings.step (.unbindAll emitter order)).map fun bindings => { world with bindings }
  | .destroy emitter order =>
    (world.bindings.step (.destroy emitter order)).map fun bindings => { world with bindings }
  | .shutdown =>
    (world.bindings.step .shutdown).map fun bindings => { world with bindings }

def perform (system : ObjectSystem) (host : Host) (daemon : Daemon) (fuel : Nat)
    (world : BoundWorld) (event : Event) : Option BoundWorld :=
  (world.start system host daemon event).bind (settle system host daemon fuel)

end BoundWorld

end Esconf.Client
