import Esconf.CacheRuns
import Esconf.Library.WriteThrough

/-! One property of one channel, the daemon that has it, and a client with a cache:
the requests, answers and signals between `esconf/esconf-cache.c` and
`esconfd/esconf-daemon.c`. -/

namespace Esconf

/-- A request of the client; what a reset leaves is up to the system files. -/
inductive BusRequest where
  | setProperty (serial : Nat) (variant : GVariant)
  | getProperty
  | resetProperty (left : Option GValue)

inductive BusMessage where
  | setPropertyReply (serial : Nat)
  | propertyChanged (variant : GVariant)
  | propertyRemoved

inductive ClientCall where
  | set (value : GValue)
  | lookup
  | reset (left : Option GValue)

inductive BusAnswer where
  | property (reply : Except DBusError GVariant)
  | resetDone

def internalErrorReply : DBusError :=
  ⟨some "com.expidus.Esconf.Error.InternalError".toList, []⟩

def cancelledReply : DBusError := ⟨none, "Operation was cancelled".toList⟩

/-- `esconf_get_property` with the value of the backend. -/
def esconfGetProperty (host : Host) (value : Option GValue) : Except DBusError GVariant :=
  match value with
  | none => .error propertyNotFoundReply
  | some value =>
    match esconfGvalueToGvariant host value with
    | some val => .ok (.variant val)
    | none => .error internalErrorReply

/-- `esconf_daemon_emit_property_changed_idled` with the value of the backend. -/
def esconfDaemonEmitPropertyChangedIdled (host : Host) (value : Option GValue) :
    List BusMessage :=
  match value with
  | none => [.propertyRemoved]
  | some value =>
    match esconfGvalueToGvariant host value with
    | some val => [.propertyChanged val]
    | none => []

/-- Whether a change of the backend calls `esconf_daemon_backend_property_changed`. -/
def backendChanges : Option GValue → Option GValue → Bool
  | some before, some after => !before.isEqual after
  | none, none => false
  | _, _ => true

/-- `value` is the property in the daemon and `idles` counts its idle functions
still to run. `calls` are the calls whose callbacks have not run, with their
serials, and `blocked` is the call the client has not returned from. `lastSet` is
the value of the last set that returned TRUE; nothing reads it. -/
structure CacheProtocol where
  value : Option GValue
  idles : Nat
  requests : List BusRequest
  messages : List BusMessage
  cache : EsconfCache
  calls : List (Nat × SetPropertyCall)
  serial : Nat
  blocked : Option (WriteThrough.Waiting ClientCall BusAnswer)
  lastSet : Option GValue

/-- `other` is a set or a reset by another client. -/
inductive ProtocolEvent where
  | process
  | idle
  | other (value : Option GValue)
  | deliver
  | callback
  | begin (call : ClientCall)
  | resume

namespace CacheProtocol

def start (channelName property : CString) (value cached : Option GValue) : CacheProtocol :=
  { value, idles := 0, requests := [], messages := [],
    cache := { EsconfCache.new channelName with
      properties := Function.update (fun _ => none) property cached },
    calls := [], serial := 0, blocked := none, lastSet := none }

def Quiescent (c : CacheProtocol) : Prop :=
  c.idles = 0 ∧ c.requests = [] ∧ c.messages = [] ∧ c.calls = [] ∧ c.blocked = none

/-- `esconf_daemon_backend_property_changed` adds an idle function. -/
def store (c : CacheProtocol) (value : Option GValue) : CacheProtocol :=
  { c with value, idles := if backendChanges c.value value then c.idles + 1 else c.idles }

/-- The answer comes after the messages there are. -/
def answer (c : CacheProtocol) (answer : BusAnswer) : CacheProtocol :=
  { c with blocked := c.blocked.map fun waiting => (waiting.1, some (answer, c.messages.length)) }

variable (host : Host) (property : CString)

def handle (c : CacheProtocol) : BusRequest → Option CacheProtocol
  | .setProperty serial variant =>
    (esconfGvariantToGvalue variant).map fun value =>
      { c.store (some value) with messages := c.messages ++ [.setPropertyReply serial] }
  | .getProperty => some (c.answer (.property (esconfGetProperty host c.value)))
  | .resetProperty left => some ((c.store left).answer .resetDone)

/-- The reply to a call that was cancelled is dropped; the callback of another call
has to come after those of the calls before it. -/
def reply (c : CacheProtocol) (serial : Nat) : Option CacheProtocol :=
  match c.calls.find? (·.1 == serial) with
  | none => some c
  | some (_, call) =>
    if c.cache.cancelled call.cancellable then some c
    else match c.calls with
      | [] => none
      | (first, call) :: rest =>
        if first = serial then
          (esconfCacheSetPropertyReplyHandler c.cache call.userData (.ok ())).map fun settled =>
            { c with cache := settled.1, calls := rest }
        else none

/-- `esconf_cache_proxy_signal_received_cb` for the signals. -/
def receive (c : CacheProtocol) : BusMessage → Option CacheProtocol
  | .setPropertyReply serial => c.reply serial
  | .propertyChanged variant => some { c with
      cache := (esconfCacheHandlePropertyChanged c.cache c.cache.channelName property variant).1 }
  | .propertyRemoved => some { c with
      cache := (esconfCacheHandlePropertyRemoved c.cache c.cache.channelName property).1 }

def afterSet (c : CacheProtocol) (value : GValue) (outcome : SetReturn) : CacheProtocol :=
  let lastSet := if outcome.ret then some value else c.lastSet
  match outcome.call with
  | none => { c with cache := outcome.cache, lastSet }
  | some call =>
    { c with
      cache := outcome.cache, lastSet, requests := c.requests ++ [.setProperty c.serial call.variant],
      calls := c.calls ++ [(c.serial, call)], serial := c.serial + 1 }

/-- The client calls the library; a property that is not cached is asked for. -/
def call (c : CacheProtocol) (call : ClientCall) : Option CacheProtocol :=
  match call, c.cache.properties property with
  | .set value, some item =>
    (setAfterLookup host property value (some item, none, c.cache)).map (c.afterSet value)
  | .lookup, some _ => some c
  | .reset left, _ => some { c with
      requests := c.requests ++ [.resetProperty left], blocked := some (.reset left, none) }
  | call, none => some { c with
      requests := c.requests ++ [.getProperty], blocked := some (call, none) }

def finish (c : CacheProtocol) : ClientCall → BusAnswer → Option CacheProtocol
  | .set value, .property reply =>
    (setAfterLookup host property value (lookupFetched c.cache property reply)).map fun outcome =>
      { c with blocked := none }.afterSet value outcome
  | .lookup, .property reply => some { c with
      blocked := none, cache := (lookupFetched c.cache property reply).2.2 }
  | .reset _, .resetDone => some { c with
      blocked := none, cache := (esconfCacheReset c.cache property false (.ok ())).2.2 }
  | _, _ => none

/-- The two ways a set goes are those of `esconf_cache_set`. -/
theorem esconfCacheSet_split (cache : EsconfCache) (value : GValue)
    (reply : Except DBusError GVariant) :
    esconfCacheSet host cache property value reply =
      setAfterLookup host property value (match cache.properties property with
        | some item => (some item, none, cache)
        | none => lookupFetched cache property reply) := by
  cases cached : cache.properties property <;>
    simp only [esconfCacheSet, esconfCacheLookupLocked, cached]

def step (c : CacheProtocol) : ProtocolEvent → Option CacheProtocol
  | .process =>
    match c.requests with
    | [] => none
    | request :: rest => { c with requests := rest }.handle host request
  | .idle =>
    match c.idles with
    | 0 => none
    | idles + 1 => some { c with
        idles, messages := c.messages ++ esconfDaemonEmitPropertyChangedIdled host c.value }
  | .other value => some (c.store value)
  | .deliver =>
    match c.messages with
    | [] => none
    | message :: rest =>
      (WriteThrough.passMessage c.blocked).bind fun blocked =>
        { c with messages := rest, blocked }.receive property message
  | .callback =>
    match c.calls with
    | [] => none
    | (_, call) :: rest =>
      if c.cache.cancelled call.cancellable then
        (esconfCacheSetPropertyReplyHandler c.cache call.userData (.error cancelledReply)).map
          fun settled => { c with cache := settled.1, calls := rest }
      else none
  | .begin call => if c.blocked.isSome then none else c.call host property call
  | .resume =>
    match c.blocked with
    | some (call, some (answer, _)) => c.finish host property call answer
    | _ => none

def run (c : CacheProtocol) : List ProtocolEvent → Option CacheProtocol
  | [] => some c
  | event :: rest => (c.step host property event).bind fun next => next.run rest

end CacheProtocol

end Esconf
