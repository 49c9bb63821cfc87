import Esconf.CacheProtocol
import Esconf.FinalizedCache

/-! A client that alone writes a channel, and the daemon: sets of any properties, with the
requests, replies and signals in their order. -/

namespace Esconf

structure ChannelRequest where
  serial : Nat
  property : CString
  variant : GVariant

/-- Whether a SetProperty request changes the backend. -/
def changes (values : CString → Option GValue) (sent : SentValue) : Bool :=
  (esconfGvariantToGvalue sent.2).any fun value => backendChanges (values sent.1) (some value)

/-- The values after `esconf_backend_set`, which keeps an equal value. -/
def takeUp (values : CString → Option GValue) (sent : SentValue) : CString → Option GValue :=
  if changes values sent then Function.update values sent.1 (esconfGvariantToGvalue sent.2)
  else values

/-- `values` are the properties in the daemon and `idles` those of its idle functions still to
run. `calls` are the calls whose callbacks have not run, with their serials. `lastSet` is the
value of the last set of a property that returned TRUE; nothing reads it. -/
structure SoleWriter where
  values : CString → Option GValue
  idles : List CString
  requests : List ChannelRequest
  messages : List (CString × BusMessage)
  cache : EsconfCache
  calls : List (Nat × SetPropertyCall)
  serial : Nat
  lastSet : CString → Option GValue

inductive WriterEvent where
  | process
  | idle (index : Nat)
  | deliver
  | callback (index : Nat)
  | set (property : CString) (value : GValue)

namespace SoleWriter

def start (channelName : CString) (values cached : CString → Option GValue) : SoleWriter :=
  { values, idles := [], requests := [], messages := [],
    cache := { EsconfCache.new channelName with properties := cached },
    calls := [], serial := 0, lastSet := fun _ => none }

def handle (c : SoleWriter) (request : ChannelRequest) : SoleWriter :=
  { c with
    values := takeUp c.values (request.property, request.variant),
    idles := if changes c.values (request.property, request.variant) then
        c.idles ++ [request.property] else c.idles,
    messages := c.messages ++ [(request.property, .setPropertyReply request.serial)] }

variable (host : Host)

def runCallback (c : SoleWriter) (index : Nat) (finish : Except DBusError Unit) :
    Option SoleWriter :=
  match c.calls[index]? with
  | none => none
  | some entry =>
    if (c.calls.take index).all (·.2.property != entry.2.property) then
      (esconfCacheSetPropertyReplyHandler c.cache entry.2.userData finish).map fun settled =>
        { c with cache := settled.1, calls := c.calls.eraseIdx index }
    else none

/-- The reply to a call that was cancelled is dropped. -/
def reply (c : SoleWriter) (serial : Nat) : Option SoleWriter :=
  match c.calls[c.calls.findIdx (·.1 == serial)]? with
  | none => some c
  | some entry =>
    if c.cache.cancelled entry.2.cancellable then some c
    else c.runCallback (c.calls.findIdx (·.1 == serial)) (.ok ())

/-- `esconf_cache_proxy_signal_received_cb` for the signals. -/
def receive (c : SoleWriter) (property : CString) : BusMessage → Option SoleWriter
  | .setPropertyReply serial => c.reply serial
  | .propertyChanged variant => some { c with
      cache := (esconfCacheHandlePropertyChanged c.cache c.cache.channelName property variant).1 }
  | .propertyRemoved => some { c with
      cache := (esconfCacheHandlePropertyRemoved c.cache c.cache.channelName property).1 }

def afterSet (c : SoleWriter) (property : CString) (value : GValue) (outcome : SetReturn) :
    SoleWriter :=
  let lastSet := if outcome.ret then Function.update c.lastSet property (some value) else c.lastSet
  match outcome.call with
  | none => { c with cache := outcome.cache, lastSet }
  | some call =>
    { c with
      cache := outcome.cache, lastSet,
      requests := c.requests ++ [⟨c.serial, property, call.variant⟩],
      calls := c.calls ++ [(c.serial, call)], serial := c.serial + 1 }

/-- A set of a property that is not cached blocks until the daemon, having taken up all requests,
answers the GetProperty call; the messages before the answer wait. -/
def step (c : SoleWriter) : WriterEvent → Option SoleWriter
  | .process =>
    match c.requests with
    | [] => none
    | request :: rest => some ({ c with requests := rest }.handle request)
  | .idle index =>
    match c.idles[index]? with
    | none => none
    | some property => some { c with
        idles := c.idles.eraseIdx index,
        messages := c.messages ++
          (esconfDaemonEmitPropertyChangedIdled host (c.values property)).map (property, ·) }
  | .deliver =>
    match c.messages with
    | [] => none
    | (property, message) :: rest => { c with messages := rest }.receive property message
  | .callback index =>
    match c.calls[index]? with
    | none => none
    | some entry =>
      if c.cache.cancelled entry.2.cancellable then
        c.runCallback index (.error cancelledReply)
      else none
  | .set property value =>
    if (c.cache.properties property).isSome || c.requests.isEmpty then
      (esconfCacheSet host c.cache property value
        (esconfGetProperty host (c.values property))).map (c.afterSet property value)
    else none

def run (c : SoleWriter) : List WriterEvent → Option SoleWriter
  | [] => some c
  | event :: rest => (c.step host event).bind fun next => next.run rest

/-- The values of the daemon when it has taken up the requests on their way, and then those that
finalising sends. -/
def finalValues (c : SoleWriter) (sent : List SentValue) : CString → Option GValue :=
  (c.requests.map (fun request => (request.property, request.variant)) ++ sent).foldl takeUp
    c.values

end SoleWriter

/-- A value that comes back from the bus unchanged. -/
def Travels (host : Host) (value : GValue) : Prop :=
  ∃ val, esconfGvalueToGvariant host value = some val ∧
    esconfGvariantToGvalue (.variant val) = some value ∧ esconfGvariantToGvalue val = some value

variable {host : Host}

theorem Travels.plain {value : GValue} (travels : Travels host value) :
    value.gtype ≠ .int16 ∧ value.gtype ≠ .float := by
  obtain ⟨val, _, back, _⟩ := travels
  exact ⟨(esconfGvariantToGvalue_gtype back).1, (esconfGvariantToGvalue_gtype back).2.1⟩

theorem Travels.agrees {item value : GValue} (travels : Travels host value)
    (equal : GValue.isEqual item value = true) : GValue.Agrees item value :=
  GValue.Agrees.of_isEqual travels.plain.1 travels.plain.2 equal

section

variable {values : CString → Option GValue} {property : CString} {last : GValue}

theorem takeUp_other {sent : SentValue} (apart : property ≠ sent.1) :
    takeUp values sent property = values property := by
  unfold takeUp
  split
  · exact Function.update_of_ne apart ..
  · rfl

theorem takeUp_self (values : CString → Option GValue) (property : CString) {variant : GVariant}
    {value : GValue} (travels : Travels host value)
    (decoded : esconfGvariantToGvalue variant = some value) :
    ∃ stored, takeUp values (property, variant) property = some stored ∧
      GValue.Agrees stored value ∧ (stored = value ∨ values property = some stored) := by
  unfold takeUp changes
  simp only [decoded, Option.any_some]
  split
  · exact ⟨value, Function.update_self .., GValue.Agrees.refl value, Or.inl rfl⟩
  · next unchanged =>
      rw [Bool.not_eq_true] at unchanged
      cases before : values property with
      | none =>
          rw [before] at unchanged
          cases unchanged
      | some stored =>
          rw [before] at unchanged
          simp only [backendChanges, Bool.not_eq_eq_eq_not, Bool.not_false] at unchanged
          exact ⟨stored, rfl, travels.agrees unchanged, Or.inr rfl⟩

theorem takeUp_isSome {sent : SentValue} (there : (values property).isSome) :
    (takeUp values sent property).isSome := by
  unfold takeUp
  split
  · next changed =>
      by_cases mine : property = sent.1
      · subst mine
        rw [Function.update_self]
        obtain ⟨value, decoded, _⟩ := (Option.any_eq_true _ _).mp changed
        rw [decoded]
        rfl
      · rwa [Function.update_of_ne mine]
  · exact there

theorem foldl_takeUp_agrees {requests : List SentValue}
    (settled : Option.Rel GValue.Agrees (values property) (some last))
    (same : ∀ sent ∈ requests, sent.1 = property → ∃ value, Travels host value ∧
      esconfGvariantToGvalue sent.2 = some value ∧ GValue.Agrees value last) :
    Option.Rel GValue.Agrees (requests.foldl takeUp values property) (some last) := by
  induction requests generalizing values with
  | nil => exact settled
  | cons sent rest ih =>
      refine ih ?_ fun later member => same later (List.mem_cons_of_mem _ member)
      by_cases mine : sent.1 = property
      · obtain ⟨value, travels, decoded, agrees⟩ := same sent List.mem_cons_self mine
        obtain ⟨stored, left, close, _⟩ :=
          takeUp_self values sent.1 travels decoded
        subst mine
        rw [left]
        exact Option.Rel.some (close.trans agrees)
      · rwa [takeUp_other (Ne.symm mine)]

theorem foldl_takeUp_other {requests : List SentValue}
    (apart : ∀ sent ∈ requests, sent.1 ≠ property) :
    requests.foldl takeUp values property = values property := by
  induction requests generalizing values with
  | nil => rfl
  | cons sent rest ih =>
      rw [List.foldl_cons, ih fun later member => apart later (List.mem_cons_of_mem _ member)]
      exact takeUp_other (apart sent List.mem_cons_self).symm

end

end Esconf
