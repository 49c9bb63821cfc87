import Esconf.BackendMaps
import Esconf.ReadPaths

/-! The methods of the daemon that ask or change every backend, and the methods on one
channel as operations on an overlay of maps, one pair for each backend. -/

namespace Esconf.Daemon

/-- An `EsconfBackendInterface` with the virtual functions that the methods below call. -/
structure ChangingInterface (S : Type) extends BackendInterface S where
  «exists» : S → CString → CString → Option (Except GError Bool × S)
  reset : S → CString → CString → Bool → Option (Except GError Unit × S)

def changingXml (host : Host) : ChangingInterface EsconfBackendPerchannelXml where
  toBackendInterface := perchannelXml host
  «exists» := perchannelXmlExists host
  reset := perchannelXmlReset host

variable {S : Type}

section Methods

variable (host : Host) (interface : ChangingInterface S)

/-- `esconf_backend_exists`. -/
def esconfBackendExists (backend : S) (channel property : CString) :
    Option (Except GError Bool × S) :=
  guarded backend [internalUnless (!channel.isEmpty && !property.isEmpty),
    esconfChannelIsValid channel, esconfPropertyIsValid property]
    (interface.exists backend channel property)

/-- `esconf_backend_reset`. -/
def esconfBackendReset (backend : S) (channel property : CString) (recursive : Bool) :
    Option (Except GError Unit × S) :=
  guarded backend [internalUnless (!channel.isEmpty && !property.isEmpty),
    esconfChannelIsValid channel, recursiveOnly property recursive, baseIsValid property]
    (interface.reset backend channel property recursive)

/-- The loop of a method that asks the backends until one says yes: whether one succeeded,
what it said and the error of the last one, if it failed. -/
def askFrom (query : S → Option (Except GError Bool × S)) :
    List S → Option (Bool × Bool × Option GError × List S)
  | [] => some (false, false, none, [])
  | backend :: rest =>
    match query backend with
    | none => none
    | some (.ok true, backend) => some (true, true, none, backend :: rest)
    | some (.ok false, backend) =>
      (askFrom query rest).map fun (_, said, error, rest') => (true, said, error, backend :: rest')
    | some (.error failure, backend) =>
      (askFrom query rest).map fun (succeed, said, error, rest') =>
        (succeed, said, if rest.isEmpty then some failure else error, backend :: rest')

def askAll (query : S → Option (Except GError Bool × S)) (backends : List S) :
    Option (Except GError Bool × List S) :=
  (askFrom query backends).map fun (succeed, said, error, backends) =>
    (if succeed then .ok said else .error (error.getD internalError), backends)

/-- `esconf_property_exists`. -/
def esconfPropertyExists (backends : List S) (channel property : CString) :
    Option (Except GError Bool × List S) :=
  askAll (fun backend => esconfBackendExists interface backend channel property) backends

/-- `esconf_is_property_locked`. -/
def esconfIsPropertyLocked (backends : List S) (channel property : CString) :
    Option (Except GError Bool × List S) :=
  askAll (fun backend =>
    esconfBackendIsPropertyLocked interface.toBackendInterface backend channel property) backends

/-- The loop of `esconf_reset_property`: whether a backend succeeded and the error of the
last one, if it failed. -/
def resetFrom (channel property : CString) (recursive : Bool) :
    List S → Option (Bool × Option GError × List S)
  | [] => some (false, none, [])
  | backend :: rest =>
    match esconfBackendReset interface backend channel property recursive with
    | none => none
    | some (.ok (), backend) =>
      (resetFrom channel property recursive rest).map fun (_, error, rest') =>
        (true, error, backend :: rest')
    | some (.error failure, backend) =>
      (resetFrom channel property recursive rest).map fun (succeed, error, rest') =>
        (succeed, if rest.isEmpty then some failure else error, backend :: rest')

/-- `esconf_reset_property`. -/
def esconfResetProperty (backends : List S) (channel property : CString) (recursive : Bool) :
    Option (Except GError Unit × List S) :=
  (resetFrom interface channel property recursive backends).map fun (succeed, error, backends) =>
    (if succeed then .ok () else .error (error.getD internalError), backends)

inductive MethodCall where
  | setProperty (property : CString) (variant : GVariant)
  | getProperty (property : CString)
  | propertyExists (property : CString)
  | isPropertyLocked (property : CString)
  | resetProperty (property : CString) (recursive : Bool)

inductive MethodReply where
  | value (reply : Except GError GVariant)
  | said (reply : Except GError Bool)
  | done (replies : List (Except GError Unit))

def MethodCall.property : MethodCall → CString
  | setProperty property _ => property
  | getProperty property => property
  | propertyExists property => property
  | isPropertyLocked property => property
  | resetProperty property _ => property

/-- The handler of a call, in a daemon with the given first backend and the others. -/
def MethodCall.handle (channel : CString) (call : MethodCall) :
    List S → Option (MethodReply × List S)
  | [] => none
  | first :: rest =>
    match call with
    | setProperty property variant =>
      (esconfSetProperty interface.toBackendInterface first rest channel property variant).map
        fun outcome => (.done outcome.replies, outcome.backends)
    | getProperty property =>
      (esconfGetProperty host interface.toBackendInterface (first :: rest) channel property).map
        fun (reply, backends) => (.value reply, backends)
    | propertyExists property =>
      (esconfPropertyExists interface (first :: rest) channel property).map
        fun (reply, backends) => (.said reply, backends)
    | isPropertyLocked property =>
      (esconfIsPropertyLocked interface (first :: rest) channel property).map
        fun (reply, backends) => (.said reply, backends)
    | resetProperty property recursive =>
      (esconfResetProperty interface (first :: rest) channel property recursive).map
        fun (reply, backends) => (.done [reply], backends)

end Methods

/-- What one backend has for a channel. -/
structure Layer where
  maps : PropMaps
  locked : Bool

namespace Layer

def step (layer : Layer) (request : PropRequest) : Layer :=
  { layer with maps := layer.maps.step request }

def value (layer : Layer) (property : CString) : Option GValue :=
  if (layer.maps.effective property).isSet then some (layer.maps.effective property) else none

end Layer

/-- The layers of a channel, the first of which is written to. -/
abbrev Overlay := List Layer

namespace Overlay

def value (overlay : Overlay) (property : CString) : Option GValue :=
  overlay.findSome? fun layer => layer.value property

def resetRequest (property : CString) (recursive : Bool) : PropRequest :=
  if recursive then .resetRecursive property else .reset property

def step (overlay : Overlay) : MethodCall → MethodReply → Overlay
  | .setProperty property variant, .done [.ok ()] =>
    match esconfGvariantToGvalue variant with
    | some value => overlay.modifyHead fun layer => layer.step (.set property value)
    | none => overlay
  | .resetProperty property recursive, _ =>
    overlay.map fun layer => layer.step (resetRequest property recursive)
  | _, _ => overlay

/-- A reply that an overlay allows. A set goes through unless a layer is locked, and never
does if there are others. -/
def Allows (host : Host) (overlay : Overlay) : MethodCall → MethodReply → Prop
  | .setProperty _ _, .done replies =>
    ∃ reply, replies = [reply] ∧
      (overlay.any Layer.locked = false → reply = .ok ()) ∧
      (1 < overlay.length → overlay.any Layer.locked = true → reply.isOk = false)
  | .getProperty property, .value reply =>
    match overlay.value property with
    | some value => reply = replyValue host value
    | none => reply.isOk = false
  | .propertyExists property, .said reply => reply = .ok (overlay.value property).isSome
  | .isPropertyLocked _, .said reply => reply = .ok (overlay.any Layer.locked)
  | .resetProperty property recursive, .done replies =>
    ∃ reply, replies = [reply] ∧ (recursive = false →
      reply.isOk = overlay.any fun layer => (layer.maps.user property).isSet)
  | _, _ => False

/-- A sequence of calls with their replies, all of them allowed. -/
inductive Run (host : Host) : Overlay → List MethodCall → List MethodReply → Overlay → Prop where
  | nil (overlay : Overlay) : Run host overlay [] [] overlay
  | cons {overlay after : Overlay} {call : MethodCall} {reply : MethodReply}
      {calls : List MethodCall} {replies : List MethodReply}
      (allowed : overlay.Allows host call reply)
      (later : Run host (overlay.step call reply) calls replies after) :
      Run host overlay (call :: calls) (reply :: replies) after

end Overlay

section Refinement

variable {interface : ChangingInterface S} {channel property : CString}
  {holds : S → Layer → Prop}

/-- The names of a call pass the checks and fit the buffers. -/
structure MethodCall.Accepted (call : MethodCall) : Prop where
  valid : esconfPropertyIsValid call.property = none
  short : call.property.length < maxPropPath
  decodes : ∀ property variant, call = .setProperty property variant →
    (esconfGvariantToGvalue variant).isSome = true

theorem reset_guard {α : Type} (backend : S) (channelValid : esconfChannelIsValid channel = none)
    (valid : esconfPropertyIsValid property = none) (recursive : Bool)
    (call : Option (Except GError α × S)) :
    guarded backend [internalUnless (!channel.isEmpty && !property.isEmpty),
      esconfChannelIsValid channel, recursiveOnly property recursive, baseIsValid property] call =
      call := by
  have named : property ≠ [] ∧ property ≠ "/".toList := by
    constructor <;> rintro rfl <;> cases valid
  have full := guarded_names backend channelValid valid call
  rw [recursiveOnly, if_neg fun refused => refused.2.elim named.1 named.2, baseIsValid,
    if_neg fun root => root.elim named.1 named.2]
  exact full

end Refinement

end Esconf.Daemon
