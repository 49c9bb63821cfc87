import Esconf.ServedCalls
import Esconf.SettingsBackend
import Esconf.Library.Announcements

/-! The signals of the daemon and the caches that listen to them: what any number of clients
have of a channel that others change. -/

namespace Esconf

open NamedTree Announcements

inductive DaemonSignal where
  | propertyChanged (channel property : CString) (variant : GVariant)
  | propertyRemoved (channel property : CString)

/-- A synchronous call of a client, with the reply that it still has to take up. -/
inductive Fetch where
  | property (property : CString) (reply : Except DBusError GVariant)
  | all (base : CString) (reply : Except DBusError (CString → Option GVariant))

/-- A client that reads a channel, with the signals on their way to it; `base` is what its
cache has been filled with. -/
structure Listener where
  signals : List DaemonSignal
  cache : EsconfCache
  fetching : Option Fetch
  base : Option CString

/-- `idles` are the idle functions that the daemon has still to run. -/
structure SignalNetwork (ι : Type) where
  daemon : EsconfBackendPerchannelXml
  idles : List (CString × CString)
  listeners : ι → Listener

variable (host : Host)

namespace Daemon

/-- `esconf_daemon_emit_property_changed_idled`: what is emitted. A value that cannot be sent
is not. -/
def esconfDaemonEmitPropertyChangedIdled (xbpx : EsconfBackendPerchannelXml)
    (channel property : CString) : Option (List DaemonSignal × EsconfBackendPerchannelXml) :=
  (Esconf.esconfBackendGet host xbpx channel property).map fun (answer, xbpx) =>
    match answer with
    | .ok value =>
      match esconfGvalueToGvariant host value with
      | some val => ([.propertyChanged channel property val], xbpx)
      | none => ([], xbpx)
    | .error _ => ([.propertyRemoved channel property], xbpx)

end Daemon

/-- `esconf_cache_proxy_signal_received_cb`. -/
def esconfCacheProxySignalReceivedCb (cache : EsconfCache) : DaemonSignal → EsconfCache
  | .propertyChanged channel property variant =>
    (esconfCacheHandlePropertyChanged cache channel property variant).1
  | .propertyRemoved channel property =>
    (esconfCacheHandlePropertyRemoved cache channel property).1

namespace Listener

def fresh (channelName : CString) : Listener := ⟨[], .new channelName, none, none⟩

def send (listener : Listener) (signals : List DaemonSignal) : Listener :=
  { listener with signals := listener.signals ++ signals }

def resume (listener : Listener) : Fetch → Listener
  | .property property reply =>
    { listener with
      cache := (esconfCacheLookupLocked listener.cache property reply).2.2, fetching := none }
  | .all base reply =>
    let (filled, cache) := esconfCachePrefetch listener.cache reply
    { listener with
      cache, fetching := none, base := if filled then some base else listener.base }

end Listener

def replied {α : Type} (result : Except GError α) : Except DBusError α :=
  result.mapError fun error => ⟨none, error.message⟩

/-- A call names its channel in lower case; a call that changes the given channel has a name
that is not too long, a value that comes back from the bus as it is, and resets no property
below a component of one character, nor the whole channel. -/
def Announceable (channelName : CString) (xbpx : EsconfBackendPerchannelXml) : Request → Prop
  | .set channel property value => gAsciiStrdown channel = channel ∧
      (channel = channelName → property.length < maxPropPath ∧ ExactValue host value)
  | .reset channel property recursive => gAsciiStrdown channel = channel ∧
      (channel = channelName → property ≠ "/".toList ∧
        ∀ loaded, xbpx.channels.lookup channelName = some loaded →
          (Modification.reset property recursive).Rebuildable loaded.properties)
  | request => gAsciiStrdown request.channel = request.channel

variable {ι : Type} [DecidableEq ι]

/-- Anyone calls the daemon, which queues an idle function for each notice; it saves its
channels without an error, or runs the first idle function; a client takes up a signal, or
asks for a property that it does not have or for all that are below a base, and waits for
the reply. -/
inductive NetworkStep (channelName : CString) (n : SignalNetwork ι) : SignalNetwork ι → Prop where
  | call {request : Request} {after : EsconfBackendPerchannelXml}
      (fine : Announceable host channelName n.daemon request)
      (performed : request.perform host n.daemon = some after) :
      NetworkStep channelName n { n with
        daemon := after
        idles := n.idles ++ after.notices.drop n.daemon.notices.length }
  | save {saving : Saving} {schedule : Schedule} {device left : Device}
      {after : EsconfBackendPerchannelXml} (stays : saving ≠ .finalize)
      (written : saving.flushes host schedule n.daemon device = some (.returned none after left)) :
      NetworkStep channelName n { n with daemon := after }
  | idle {channel property : CString} {rest : List (CString × CString)}
      {signals : List DaemonSignal} {after : EsconfBackendPerchannelXml}
      (first : n.idles = (channel, property) :: rest)
      (emitted : Daemon.esconfDaemonEmitPropertyChangedIdled host n.daemon channel property =
        some (signals, after)) :
      NetworkStep channelName n {
        daemon := after
        idles := rest
        listeners := fun i => (n.listeners i).send signals }
  | receive (i : ι) {signal : DaemonSignal} {rest : List DaemonSignal}
      (first : (n.listeners i).signals = signal :: rest)
      (free : (n.listeners i).fetching = none) :
      NetworkStep channelName n { n with
        listeners := Function.update n.listeners i { n.listeners i with
          signals := rest
          cache := esconfCacheProxySignalReceivedCb (n.listeners i).cache signal } }
  | lookup (i : ι) {property : CString} {reply : Except GError GVariant}
      {after : EsconfBackendPerchannelXml} (free : (n.listeners i).fetching = none)
      (missing : (n.listeners i).cache.properties property = none)
      (answered : Daemon.esconfGetProperty host (Daemon.perchannelXml host) [n.daemon] channelName
        property = some (reply, [after])) :
      NetworkStep channelName n { n with
        daemon := after
        listeners := Function.update n.listeners i { n.listeners i with
          fetching := some (.property property (replied reply)) } }
  | prefetch (i : ι) {base : CString} {reply : Except GError (CString → Option GVariant)}
      {after : EsconfBackendPerchannelXml} (free : (n.listeners i).fetching = none)
      (empty : ∀ property, (n.listeners i).cache.properties property = none)
      (answered : Daemon.esconfGetAllProperties host (Daemon.perchannelXml host) [n.daemon]
        channelName base = some (reply, [after])) :
      NetworkStep channelName n { n with
        daemon := after
        listeners := Function.update n.listeners i { n.listeners i with
          fetching := some (.all base (replied reply)) } }
  | resume (i : ι) {fetch : Fetch} (waits : (n.listeners i).fetching = some fetch) :
      NetworkStep channelName n { n with
        listeners := Function.update n.listeners i ((n.listeners i).resume fetch) }

abbrev PropertyName := { name : CString // esconfPropertyIsValid name = none }

def PropMaps.table (maps : PropMaps) (property : PropertyName) : Option GValue :=
  if (maps.effective property.1).isSet then some (maps.effective property.1) else none

def toldAbout (channelName : CString) (told : CString × CString) : Option PropertyName :=
  if accepted : told.1 = channelName ∧ esconfPropertyIsValid told.2 = none then
    some ⟨told.2, accepted.2⟩
  else none

def DaemonSignal.about : DaemonSignal → CString × CString
  | propertyChanged channel property _ | propertyRemoved channel property => (channel, property)

def DaemonSignal.announces (channelName : CString) :
    DaemonSignal → Option (PropertyName × Option GValue)
  | propertyChanged channel property variant =>
    (toldAbout channelName (channel, property)).map (·, esconfGvariantToGvalue variant)
  | propertyRemoved channel property =>
    (toldAbout channelName (channel, property)).map (·, none)

open Classical in
noncomputable def Fetch.answers : Fetch → PropertyName → Option (Option GValue)
  | property asked (.ok variant), name =>
    if name.1 = asked then some (esconfGvariantToGvalue variant) else none
  | all base (.ok table), name =>
    if Covers base name.1 then some ((table name.1).bind esconfGvariantToGvalue) else none
  | property _ (.error _), _ | all _ (.error _), _ => none

structure Copies (channelName : CString) (listener : Listener)
    (copy : Copy PropertyName (Option GValue)) : Prop where
  messages : copy.messages = listener.signals.filterMap (DaemonSignal.announces channelName)
  entries : ∀ name, copy.entries name = listener.cache.properties name.1
  waiting : copy.waiting = listener.fetching.map Fetch.answers
  known : ∀ base, listener.base = some base → ∀ name : PropertyName, Covers base name.1 →
    copy.known name

structure Listening (channelName : CString) (listener : Listener) : Prop where
  channel : listener.cache.channelName = channelName
  passive : ∀ property, listener.cache.oldProperties property = none
  exactly : ∀ name : PropertyName, ∀ value, listener.cache.properties name.1 = some value →
    ExactValue host value
  signals : ∀ property variant,
    .propertyChanged channelName property variant ∈ listener.signals →
    esconfPropertyIsValid property = none →
      ∃ value, esconfGvariantToGvalue variant = some value ∧ ExactValue host value
  fetching : ∀ fetch, listener.fetching = some fetch → ∀ name value,
    fetch.answers name = some (some value) → ExactValue host value
  missing : ∀ property reply, listener.fetching = some (.property property reply) →
    listener.cache.properties property = none
  empty : ∀ base reply, listener.fetching = some (.all base reply) →
    ∀ property, listener.cache.properties property = none
  within : ∀ base table, listener.fetching = some (.all base (.ok table)) →
    ∀ name : PropertyName, (table name.1).isSome = true → Covers base name.1

/-- The values of the maps come back from the bus as they are. -/
def ExactMaps (maps : PropMaps) : Prop :=
  ∀ name, propNameIsValid name = true →
    ((maps.user name).isSet = true → ExactValue host (maps.user name)) ∧
      ((maps.system name).isSet = true → ExactValue host (maps.system name))

structure Simulates (channelName : CString) (maps : PropMaps) (n : SignalNetwork ι)
    (s : State ι PropertyName (Option GValue)) : Prop where
  served : Served channelName maps n.daemon
  exactly : ExactMaps host maps
  lower : ∀ told ∈ n.idles, gAsciiStrdown told.1 = told.1
  table : s.table = maps.table
  due : s.due = n.idles.filterMap (toldAbout channelName)
  copies : ∀ i, Copies channelName (n.listeners i) (s.copies i)
  listening : ∀ i, Listening host channelName (n.listeners i)

section Told

variable {host} {channelName : CString}

theorem toldAbout_name {property : CString} (accepted : esconfPropertyIsValid property = none) :
    toldAbout channelName (channelName, property) = some ⟨property, accepted⟩ :=
  dif_pos ⟨rfl, accepted⟩

theorem toldAbout_none {told : CString × CString}
    (apart : ¬(told.1 = channelName ∧ esconfPropertyIsValid told.2 = none)) :
    toldAbout channelName told = none := dif_neg apart

theorem toldAbout_some {told : CString × CString} {name : PropertyName}
    (about : toldAbout channelName told = some name) : told.1 = channelName ∧ told.2 = name.1 := by
  unfold toldAbout at about
  split at about
  · next accepted =>
      cases about
      exact ⟨accepted.1, rfl⟩
  · cases about

theorem toldAbout_names (added : List CString) {name : PropertyName} (member : name.1 ∈ added) :
    name ∈ (added.map (Prod.mk channelName)).filterMap (toldAbout channelName) :=
  List.mem_filterMap.mpr ⟨_, List.mem_map_of_mem member, toldAbout_name name.2⟩

variable {maps : PropMaps}

theorem ExactValue.isSet {value : GValue} (exactly : ExactValue host value) :
    value.isSet = true := by
  cases value <;> first | rfl | exact exactly.elim

theorem ExactValue.formatted {value : GValue} (exactly : ExactValue host value) :
    formattedValue value = value := by
  cases value <;> first | rfl | exact exactly.elim

namespace ExactMaps

theorem effective (exactly : ExactMaps host maps) {name : CString}
    (valid : propNameIsValid name = true) (set : (maps.effective name).isSet = true) :
    ExactValue host (maps.effective name) := by
  rw [PropMaps.effective] at set ⊢
  split
  · next user => exact (exactly name valid).1 user
  · next user =>
      rw [if_neg user] at set
      exact (exactly name valid).2 set

theorem plain (exactly : ExactMaps host maps) {name : CString}
    (valid : propNameIsValid name = true) :
    formattedValue (maps.user name) = maps.user name := by
  cases set : (maps.user name).isSet with
  | true => exact ((exactly name valid).1 set).formatted
  | false =>
      rw [GValue.isSet_eq_false.mp set]
      rfl

theorem sendable (exactly : ExactMaps host maps) : Sendable maps := by
  intro name fine
  obtain ⟨user, system⟩ := exactly name fine
  constructor
  · intro null
    rw [null] at user
    exact (user rfl).elim
  · intro null
    rw [null] at system
    exact (system rfl).elim

theorem step (exactly : ExactMaps host maps) {request : PropRequest}
    (written : ∀ property value, request = .set property value → ExactValue host value) :
    ExactMaps host (maps.step request) := by
  intro name valid
  obtain ⟨user, system⟩ := exactly name valid
  rw [PropMaps.step_system]
  refine ⟨?_, system⟩
  cases request with
  | set property value =>
      rw [PropMaps.step]
      split
      · exact user
      · change (if name = property then value else maps.user name).isSet = true → ExactValue host
          (if name = property then value else maps.user name)
        split
        · exact fun _ => written property value rfl
        · exact user
  | reset property =>
      change (if name = property then .invalid else maps.user name : GValue).isSet = true →
        ExactValue host (if name = property then .invalid else maps.user name)
      split
      · exact fun set => by cases set
      · exact user
  | resetRecursive property =>
      change (if name = property ∨ (property ++ ['/']) <+: name then .invalid
        else maps.user name : GValue).isSet = true → ExactValue host
          (if name = property ∨ (property ++ ['/']) <+: name then .invalid else maps.user name)
      split
      · exact fun set => by cases set
      · exact user

end ExactMaps

variable {xbpx after : EsconfBackendPerchannelXml}

theorem emitted_about (served : Served channelName maps xbpx) (exactly : ExactMaps host maps)
    (valid : esconfChannelIsValid channelName = none) (name : PropertyName) :
    ∃ signal, Daemon.esconfDaemonEmitPropertyChangedIdled host xbpx channelName name.1 =
        some ([signal], xbpx) ∧
      signal.announces channelName = some (name, maps.table name) ∧
      ∀ property variant, signal = .propertyChanged channelName property variant →
        ∃ value, esconfGvariantToGvalue variant = some value ∧ ExactValue host value := by
  have told : toldAbout channelName (channelName, name.1) = some name := toldAbout_name name.2
  rw [Daemon.esconfDaemonEmitPropertyChangedIdled, served.get host valid name.2, Option.map_some,
    PropMaps.table]
  by_cases set : (maps.effective name.1).isSet = true
  · have back := exactly.effective (propNameIsValid_of_property name.2) set
    obtain ⟨sent, converts, _, plain⟩ := back.converted
    rw [if_pos set, if_pos set]
    dsimp only
    rw [converts]
    refine ⟨_, rfl, ?_, ?_⟩
    · rw [DaemonSignal.announces, told, plain]
      rfl
    · intro property variant same
      cases same
      exact ⟨_, plain, back⟩
  · rw [if_neg set, if_neg set]
    refine ⟨_, rfl, ?_, nofun⟩
    rw [DaemonSignal.announces, told]
    rfl

theorem emitted_cases (host : Host) {channel property : CString} {signals : List DaemonSignal}
    (emitted : Daemon.esconfDaemonEmitPropertyChangedIdled host xbpx channel property =
      some (signals, after)) :
    (∃ answer, esconfBackendGet host xbpx channel property = some (answer, after)) ∧
      ∀ signal ∈ signals, (∃ variant, signal = .propertyChanged channel property variant) ∨
        signal = .propertyRemoved channel property := by
  obtain ⟨⟨answer, last⟩, got, same⟩ := Option.map_eq_some_iff.mp emitted
  cases answer with
  | ok value =>
      dsimp only at same
      cases sent : esconfGvalueToGvariant host value with
      | none =>
          rw [sent] at same
          cases same
          exact ⟨⟨_, got⟩, nofun⟩
      | some variant =>
          rw [sent] at same
          cases same
          exact ⟨⟨_, got⟩, fun signal member => Or.inl ⟨variant, List.mem_singleton.mp member⟩⟩
  | error error =>
      cases same
      exact ⟨⟨_, got⟩, fun signal member => Or.inr (List.mem_singleton.mp member)⟩

theorem emitted_elsewhere (served : Served channelName maps xbpx) {channel property : CString}
    (lower : gAsciiStrdown channel = channel)
    (silent : toldAbout channelName (channel, property) = none) {signals : List DaemonSignal}
    (emitted : Daemon.esconfDaemonEmitPropertyChangedIdled host xbpx channel property =
      some (signals, after)) :
    Served channelName maps after ∧ ∀ signal ∈ signals, signal.announces channelName = none ∧
      ∀ other variant, signal = .propertyChanged channelName other variant →
        esconfPropertyIsValid other ≠ none := by
  obtain ⟨⟨answer, got⟩, about⟩ := emitted_cases host emitted
  constructor
  · by_cases there : channel = channelName
    · have refused : esconfPropertyIsValid property ≠ none := by
        intro accepted
        rw [there, toldAbout_name accepted] at silent
        cases silent
      rcases guarded_cases got with ⟨error, same⟩ | ⟨clear, _⟩
      · cases same
        exact served
      · exact absurd (List.findSome?_eq_none_iff.mp clear (esconfPropertyIsValid property)
          (by simp)) refused
    · have performed : (Request.get channel property).perform host xbpx = some after := by
        rw [Request.perform, got]
        rfl
      exact served.elsewhere there lower (perform_confined host performed)
        (perform_notifies host performed)
  · intro signal member
    rcases about signal member with ⟨variant, rfl⟩ | rfl
    · refine ⟨by rw [DaemonSignal.announces, silent]; rfl, ?_⟩
      intro other variant' same accepted
      cases same
      rw [toldAbout_name accepted] at silent
      cases silent
    · exact ⟨by rw [DaemonSignal.announces, silent]; rfl, fun _ _ same => by cases same⟩

theorem lookup_answers (served : Served channelName maps xbpx) (exactly : ExactMaps host maps)
    (valid : esconfChannelIsValid channelName = none) {property : CString}
    {reply : Except GError GVariant}
    (answered : Daemon.esconfGetProperty host (Daemon.perchannelXml host) [xbpx] channelName
      property = some (reply, [after])) :
    after = xbpx ∧ ∀ name value,
      (Fetch.property property (replied reply)).answers name = some value →
        value = maps.table name ∧ ∀ item, value = some item → ExactValue host item := by
  cases accepted : esconfPropertyIsValid property with
  | some error =>
      have refused : ∃ failure, Daemon.esconfBackendGet (Daemon.perchannelXml host) xbpx
          channelName property = some (.error failure, xbpx) := by
        rcases @guarded_or _ _ xbpx _ _ with ⟨failure, stopped⟩ | ⟨clear, _⟩
        · exact ⟨failure, stopped⟩
        · have passed := List.findSome?_eq_none_iff.mp clear (esconfPropertyIsValid property)
            (by simp)
          rw [accepted] at passed
          cases passed
      obtain ⟨failure, stopped⟩ := refused
      rw [Daemon.esconfGetProperty, Daemon.getFrom, stopped] at answered
      cases answered
      exact ⟨rfl, fun _ _ told => by cases told⟩
  | none =>
      rw [served.getProperty host valid accepted] at answered
      by_cases set : (maps.effective property).isSet = true
      · have back := exactly.effective (propNameIsValid_of_property accepted) set
        obtain ⟨sent, converts, _, plain⟩ := back.converted
        rw [if_pos set, Daemon.replyValue, converts] at answered
        cases answered
        refine ⟨rfl, ?_⟩
        intro name value told
        change (if name.1 = property then some (esconfGvariantToGvalue sent) else none) = _ at told
        split at told
        · next same =>
            cases told
            rw [plain, PropMaps.table, same, if_pos set]
            refine ⟨rfl, ?_⟩
            intro item found
            cases found
            exact back
        · cases told
      · rw [if_neg set] at answered
        cases answered
        exact ⟨rfl, fun _ _ told => by cases told⟩

theorem ExactValue.tabled {value : GValue} (exactly : ExactValue host value) :
    (Daemon.tableVariant host value).bind esconfGvariantToGvalue = some value := by
  cases value with
  | string text =>
      cases text with
      | none => exact exactly.elim
      | some text =>
          have sent : Daemon.tableVariant host (.string (some text)) = some (.string text) :=
            if_pos exactly
          rw [sent]
          rfl
  | _ => first | rfl | exact exactly.elim

theorem prefetch_answers (served : Served channelName maps xbpx) (exactly : ExactMaps host maps)
    (valid : esconfChannelIsValid channelName = none) {base : CString}
    {reply : Except GError (CString → Option GVariant)}
    (answered : Daemon.esconfGetAllProperties host (Daemon.perchannelXml host) [xbpx] channelName
      base = some (reply, [after])) :
    after = xbpx ∧ (∀ name value, (Fetch.all base (replied reply)).answers name = some value →
        value = maps.table name ∧ ∀ item, value = some item → ExactValue host item) ∧
      ∀ table, reply = .ok table → ∀ name : PropertyName, (table name.1).isSome = true →
        Covers base name.1 := by
  cases asked : baseIsValid base with
  | some error =>
      have refused : ∃ failure, Daemon.esconfBackendGetAll (Daemon.perchannelXml host) xbpx
          channelName base = some (.error failure, xbpx) := by
        rcases @guarded_or _ _ xbpx _ _ with ⟨failure, stopped⟩ | ⟨clear, _⟩
        · exact ⟨failure, stopped⟩
        · have passed := List.findSome?_eq_none_iff.mp clear (baseIsValid base) (by simp)
          rw [asked] at passed
          cases passed
      obtain ⟨failure, stopped⟩ := refused
      rw [Daemon.esconfGetAllProperties, Daemon.getAllFrom, stopped] at answered
      cases answered
      exact ⟨rfl, fun _ _ told => (by cases told), fun _ filled => (by cases filled)⟩
  | none =>
      obtain ⟨result, inserted, rest, got, _, _, listed⟩ :=
        served.getAllProperties host valid exactly.sendable asked
      rw [got] at answered
      cases answered
      cases reply with
      | error failure =>
          exact ⟨rfl, fun _ _ told => (by cases told), fun _ filled => (by cases filled)⟩
      | ok table =>
          have entries := listed table rfl
          refine ⟨rfl, ?_, ?_⟩
          · intro name value told
            change (Fetch.all base (.ok table)).answers name = some value at told
            rw [Fetch.answers] at told
            split at told
            · next covers =>
                have fine := propNameIsValid_of_property name.2
                rw [PropMaps.table]
                by_cases set : (maps.effective name.1).isSet = true
                · have back := exactly.effective fine set
                  obtain ⟨variant, sent, decodes⟩ := Option.bind_eq_some_iff.mp back.tabled
                  rw [((entries name.1).1 variant).mpr ⟨covers, fine, set, sent⟩,
                    Option.bind_some, decodes] at told
                  cases told
                  refine ⟨(if_pos set).symm, ?_⟩
                  intro item found
                  cases found
                  exact back
                · have missing : table name.1 = none := by
                    apply Option.eq_none_iff_forall_ne_some.mpr
                    intro variant held
                    exact set (((entries name.1).1 variant).mp held).2.2.1
                  rw [missing] at told
                  cases told
                  exact ⟨(if_neg set).symm, fun _ found => by cases found⟩
            · cases told
          · intro _ same name there
            cases same
            obtain ⟨variant, held⟩ := Option.isSome_iff_exists.mp there
            exact (((entries name.1).1 variant).mp held).1

variable {listener : Listener}

/-- What a copy has after an announcement, if it is one. -/
def announced (announcement : Option (PropertyName × Option GValue)) (name : PropertyName)
    (before : Option GValue) : Option GValue :=
  match announcement with
  | some (about, value) => if about = name then value else before
  | none => before

theorem announces_some {signal : DaemonSignal} {name : PropertyName} {value : Option GValue}
    (announces : signal.announces channelName = some (name, value)) :
    (∃ variant, signal = .propertyChanged channelName name.1 variant ∧
        value = esconfGvariantToGvalue variant) ∨
      (signal = .propertyRemoved channelName name.1 ∧ value = none) := by
  have about : ∀ {channel property : CString} {message : Option GValue},
      (toldAbout channelName (channel, property)).map (·, message) = some (name, value) →
        channel = channelName ∧ property = name.1 ∧ message = value := by
    intro channel property message told
    obtain ⟨found, same, pair⟩ := Option.map_eq_some_iff.mp told
    unfold toldAbout at same
    split at same
    · next accepted =>
        cases same
        cases pair
        exact ⟨accepted.1, rfl, rfl⟩
    · cases same
  cases signal with
  | propertyChanged channel property variant =>
      obtain ⟨rfl, rfl, rfl⟩ := about announces
      exact Or.inl ⟨variant, rfl, rfl⟩
  | propertyRemoved channel property =>
      obtain ⟨rfl, rfl, rfl⟩ := about announces
      exact Or.inr ⟨rfl, rfl⟩

/-- A signal changes the cache where it announces something, and perhaps under names that the
daemon does not accept. -/
theorem received (listening : Listening host channelName listener) {signal : DaemonSignal}
    (member : signal ∈ listener.signals) :
    ∃ properties, esconfCacheProxySignalReceivedCb listener.cache signal =
        { listener.cache with properties } ∧
      ∀ name : PropertyName, properties name.1 =
        announced (signal.announces channelName) name (listener.cache.properties name.1) := by
  have names : ∀ {property : CString} (accepted : esconfPropertyIsValid property = none)
      (value : Option GValue) (name : PropertyName),
      Function.update listener.cache.properties property value name.1 =
        announced (some (⟨property, accepted⟩, value)) name
          (listener.cache.properties name.1) := by
    intro property accepted value name
    by_cases same : name.1 = property
    · subst same
      exact (Function.update_self _ _ _).trans (if_pos rfl).symm
    · rw [Function.update_of_ne same, announced, if_neg]
      rintro rfl
      exact same rfl
  have strange : ∀ {property : CString}, esconfPropertyIsValid property ≠ none →
      ∀ (value : Option GValue) (name : PropertyName),
        Function.update listener.cache.properties property value name.1 =
          listener.cache.properties name.1 := by
    intro property refused value name
    apply Function.update_of_ne
    rintro rfl
    exact refused name.2
  cases signal with
  | propertyChanged channel property variant =>
      rw [esconfCacheProxySignalReceivedCb, esconfCacheHandlePropertyChanged, listening.channel]
      by_cases there : channel = channelName
      · subst there
        rw [if_neg (not_not.mpr rfl), listening.passive, if_neg (by simp)]
        cases accepted : esconfPropertyIsValid property with
        | none =>
            obtain ⟨value, decodes, back⟩ := listening.signals property variant member accepted
            rw [DaemonSignal.announces, toldAbout_name accepted, decodes]
            cases cached : listener.cache.properties property with
            | none => exact ⟨_, rfl, names accepted (some value)⟩
            | some item =>
                have was := listening.exactly ⟨property, accepted⟩ item cached
                have updated : (esconfCacheItemUpdate item value).1 = value := by
                  unfold esconfCacheItemUpdate
                  split
                  · next equal => exact (was.isEqual_iff back).mp equal
                  · rfl
                refine ⟨_, rfl, ?_⟩
                rw [updated]
                exact names accepted (some value)
        | some error =>
            have refused : esconfPropertyIsValid property ≠ none := by simp [accepted]
            rw [DaemonSignal.announces, toldAbout_none fun both => refused both.2]
            cases listener.cache.properties property <;> cases esconfGvariantToGvalue variant
            · exact ⟨listener.cache.properties, rfl, fun _ => rfl⟩
            · exact ⟨_, rfl, strange refused _⟩
            · exact ⟨listener.cache.properties, rfl, fun _ => rfl⟩
            · exact ⟨_, rfl, strange refused _⟩
      · rw [if_pos there]
        refine ⟨listener.cache.properties, rfl, ?_⟩
        intro name
        rw [DaemonSignal.announces, toldAbout_none fun both => there both.1]
        rfl
  | propertyRemoved channel property =>
      rw [esconfCacheProxySignalReceivedCb, esconfCacheHandlePropertyRemoved, listening.channel]
      by_cases there : channel = channelName
      · subst there
        rw [if_neg (not_not.mpr rfl)]
        refine ⟨_, rfl, ?_⟩
        intro name
        cases accepted : esconfPropertyIsValid property with
        | none =>
            rw [DaemonSignal.announces, toldAbout_name accepted]
            exact names accepted none name
        | some error =>
            rw [DaemonSignal.announces, toldAbout_none (by simp [accepted])]
            exact strange (by simp [accepted]) none name
      · rw [if_pos there]
        refine ⟨listener.cache.properties, rfl, ?_⟩
        intro name
        rw [DaemonSignal.announces, toldAbout_none fun both => there both.1]
        rfl

variable {copy : Copy PropertyName (Option GValue)}

namespace Listening

theorem send (listening : Listening host channelName listener) {signals : List DaemonSignal}
    (fine : ∀ property variant, .propertyChanged channelName property variant ∈ signals →
      esconfPropertyIsValid property = none →
        ∃ value, esconfGvariantToGvalue variant = some value ∧ ExactValue host value) :
    Listening host channelName (listener.send signals) := by
  refine { listening with signals := ?_ }
  intro property variant member accepted
  rcases List.mem_append.mp member with old | new
  · exact listening.signals property variant old accepted
  · exact fine property variant new accepted

theorem receive (listening : Listening host channelName listener) {signal : DaemonSignal}
    {rest : List DaemonSignal} (first : listener.signals = signal :: rest)
    (free : listener.fetching = none) :
    Listening host channelName { listener with
      signals := rest, cache := esconfCacheProxySignalReceivedCb listener.cache signal } := by
  have member : signal ∈ listener.signals := by
    rw [first]
    exact List.mem_cons_self
  obtain ⟨properties, same, entries⟩ := received listening member
  rw [same]
  refine ⟨listening.channel, listening.passive, ?_, ?_, ?_, ?_, ?_, ?_⟩
  · intro name value held
    change properties name.1 = some value at held
    rw [entries name] at held
    cases announces : signal.announces channelName with
    | none =>
        rw [announces] at held
        exact listening.exactly name value held
    | some announcement =>
        obtain ⟨about, message⟩ := announcement
        rw [announces, announced] at held
        split at held
        · rcases announces_some announces with ⟨variant, rfl, decodes⟩ | ⟨_, removed⟩
          · obtain ⟨sent, decodes', back⟩ := listening.signals about.1 variant member about.2
            rw [decodes, decodes'] at held
            cases held
            exact back
          · rw [removed] at held
            cases held
        · exact listening.exactly name value held
  · intro property variant inside accepted
    apply listening.signals property variant _ accepted
    rw [first]
    exact List.mem_cons_of_mem _ inside
  all_goals
    intro fetch
    simp [free]

theorem fetch (listening : Listening host channelName listener) {fetch : Fetch}
    (back : ∀ name value, fetch.answers name = some (some value) → ExactValue host value)
    (missing : ∀ property reply, fetch = .property property reply →
      listener.cache.properties property = none)
    (empty : ∀ base reply, fetch = .all base reply →
      ∀ property, listener.cache.properties property = none)
    (within : ∀ base table, fetch = .all base (.ok table) →
      ∀ name : PropertyName, (table name.1).isSome = true → Covers base name.1) :
    Listening host channelName { listener with fetching := some fetch } := by
  refine { listening with fetching := ?_, missing := ?_, empty := ?_, within := ?_ }
  · intro other same
    cases same
    exact back
  · intro property reply same
    exact missing property reply (Option.some.inj same)
  · intro base reply same
    exact empty base reply (Option.some.inj same)
  · intro base table same
    exact within base table (Option.some.inj same)

theorem resumed (listening : Listening host channelName listener) {fetch : Fetch}
    (waits : listener.fetching = some fetch) :
    ∃ properties base, listener.resume fetch = { listener with
        cache := { listener.cache with properties }, fetching := none, base } ∧
      (∀ name : PropertyName, properties name.1 =
        (fetch.answers name).getD (listener.cache.properties name.1)) ∧
      ∀ filled, base = some filled → listener.base = some filled ∨
        ∀ name : PropertyName, Covers filled name.1 → (fetch.answers name).isSome = true := by
  cases fetch with
  | property property reply =>
      have unset := listening.missing property reply waits
      rw [Listener.resume, esconfCacheLookupLocked, unset]
      cases reply with
      | error error =>
          exact ⟨listener.cache.properties, listener.base, rfl, fun _ => rfl, fun _ => Or.inl⟩
      | ok variant =>
          have answers : ∀ name : PropertyName,
              (Fetch.property property (.ok variant)).answers name =
                if name.1 = property then some (esconfGvariantToGvalue variant) else none :=
            fun _ => rfl
          dsimp only
          rw [lookupFetched]
          cases decoded : esconfGvariantToGvalue variant with
          | none =>
              refine ⟨listener.cache.properties, listener.base, rfl, ?_, fun _ => Or.inl⟩
              intro name
              rw [answers, decoded]
              split
              · next same => rw [same, unset]; rfl
              · rfl
          | some value =>
              refine ⟨_, listener.base, rfl, ?_, fun _ => Or.inl⟩
              intro name
              rw [answers, decoded]
              split
              · next same => rw [same, Function.update_self]; rfl
              · next apart => exact Function.update_of_ne apart _ _
  | all base reply =>
      have blank := listening.empty base reply waits
      cases reply with
      | error error =>
          exact ⟨listener.cache.properties, listener.base, rfl, fun _ => rfl, fun _ => Or.inl⟩
      | ok table =>
          refine ⟨_, some base, rfl, ?_, ?_⟩
          · intro name
            rw [Fetch.answers, blank name.1, Option.or_none]
            split
            · rfl
            · next outside =>
                cases there : table name.1 with
                | none => rfl
                | some variant =>
                    exact absurd (listening.within base table waits name (by rw [there]; rfl))
                      outside
          · intro filled same
            cases same
            refine Or.inr ?_
            intro name below
            rw [Fetch.answers, if_pos below]
            rfl

theorem resume (listening : Listening host channelName listener) {fetch : Fetch}
    (waits : listener.fetching = some fetch) :
    Listening host channelName (listener.resume fetch) := by
  obtain ⟨properties, base, same, entries, _⟩ := listening.resumed waits
  rw [same]
  refine ⟨listening.channel, listening.passive, ?_, listening.signals, nofun, nofun, nofun, nofun⟩
  intro name value held
  change properties name.1 = some value at held
  rw [entries name] at held
  cases answered : fetch.answers name with
  | none =>
      rw [answered] at held
      exact listening.exactly name value held
  | some message =>
      rw [answered] at held
      cases held
      exact listening.fetching fetch waits name value answered

end Listening

namespace Copies

theorem send (copies : Copies channelName listener copy) {signals : List DaemonSignal}
    {message : PropertyName × Option GValue}
    (tells : signals.filterMap (DaemonSignal.announces channelName) = [message]) :
    Copies channelName (listener.send signals) (copy.send message) := by
  refine ⟨?_, copies.entries, copies.waiting, copies.known⟩
  change copy.messages ++ [message] = (listener.signals ++ signals).filterMap _
  rw [List.filterMap_append, tells, copies.messages]

theorem sendOthers (copies : Copies channelName listener copy) {signals : List DaemonSignal}
    (silent : signals.filterMap (DaemonSignal.announces channelName) = []) :
    Copies channelName (listener.send signals) copy := by
  refine ⟨?_, copies.entries, copies.waiting, copies.known⟩
  change copy.messages = (listener.signals ++ signals).filterMap _
  rw [List.filterMap_append, silent, copies.messages, List.append_nil]

theorem receive (copies : Copies channelName listener copy)
    (listening : Listening host channelName listener) {signal : DaemonSignal}
    {rest : List DaemonSignal} (first : listener.signals = signal :: rest) :
    let after : Listener := { listener with
      signals := rest, cache := esconfCacheProxySignalReceivedCb listener.cache signal }
    Copies channelName after copy ∨ ∃ name value others,
      copy.messages = (name, value) :: others ∧
      Copies channelName after (copy.take name value others) := by
  have member : signal ∈ listener.signals := by
    rw [first]
    exact List.mem_cons_self
  obtain ⟨properties, same, entries⟩ := received listening member
  have queue := copies.messages
  rw [first, List.filterMap_cons] at queue
  dsimp only
  rw [same]
  cases announces : signal.announces channelName with
  | none =>
      rw [announces] at queue entries
      refine Or.inl ⟨queue, ?_, copies.waiting, copies.known⟩
      intro name
      exact (copies.entries name).trans (entries name).symm
  | some announcement =>
      obtain ⟨about, value⟩ := announcement
      rw [announces] at queue entries
      refine Or.inr ⟨about, value, _, queue, rfl, ?_, copies.waiting, copies.known⟩
      intro name
      change Function.update copy.entries about value name = properties name.1
      rw [entries name, announced]
      by_cases here : about = name
      · rw [if_pos here, here, Function.update_self]
      · rw [if_neg here, Function.update_of_ne (Ne.symm here)]
        exact copies.entries name

theorem fetch (copies : Copies channelName listener copy) (fetch : Fetch) :
    Copies channelName { listener with fetching := some fetch }
      { copy with waiting := some fetch.answers } :=
  ⟨copies.messages, copies.entries, rfl, copies.known⟩

theorem resume (copies : Copies channelName listener copy)
    (listening : Listening host channelName listener) {fetch : Fetch}
    (waits : listener.fetching = some fetch) :
    Copies channelName (listener.resume fetch) (copy.resume fetch.answers) := by
  obtain ⟨properties, base, same, entries, covers⟩ := listening.resumed waits
  rw [same]
  refine ⟨copies.messages, ?_, rfl, ?_⟩
  · intro name
    change (fetch.answers name).getD (copy.entries name) = properties name.1
    rw [entries name, copies.entries name]
  · intro filled here name below
    rcases covers filled here with before | all
    · exact Or.inl (copies.known filled before name below)
    · exact Or.inr (all name below)

end Copies

theorem Announceable.lower {request : Request} (fine : Announceable host channelName xbpx request) :
    gAsciiStrdown request.channel = request.channel := by
  cases request <;> first | exact fine.1 | exact fine

theorem Served.reads (served : Served channelName maps xbpx) {request : Request}
    (about : request.channel = channelName)
    (reading : ∀ channel property value, request ≠ .set channel property value)
    (reading' : ∀ channel property recursive, request ≠ .reset channel property recursive)
    (performed : request.perform host xbpx = some after) : after = xbpx := by
  obtain ⟨_, channel, loaded, _⟩ := served
  rcases perform_cases host performed with same | reached
  · exact same
  cases request with
  | set name property value => exact absurd rfl (reading name property value)
  | reset name property recursive => exact absurd rfl (reading' name property recursive)
  | get name property =>
      cases (show name = channelName from about)
      obtain ⟨_, done⟩ := reached
      refine onChannel_reads host loaded ?_ done
      split <;> rfl
  | getAll name base =>
      cases (show name = channelName from about)
      obtain ⟨_, done⟩ := reached
      refine onChannel_reads host loaded ?_ done
      dsimp only
      split
      · split <;> rfl
      · rfl
  | «exists» name property =>
      cases (show name = channelName from about)
      obtain ⟨_, done⟩ := reached
      rw [perchannelXmlExists, findChannel_loaded host loaded] at done
      cases done
      rfl
  | isPropertyLocked name property =>
      cases (show name = channelName from about)
      obtain ⟨_, done⟩ := reached
      exact onChannel_reads host loaded rfl done

theorem Served.called (served : Served channelName maps xbpx) (exactly : ExactMaps host maps)
    (valid : esconfChannelIsValid channelName = none) {request : Request}
    (fine : Announceable host channelName xbpx request)
    (performed : request.perform host xbpx = some after) :
    ∃ maps' added, Served channelName maps' after ∧ ExactMaps host maps' ∧
      after.notices = xbpx.notices ++ added.map (Prod.mk request.channel) ∧
      if request.channel = channelName then Tells maps maps' added else maps' = maps := by
  have quiet : ∀ {maps : PropMaps}, Tells maps maps [] := fun _ _ differs => absurd rfl differs
  by_cases there : request.channel = channelName
  · simp only [if_pos there]
    have still : after = xbpx → ∃ maps' added, Served channelName maps' after ∧
        ExactMaps host maps' ∧
        after.notices = xbpx.notices ++ added.map (Prod.mk request.channel) ∧
        Tells maps maps' added := by
      rintro rfl
      exact ⟨maps, [], served, exactly, (List.append_nil _).symm, quiet⟩
    cases request with
    | set channel property value =>
        cases (show channel = channelName from there)
        obtain ⟨short, back⟩ := fine.2 rfl
        obtain ⟨⟨reply, last⟩, done, same⟩ := Option.map_eq_some_iff.mp performed
        cases same
        cases accepted : esconfPropertyIsValid property with
        | none =>
            obtain ⟨later, added, notices, tells⟩ := served.set valid accepted short done
            refine ⟨_, added, later, exactly.step ?_, notices, tells⟩
            intro other written same
            cases same
            exact back
        | some error =>
            apply still
            rcases guarded_cases done with ⟨failure, same⟩ | ⟨clear, _⟩
            · cases same
              rfl
            · have passed := List.findSome?_eq_none_iff.mp clear (esconfPropertyIsValid property)
                (by simp)
              rw [accepted] at passed
              cases passed
    | reset channel property recursive =>
        cases (show channel = channelName from there)
        obtain ⟨proper, rebuildable⟩ := fine.2 rfl
        obtain ⟨⟨reply, last⟩, done, same⟩ := Option.map_eq_some_iff.mp performed
        cases same
        cases accepted : esconfPropertyIsValid property with
        | none =>
            obtain ⟨maps', which, later, added, notices, tells⟩ :=
              served.reset valid accepted rebuildable done
            refine ⟨maps', added, later, ?_, notices, tells⟩
            rcases which with rfl | rfl
            · exact exactly
            · apply exactly.step
              intro other written same
              cases recursive <;> cases same
        | some error =>
            exact still (reset_refused host (by simp [accepted]) proper done)
    | _ => exact still (served.reads there (by simp) (by simp) performed)
  · simp only [if_neg there]
    have notifies := perform_notifies host performed
    obtain ⟨added, notices⟩ := notifies.notices
    exact ⟨maps, added, served.elsewhere there fine.lower (perform_confined host performed)
      notifies, exactly, notices, rfl⟩

end Told

variable {host} {channelName : CString} {maps : PropMaps} {n n' : SignalNetwork ι}
  {s : State ι PropertyName (Option GValue)}

/-- A step of the network is a step of the announced table, or nothing to it. -/
theorem Simulates.step (sim : Simulates host channelName maps n s)
    (valid : esconfChannelIsValid channelName = none) (step : NetworkStep host channelName n n') :
    ∃ maps' s', Relation.ReflTransGen Step s s' ∧ Simulates host channelName maps' n' s' := by
  obtain ⟨served, exactly, lower, table, due, copies, listening⟩ := sim
  have one : ∀ {i : ι} {listener : Listener} {copy : Copy PropertyName (Option GValue)},
      Copies channelName listener copy → ∀ j,
        Copies channelName (Function.update n.listeners i listener j)
          (Function.update s.copies i copy j) := by
    intro i listener copy here j
    by_cases same : j = i
    · rw [same, Function.update_self, Function.update_self]
      exact here
    · rw [Function.update_of_ne same, Function.update_of_ne same]
      exact copies j
  have each : ∀ {i : ι} {listener : Listener}, Listening host channelName listener → ∀ j,
      Listening host channelName (Function.update n.listeners i listener j) := by
    intro i listener here j
    by_cases same : j = i
    · rw [same, Function.update_self]
      exact here
    · rw [Function.update_of_ne same]
      exact listening j
  cases step with
  | @call request after fine performed =>
      obtain ⟨maps', added, served', exactly', notices, outcome⟩ :=
        served.called exactly valid fine performed
      have fresh : after.notices.drop n.daemon.notices.length =
          added.map (Prod.mk request.channel) := by
        rw [notices, List.drop_left]
      have lower' : ∀ told ∈ n.idles ++ after.notices.drop n.daemon.notices.length,
          gAsciiStrdown told.1 = told.1 := by
        intro told member
        rcases List.mem_append.mp member with old | new
        · exact lower told old
        · rw [fresh] at new
          obtain ⟨property, _, same⟩ := List.mem_map.mp new
          rw [← same]
          exact fine.lower
      refine ⟨maps', { s with
          table := maps'.table
          due := s.due ++ (added.map (Prod.mk request.channel)).filterMap (toldAbout channelName) },
        Relation.ReflTransGen.single (.change _ _ ?_), served', exactly', lower', rfl, ?_, copies,
        listening⟩
      · intro name differs
        by_cases there : request.channel = channelName
        · rw [if_pos there] at outcome
          rw [there]
          apply toldAbout_names
          apply outcome name.1 (propNameIsValid_of_property name.2)
          intro same
          apply differs
          rw [table, PropMaps.table, PropMaps.table, same]
        · rw [if_neg there] at outcome
          rw [outcome, table] at differs
          exact absurd rfl differs
      · rw [fresh, List.filterMap_append, due]
  | @save saving schedule device left after stays written =>
      have plain : ∀ name, propNameIsValid name = true →
          formattedValue (maps.user name) = maps.user name := fun _ => exactly.plain
      exact ⟨maps, s, .refl, served.saved plain stays written, exactly, lower, table, due, copies,
        listening⟩
  | @idle channel property rest signals after first emitted =>
      have lower' : ∀ told ∈ rest, gAsciiStrdown told.1 = told.1 := by
        intro told member
        apply lower
        rw [first]
        exact List.mem_cons_of_mem _ member
      rw [first, List.filterMap_cons] at due
      cases about : toldAbout channelName (channel, property) with
      | none =>
          have small : gAsciiStrdown channel = channel := lower (channel, property) (by
            rw [first]
            exact List.mem_cons_self)
          obtain ⟨served', silent⟩ := emitted_elsewhere served small about emitted
          rw [about] at due
          refine ⟨maps, s, .refl, served', exactly, lower', table, due, ?_, ?_⟩
          · intro i
            apply (copies i).sendOthers
            exact List.filterMap_eq_nil_iff.mpr fun signal member => (silent signal member).1
          · intro i
            apply (listening i).send
            intro other variant member accepted
            exact absurd accepted ((silent _ member).2 other variant rfl)
      | some name =>
          obtain ⟨there, asked⟩ := toldAbout_some about
          obtain ⟨signal, emits, announces, back⟩ := emitted_about served exactly valid name
          rw [show channel = channelName from there, show property = name.1 from asked, emits]
            at emitted
          cases emitted
          rw [about] at due
          have told : [signal].filterMap (DaemonSignal.announces channelName) =
              [(name, s.table name)] := by
            rw [List.filterMap_cons, announces, table]
            rfl
          refine ⟨maps, _, Relation.ReflTransGen.single (.announce name _ due), served, exactly,
            lower', table, rfl, fun i => (copies i).send told, ?_⟩
          intro i
          apply (listening i).send
          intro other variant member _
          exact back other variant (List.mem_singleton.mp member).symm
  | @receive i signal rest first free =>
      have listening' := (listening i).receive first free
      rcases (copies i).receive (listening i) first with same | ⟨name, value, others, queue, taken⟩
      · refine ⟨maps, s, .refl, served, exactly, lower, table, due, ?_, each listening'⟩
        have kept := @one i _ _ same
        rwa [Function.update_eq_self] at kept
      · have idle : (s.copies i).waiting = none := by
          rw [(copies i).waiting, free]
          rfl
        exact ⟨maps, _, Relation.ReflTransGen.single (.take i name value others queue idle), served,
          exactly, lower, table, due, one taken, each listening'⟩
  | @lookup i property reply after free missing answered =>
      obtain ⟨still, right⟩ := lookup_answers served exactly valid answered
      rw [still]
      refine ⟨maps, _, Relation.ReflTransGen.single (.ask i (Fetch.answers _) ?_), served, exactly,
        lower, table, due, one ((copies i).fetch _), each ((listening i).fetch ?_ ?_ nofun nofun)⟩
      · intro name value told
        rw [table]
        exact (right name value told).1
      · intro name value told
        exact (right name _ told).2 value rfl
      · intro other reply' same
        cases same
        exact missing
  | @prefetch i base reply after free empty answered =>
      obtain ⟨still, right, within⟩ := prefetch_answers served exactly valid answered
      rw [still]
      refine ⟨maps, _, Relation.ReflTransGen.single (.ask i (Fetch.answers _) ?_), served, exactly,
        lower, table, due, one ((copies i).fetch _), each ((listening i).fetch ?_ nofun ?_ ?_)⟩
      · intro name value told
        rw [table]
        exact (right name value told).1
      · intro name value told
        exact (right name _ told).2 value rfl
      · intro _ _ _
        exact empty
      · intro other table' same
        cases reply with
        | ok sent =>
            cases same
            exact within table' rfl
        | error error => cases same
  | @resume i fetch waits =>
      have waiting : (s.copies i).waiting = some fetch.answers := by
        rw [(copies i).waiting, waits]
        rfl
      exact ⟨maps, _, Relation.ReflTransGen.single (.resume i _ waiting), served, exactly, lower,
        table, due, one ((copies i).resume (listening i) waits),
        each ((listening i).resume waits)⟩

theorem Simulates.run (sim : Simulates host channelName maps n s)
    (valid : esconfChannelIsValid channelName = none)
    (run : Relation.ReflTransGen (NetworkStep host channelName) n n') :
    ∃ maps' s', Relation.ReflTransGen Step s s' ∧ Simulates host channelName maps' n' s' := by
  induction run with
  | refl => exact ⟨maps, s, .refl, sim⟩
  | tail _ step ih =>
      obtain ⟨maps', s', run, sim'⟩ := ih
      obtain ⟨maps'', s'', more, sim''⟩ := sim'.step valid step
      exact ⟨maps'', s'', run.trans more, sim''⟩

/-- Clients that start with an empty cache, and whatever is called, announced and asked in
whatever order: once a change of a property is not to be announced any more and no signal
about it is on its way to a client, what the client has cached for it is what the daemon has;
and below the base that the cache has been filled with, it has all that the daemon has. -/
theorem listeners_agree (valid : esconfChannelIsValid channelName = none)
    (served : Served channelName maps n.daemon) (exactly : ExactMaps host maps)
    (started : n.idles = []) (fresh : ∀ i, n.listeners i = .fresh channelName)
    (run : Relation.ReflTransGen (NetworkStep host channelName) n n') {property : CString}
    (accepted : esconfPropertyIsValid property = none)
    (announced : (channelName, property) ∉ n'.idles) {i : ι}
    (arrived : ∀ signal ∈ (n'.listeners i).signals, signal.about ≠ (channelName, property)) :
    ∃ answer, esconfBackendGet host n'.daemon channelName property = some (answer, n'.daemon) ∧
      (∀ value, (n'.listeners i).cache.properties property = some value → answer = .ok value) ∧
      ∀ base, (n'.listeners i).base = some base → Covers base property → ∀ value,
        (n'.listeners i).cache.properties property = some value ↔ answer = .ok value := by
  have sim : Simulates host channelName maps n ⟨maps.table, [], fun _ => Copy.fresh none⟩ := by
    refine ⟨served, exactly, by simp [started], rfl, by simp [started], ?_, ?_⟩
    · intro i
      rw [fresh i]
      exact ⟨rfl, fun _ => rfl, rfl, nofun⟩
    · intro i
      rw [fresh i]
      exact ⟨rfl, fun _ => rfl, nofun, nofun, nofun, nofun, nofun, nofun⟩
  obtain ⟨maps', s', steps, after⟩ := sim.run valid run
  have settled := @copies_agree _ _ _ _ _ none _ _ (fun _ => rfl) steps i ⟨property, accepted⟩ (by
    rw [after.due]
    intro due
    obtain ⟨told, member, about⟩ := List.mem_filterMap.mp due
    obtain ⟨there, named⟩ := toldAbout_some about
    apply announced
    rwa [← show told = (channelName, property) from Prod.ext there named]) (by
    rw [(after.copies i).messages]
    rintro ⟨name, value⟩ sent rfl
    obtain ⟨signal, member, announces⟩ := List.mem_filterMap.mp sent
    apply arrived signal member
    rcases announces_some announces with ⟨_, rfl, _⟩ | ⟨rfl, _⟩ <;> rfl)
  rw [(after.copies i).entries, after.table, PropMaps.table] at settled
  have given : ∀ value, (if (maps'.effective property).isSet = true then
      some (maps'.effective property) else none) = some value ↔
      (if (maps'.effective property).isSet = true then .ok (maps'.effective property)
        else .error (some (propertyNotFound property channelName)) :
          Except (Option GError) GValue) = .ok value := by
    intro value
    split <;> simp
  refine ⟨_, after.served.get host valid accepted, ?_, ?_⟩
  · intro value cached
    rcases settled with same | ⟨blank, _⟩
    · exact (given value).mp (same.symm.trans cached)
    · rw [blank] at cached
      cases cached
  · intro base filled covers value
    rcases settled with same | ⟨_, unknown⟩
    · rw [← given value, ← same]
    · exact absurd ((after.copies i).known base filled ⟨property, accepted⟩ covers) unknown

def unsetMaps : PropMaps := ⟨fun _ => .invalid, fun _ => .invalid⟩

theorem served_root : Served "c".toList unsetMaps (.idle (.singleton "c".toList .root)) := by
  have blank : ∀ path, PropTree.root.slot path = .blank := SystemReading.root_slot
  refine ⟨rfl, .root, rfl, wellNamed_of_names rfl rfl tidy_root.distinct (by decide),
    tidy_root.distinct, unlocked_root.each, ?_, ?_⟩
  · intro name _
    exact congrArg EsconfProperty.value (blank _)
  · intro name _
    exact congrArg EsconfProperty.systemValue (blank _)

def beginning : SignalNetwork Unit :=
  ⟨.idle (.singleton "c".toList .root), [], fun _ => .fresh "c".toList⟩

/-- A property is changed while the reply with its first value is on its way. -/
theorem listeners_agree_overtaken : ∃ n : SignalNetwork Unit,
    Relation.ReflTransGen (NetworkStep (.bare []) "c".toList) beginning n ∧
      (n.listeners ()).cache.properties "/a".toList = some (.int 2) ∧
      esconfBackendGet (.bare []) n.daemon "c".toList "/a".toList =
        some (.ok (.int 2), n.daemon) := by
  have fine : ∀ (xbpx : EsconfBackendPerchannelXml) (value : Int32),
      Announceable (.bare []) "c".toList xbpx (.set "c".toList "/a".toList (.int value)) :=
    fun _ _ => ⟨by decide, fun _ => ⟨by decide, trivial⟩⟩
  have ran : ∃ n : SignalNetwork Unit,
      Relation.ReflTransGen (NetworkStep (.bare []) "c".toList) beginning n ∧ n.idles = [] ∧
        (n.listeners ()).signals = [] ∧
        (n.listeners ()).cache.properties "/a".toList = some (.int 2) :=
    ⟨_, (((((((Relation.ReflTransGen.single
      (@NetworkStep.call _ _ _ "c".toList beginning _ _ (fine _ 1) rfl)).tail
      (@NetworkStep.prefetch _ _ _ _ _ () [] _ _ rfl (fun _ => rfl) rfl)).tail
      (.call (fine _ 2) rfl)).tail (.resume () rfl)).tail (.idle rfl rfl)).tail
      (.idle rfl rfl)).tail (.receive () rfl rfl)).tail (.receive () rfl rfl), rfl, rfl, rfl⟩
  obtain ⟨n, run, announced, arrived, entry⟩ := ran
  have exactly : ExactMaps (.bare []) unsetMaps := by
    intro _ _
    constructor <;> nofun
  have reached : ∀ signal ∈ (n.listeners ()).signals,
      signal.about ≠ ("c".toList, "/a".toList) := by simp [arrived]
  obtain ⟨answer, got, cached, _⟩ := listeners_agree (by decide) served_root exactly rfl
    (fun _ => rfl) run (by decide : esconfPropertyIsValid "/a".toList = none) (by simp [announced])
    reached
  rw [cached _ entry] at got
  exact ⟨n, run, entry, got⟩

end Esconf
