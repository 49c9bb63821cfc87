import Esconf.CacheProtocol
import Esconf.RejectedSets
import Esconf.SettingsBackend

/-! The origin tags of the GSettings backend: which change a signal is announced with, when other
processes change the same keys. -/

namespace Esconf.Client

/-- The origin tag of a call; NULL is `none`. -/
abbrev OriginTag := Option Nat

/-- Whose change a value is. The calls of the backend are numbered, and what a rejected set put
back is nobody's. -/
inductive ChangeSource where
  | call (number : Nat)
  | other
  | rollback
  deriving DecidableEq

structure SettingRequest where
  number : Nat
  property : CString
  variant : GVariant

structure SettingSignal where
  property : CString
  message : BusMessage
  source : ChangeSource

/-- A call of `g_settings_backend_changed`. -/
structure ChangedCall where
  key : CString
  originTag : OriginTag
  source : ChangeSource

/-- `values` are the properties in the daemon, and `idles` those of its idle functions still to
run. `sources`, `made`, the calls of the backend with their tags, and `announced` are records,
which nothing reads. -/
structure OriginTags where
  client : CacheClient
  changedProp : CString → Option OriginTag
  values : CString → Option GValue
  sources : CString → ChangeSource
  idles : List CString
  requests : List SettingRequest
  signals : List SettingSignal
  made : List (CString × OriginTag)
  announced : List ChangedCall

abbrev PropertyChange := CString × Option GValue

/-- What happens, with the answers of the daemon: `write` and `reset` are calls of the backend,
`traverse` is a write of a tree's key and `read` any lookup, also one of those that fill a new
cache; `other` are changes by another process, and `process` is the daemon taking up a SetProperty
request. A callback may run at any time. -/
inductive TagEvent where
  | write (key : CString) (variant : GVariant) (originTag : OriginTag)
      (reply : Except DBusError GVariant)
  | traverse (key : CString) (variant : GVariant) (reply : Except DBusError GVariant)
  | reset (key : CString) (originTag : OriginTag)
      (answer : Except DBusError (List PropertyChange))
  | read (key : CString) (reply : Except DBusError GVariant)
  | other (changes : List PropertyChange)
  | process (answer : Except DBusError Unit)
  | idle (index : Nat)
  | deliver
  | callback (index : Nat) (finish : Except DBusError Unit)

namespace OriginTags

def start (values : CString → Option GValue) : OriginTags :=
  { client := .new settingsName, changedProp := fun _ => none, values, sources := fun _ => .other,
    idles := [], requests := [], signals := [], made := [], announced := [] }

/-- `g_hash_table_replace` of `changed_prop`, by a call that is recorded. -/
def park (tags : OriginTags) (key : CString) (originTag : OriginTag) : OriginTags :=
  { tags with changedProp := Function.update tags.changedProp key (some originTag) }

/-- `g_hash_table_remove` of `changed_prop`. -/
def unpark (tags : OriginTags) (key : CString) : OriginTags :=
  { tags with changedProp := Function.update tags.changedProp key none }

def record (tags : OriginTags) (key : CString) (originTag : OriginTag) : OriginTags :=
  { tags with made := tags.made ++ [(key, originTag)] }

def change (source : ChangeSource) (tags : OriginTags) (change : PropertyChange) : OriginTags :=
  { tags with
    values := Function.update tags.values change.1 change.2
    sources := Function.update tags.sources change.1 source
    idles := tags.idles ++ [change.1] }

variable (text : VariantText) (host : Host) (subscribedProp : List CString)

/-- `esconf_gsettings_backend_property_changed_cb`. -/
def esconfGsettingsBackendPropertyChangedCb (tags : OriginTags) (property : CString)
    (source : ChangeSource) : OriginTags :=
  match tags.changedProp property with
  | some originTag =>
    unpark { tags with announced := tags.announced ++ [⟨property, originTag, source⟩] } property
  | none =>
    if subscribedProp.any (·.isPrefixOf property) then
      { tags with announced := tags.announced ++ [⟨property, none, source⟩] }
    else tags

def announce (tags : OriginTags) (announced : Announced) (source : ChangeSource) : OriginTags :=
  match announced with
  | none => tags
  | some (property, _) => esconfGsettingsBackendPropertyChangedCb subscribedProp tags property source

def cacheEvent (tags : OriginTags) (event : CacheEvent) (source : ChangeSource) :
    Option OriginTags :=
  (tags.client.step host event).map fun client =>
    announce subscribedProp { tags with client } (tags.client.announces host event) source

def takeSet (tags : OriginTags) (number : Nat) (outcome : SetReturn) : OriginTags :=
  { tags with
    client := ⟨outcome.cache, tags.client.calls ++ outcome.call.toList⟩
    requests := tags.requests ++
      outcome.call.toList.map fun call => ⟨number, call.property, call.variant⟩ }

/-- `esconf_channel_set_property`, down to the cache. -/
def setProperty (client : CacheClient) (key : CString) (value : GValue)
    (reply : Except DBusError GVariant) : Option SetReturn :=
  if !value.isSet || !holdsValidString host value then
    some ⟨false, none, client.cache, none, none⟩
  else esconfCacheSet host client.cache key value reply

/-- `esconf_gsettings_backend_write_full`. -/
def esconfGsettingsBackendWriteFull (tags : OriginTags) (key : CString) (variant : GVariant)
    (addSigChanged : Bool) (originTag : OriginTag) (reply : Except DBusError GVariant) :
    Option OriginTags :=
  let called := tags.record key originTag
  let parked := if addSigChanged then called.park key originTag else called
  (setProperty host tags.client key (settingValue text variant) reply).map fun outcome =>
    let number := tags.made.length
    let set := announce subscribedProp (parked.takeSet number outcome) outcome.announced
      (.call number)
    if outcome.ret = false ∧ addSigChanged = true then set.unpark key else set

/-- `esconf_gsettings_backend_reset`. The call blocks until the daemon, having taken up all
requests, has answered; what is changed is up to the files. -/
def esconfGsettingsBackendReset (tags : OriginTags) (key : CString) (originTag : OriginTag)
    (answer : Except DBusError (List PropertyChange)) : Option OriginTags :=
  if tags.requests.isEmpty then
    let called := (tags.record key originTag).park key originTag
    match answer with
    | .ok changes =>
      some { changes.foldl (change (.call tags.made.length)) called with
        client := { called.client with
          cache := (esconfCacheReset called.client.cache key true (.ok ())).2.2 } }
    | .error _ => some called
  else none

def process (tags : OriginTags) (answer : Except DBusError Unit) : Option OriginTags :=
  match tags.requests with
  | [] => none
  | request :: rest =>
    match answer, esconfGvariantToGvalue request.variant with
    | .ok (), some value =>
      if backendChanges (tags.values request.property) (some value) then
        some ({ tags with requests := rest }.change (.call request.number)
          (request.property, some value))
      else some { tags with requests := rest }
    | _, _ => some { tags with requests := rest }

def runIdle (tags : OriginTags) (index : Nat) : Option OriginTags :=
  tags.idles[index]?.map fun property =>
    { tags with
      idles := tags.idles.eraseIdx index
      signals := tags.signals ++
        (esconfDaemonEmitPropertyChangedIdled host (tags.values property)).map fun message =>
          ⟨property, message, tags.sources property⟩ }

def received (cache : EsconfCache) (property : CString) : BusMessage → Option CacheEvent
  | .propertyChanged variant => some (.propertyChanged cache.channelName property variant)
  | .propertyRemoved => some (.propertyRemoved cache.channelName property)
  | .setPropertyReply _ => none

def deliver (tags : OriginTags) : Option OriginTags :=
  match tags.signals with
  | [] => none
  | signal :: rest =>
    (received tags.client.cache signal.property signal.message).bind fun event =>
      { tags with signals := rest }.cacheEvent host subscribedProp event signal.source

def step (tags : OriginTags) : TagEvent → Option OriginTags
  | .write key variant originTag reply =>
    tags.esconfGsettingsBackendWriteFull text host subscribedProp key variant true originTag reply
  | .traverse key variant reply =>
    tags.esconfGsettingsBackendWriteFull text host subscribedProp key variant false none reply
  | .reset key originTag answer => tags.esconfGsettingsBackendReset key originTag answer
  | .read key reply => tags.cacheEvent host subscribedProp (.lookup key reply) .rollback
  | .other changes => some (changes.foldl (change .other) tags)
  | .process answer => tags.process answer
  | .idle index => tags.runIdle host index
  | .deliver => tags.deliver host subscribedProp
  | .callback index finish =>
    tags.cacheEvent host subscribedProp (.callback index finish) .rollback

def Untagged (tags : OriginTags) (key : CString) : Prop :=
  ∀ tag, tags.changedProp key ≠ some (some tag)

def firstSignal (tags : OriginTags) (key : CString) : Option SettingSignal :=
  tags.signals.find? (·.property == key)

def findsEqual (client : CacheClient) (key : CString) (value : GValue)
    (reply : Except DBusError GVariant) : Bool :=
  value.isSet && holdsValidString host value &&
    (esconfCacheLookupLocked client.cache key reply).1.any (GValue.isEqual · value)

def WillTell (tags : OriginTags) (key : CString)
    (answer : Except DBusError (List PropertyChange)) : Prop :=
  tags.firstSignal key = none ∧ ∃ changes, answer = .ok changes ∧ key ∈ changes.map Prod.fst ∧
    ∀ left, (key, left) ∈ changes → esconfDaemonEmitPropertyChangedIdled host left ≠ []

def KeepsOff (tags : OriginTags) (changes : List PropertyChange) : Prop :=
  ∀ change ∈ changes, tags.Untagged change.1 ∨ tags.firstSignal change.1 ≠ none

/-- The event leaves no tag in the table that has no change to come, and lets no other change
come first. -/
def Careful (tags : OriginTags) : TagEvent → Prop
  | .write key variant originTag reply =>
    originTag = none ∨ findsEqual host tags.client key (settingValue text variant) reply = false
  | .traverse key variant reply =>
    tags.Untagged key ∨
      tags.client.announces host (.set key (settingValue text variant) reply) = none
  | .reset key originTag answer =>
    (originTag = none ∨ tags.WillTell host key answer) ∧
      ∀ changes, answer = .ok changes → tags.KeepsOff (changes.filter (·.1 ≠ key))
  | .other changes => tags.KeepsOff changes
  | .deliver => ∀ signal rest event, tags.signals = signal :: rest →
      received tags.client.cache signal.property signal.message = some event →
        tags.Untagged signal.property ∨ tags.client.announces host event ≠ none
  | .callback index finish => ∀ key value,
      tags.client.announces host (.callback index finish) = some (key, value) → tags.Untagged key
  | .read .. | .process _ | .idle _ => True

/-- The backend after events that are all careful. -/
inductive CarefullyReached : OriginTags → Prop where
  | start (values : CString → Option GValue) : CarefullyReached (start values)
  | step {tags next : OriginTags} {event : TagEvent} (reached : CarefullyReached tags)
      (careful : tags.Careful text host event)
      (stepped : tags.step text host subscribedProp event = some next) : CarefullyReached next

variable {text host subscribedProp} {tags after : OriginTags} {key : CString} {number : Nat}

def Credited (made : List (CString × OriginTag)) (call : ChangedCall) : Prop :=
  ∀ tag, call.originTag = some tag →
    ∃ number, call.source = .call number ∧ made[number]? = some (call.key, some tag)

def Next (host : Host) (tags : OriginTags) (key : CString) (number : Nat) : Prop :=
  (∃ signal, tags.firstSignal key = some signal ∧ signal.source = .call number) ∨
    (tags.firstSignal key = none ∧ key ∈ tags.idles ∧ tags.sources key = .call number ∧
      esconfDaemonEmitPropertyChangedIdled host (tags.values key) ≠ [])

def Owed (host : Host) (tags : OriginTags) (key : CString) (tag : Nat) : Prop :=
  (∃ number, tags.made[number]? = some (key, some tag) ∧ Next host tags key number) ∧
    ∀ request ∈ tags.requests, request.property ≠ key

structure Accounted (host : Host) (tags : OriginTags) : Prop where
  announced : ∀ call ∈ tags.announced, Credited tags.made call
  waiting : ∀ key tag, tags.changedProp key = some (some tag) → Owed host tags key tag

theorem Credited.append {made : List (CString × OriginTag)} {call : ChangedCall}
    (credited : Credited made call) (later : List (CString × OriginTag)) :
    Credited (made ++ later) call := by
  intro tag tagged
  obtain ⟨number, source, there⟩ := credited tag tagged
  obtain ⟨small, _⟩ := List.getElem?_eq_some_iff.mp there
  exact ⟨number, source, by rw [List.getElem?_append_left small, there]⟩

theorem Next.frame (next : Next host tags key number)
    (first : after.firstSignal key = tags.firstSignal key)
    (idles : key ∈ tags.idles → key ∈ after.idles)
    (kept : tags.firstSignal key ≠ none ∨
      after.values key = tags.values key ∧ after.sources key = tags.sources key) :
    Next host after key number := by
  rcases next with ⟨signal, sent, source⟩ | ⟨none, idle, source, sendable⟩
  · exact Or.inl ⟨signal, first.trans sent, source⟩
  · obtain ⟨values, sources⟩ := kept.resolve_left fun some => some none
    exact Or.inr ⟨first.trans none, idles idle, sources.trans source, values ▸ sendable⟩

theorem announce_cases (tags : OriginTags) (announced : Announced) (source : ChangeSource) :
    ∃ changedProp log,
      announce subscribedProp tags announced source =
        { tags with changedProp := changedProp, announced := log } ∧
      (∀ key tag, changedProp key = some (some tag) →
        tags.changedProp key = some (some tag) ∧ ∀ value, announced ≠ some (key, value)) ∧
      ((∀ key value tag, announced = some (key, value) →
          tags.changedProp key = some (some tag) → Credited tags.made ⟨key, some tag, source⟩) →
        (∀ call ∈ tags.announced, Credited tags.made call) →
          ∀ call ∈ log, Credited tags.made call) := by
  cases announced with
  | none => exact ⟨_, _, rfl, fun key tag there => ⟨there, nofun⟩, fun _ before => before⟩
  | some pair =>
      obtain ⟨property, value⟩ := pair
      simp only [announce, esconfGsettingsBackendPropertyChangedCb]
      cases found : tags.changedProp property with
      | some originTag =>
          refine ⟨_, _, rfl, ?_, ?_⟩
          · intro key tag there
            by_cases same : key = property
            · rw [same, Function.update_self] at there
              cases there
            · rw [Function.update_of_ne same] at there
              refine ⟨there, ?_⟩
              rintro value ⟨⟩
              exact same rfl
          · intro credit before call member
            rcases List.mem_append.mp member with old | new
            · exact before call old
            · rw [List.mem_singleton.mp new]
              rintro tag rfl
              exact credit property value tag rfl found tag rfl
      | none =>
          have waiting : ∀ key tag, tags.changedProp key = some (some tag) →
              tags.changedProp key = some (some tag) ∧
                ∀ other, some (property, value) ≠ some (key, other) := by
            refine fun key tag there => ⟨there, ?_⟩
            rintro other ⟨⟩
            cases found.symm.trans there
          dsimp only
          split
          · refine ⟨_, _, rfl, waiting, ?_⟩
            intro _ before call member
            rcases List.mem_append.mp member with old | new
            · exact before call old
            · rw [List.mem_singleton.mp new]
              exact nofun
          · exact ⟨_, _, rfl, waiting, fun _ before => before⟩

theorem Owed.frame {tag : Nat} (owed : Owed host tags key tag)
    (made : tags.made <+: after.made) (first : after.firstSignal key = tags.firstSignal key)
    (idles : key ∈ tags.idles → key ∈ after.idles)
    (kept : tags.firstSignal key ≠ none ∨
      after.values key = tags.values key ∧ after.sources key = tags.sources key)
    (requests : ∀ request ∈ after.requests, request ∈ tags.requests ∨ request.property ≠ key) :
    Owed host after key tag := by
  obtain ⟨⟨number, there, next⟩, apart⟩ := owed
  obtain ⟨later, grown⟩ := made
  obtain ⟨small, _⟩ := List.getElem?_eq_some_iff.mp there
  refine ⟨⟨number, ?_, next.frame first idles kept⟩, ?_⟩
  · rw [← grown, List.getElem?_append_left small, there]
  intro request member
  exact (requests request member).elim (apart request) id

theorem announce_accounted {announced : Announced} {source : ChangeSource}
    (before : ∀ call ∈ tags.announced, Credited tags.made call)
    (credit : ∀ key value tag, announced = some (key, value) →
      tags.changedProp key = some (some tag) → Credited tags.made ⟨key, some tag, source⟩)
    (owed : ∀ key tag, tags.changedProp key = some (some tag) →
      (∀ value, announced ≠ some (key, value)) → Owed host tags key tag) :
    Accounted host (announce subscribedProp tags announced source) := by
  obtain ⟨changedProp, log, same, waiting, credited⟩ :=
    @announce_cases subscribedProp tags announced source
  rw [same]
  refine ⟨credited credit before, ?_⟩
  intro key tag there
  obtain ⟨parked, other⟩ := waiting key tag there
  exact owed key tag parked other

theorem cacheEvent_accounted (accounted : Accounted host tags) {event : CacheEvent}
    {source : ChangeSource} (stepped : tags.cacheEvent host subscribedProp event source = some after)
    (credit : ∀ key value tag, tags.client.announces host event = some (key, value) →
      tags.changedProp key = some (some tag) → Credited tags.made ⟨key, some tag, source⟩) :
    Accounted host after := by
  obtain ⟨client, _, rfl⟩ := Option.map_eq_some_iff.mp stepped
  exact announce_accounted accounted.announced credit fun key tag there _ =>
    accounted.waiting key tag there

theorem setProperty_outcome {client : CacheClient} {value : GValue}
    {reply : Except DBusError GVariant} {outcome : SetReturn}
    (returned : setProperty host client key value reply = some outcome) :
    (outcome.ret = true ∧ outcome.announced = some (key, value) ∧
        (∃ call, outcome.call = some call ∧ call.property = key) ∧
        client.announces host (.set key value reply) ≠ none) ∨
      (outcome.announced = none ∧ outcome.call = none ∧
        (outcome.ret = true → findsEqual host client key value reply = true)) := by
  unfold setProperty at returned
  split at returned
  · cases returned
    exact Or.inr ⟨rfl, rfl, nofun⟩
  · next accepted =>
      have announces : client.announces host (.set key value reply) = outcome.announced := by
        rw [CacheClient.announces, returned, Option.bind_some]
      have valid : (value.isSet && holdsValidString host value) = true := by
        simpa using accepted
      unfold findsEqual
      rw [valid, Bool.true_and, announces]
      rcases esconfCacheSet_outcome returned with ⟨ret, told, call⟩ | quiet
      · exact Or.inl ⟨ret, told, call, by rw [told]; exact Option.some_ne_none _⟩
      · exact Or.inr quiet

structure Concerns (key : CString) (tags after : OriginTags) : Prop where
  made : tags.made <+: after.made
  announced : after.announced = tags.announced
  signals : after.signals = tags.signals
  idles : after.idles = tags.idles
  values : after.values = tags.values
  sources : after.sources = tags.sources
  requests : ∀ request ∈ after.requests, request ∈ tags.requests ∨ request.property = key
  others : ∀ other, other ≠ key → after.changedProp other = tags.changedProp other

theorem Concerns.refl (key : CString) (tags : OriginTags) : Concerns key tags tags :=
  ⟨List.prefix_rfl, rfl, rfl, rfl, rfl, rfl, fun _ => Or.inl, fun _ _ => rfl⟩

theorem Concerns.record (concerns : Concerns key tags after) (originTag : OriginTag) :
    Concerns key tags (after.record key originTag) :=
  { concerns with made := concerns.made.trans (List.prefix_append ..) }

theorem Concerns.update (concerns : Concerns key tags after) (parked : Option OriginTag) :
    Concerns key tags
      { after with changedProp := Function.update after.changedProp key parked } :=
  { concerns with
    others := fun other apart =>
      (Function.update_of_ne apart ..).trans (concerns.others other apart) }

theorem Concerns.takeSet (concerns : Concerns key tags after) (number : Nat) (outcome : SetReturn)
    (mine : ∀ call, outcome.call = some call → call.property = key) :
    Concerns key tags (after.takeSet number outcome) := by
  refine { concerns with requests := ?_ }
  intro request member
  rcases List.mem_append.mp member with before | new
  · exact concerns.requests request before
  · obtain ⟨call, called, rfl⟩ := List.mem_map.mp new
    exact Or.inr (mine call (Option.mem_toList.mp called))

theorem Concerns.announced_credited (concerns : Concerns key tags after)
    (accounted : Accounted host tags) : ∀ call ∈ after.announced, Credited after.made call := by
  intro call member
  rw [concerns.announced] at member
  obtain ⟨later, grown⟩ := concerns.made
  exact grown ▸ (accounted.announced call member).append later

theorem Concerns.owed (concerns : Concerns key tags after) (accounted : Accounted host tags)
    {other : CString} {tag : Nat} (apart : other ≠ key)
    (there : after.changedProp other = some (some tag)) : Owed host after other tag := by
  rw [concerns.others other apart] at there
  refine (accounted.waiting other tag there).frame concerns.made
    (congrArg (List.find? _) concerns.signals) ?_ ?_ ?_
  · exact fun idle => concerns.idles ▸ idle
  · exact Or.inr ⟨congrFun concerns.values other, congrFun concerns.sources other⟩
  · intro request member
    refine (concerns.requests request member).imp_right fun mine => ?_
    rw [mine]
    exact apart.symm

theorem Concerns.untagged (concerns : Concerns key tags after) (accounted : Accounted host tags)
    (untagged : after.Untagged key) : Accounted host after := by
  refine ⟨concerns.announced_credited accounted, ?_⟩
  intro other tag there
  have apart : other ≠ key := by
    rintro rfl
    exact untagged tag there
  exact concerns.owed accounted apart there

theorem Concerns.announce (concerns : Concerns key tags after) (accounted : Accounted host tags)
    {value : GValue} {source : ChangeSource}
    (credit : ∀ tag, after.changedProp key = some (some tag) →
      Credited after.made ⟨key, some tag, source⟩) :
    Accounted host (announce subscribedProp after (some (key, value)) source) := by
  refine announce_accounted (concerns.announced_credited accounted) ?_ ?_
  · rintro other _ tag ⟨⟩ there
    exact credit tag there
  · intro other tag there unannounced
    have apart : other ≠ key := by
      rintro rfl
      exact unannounced value rfl
    exact concerns.owed accounted apart there

theorem write_accounted (accounted : Accounted host tags) {variant : GVariant}
    {originTag : OriginTag} {reply : Except DBusError GVariant}
    (careful : tags.Careful text host (.write key variant originTag reply))
    (stepped : tags.step text host subscribedProp (.write key variant originTag reply) =
      some after) : Accounted host after := by
  obtain ⟨outcome, returned, rfl⟩ := Option.map_eq_some_iff.mp stepped
  have parked : Concerns key tags ((tags.record key originTag).park key originTag) :=
    ((Concerns.refl key tags).record originTag).update (some originTag)
  rcases setProperty_outcome returned with ⟨ret, told, ⟨call, called, named⟩, _⟩ |
    ⟨quiet, uncalled, equal⟩
  · have concerns := parked.takeSet tags.made.length outcome
      fun _ same => Option.some.inj (called.symm.trans same) ▸ named
    simp only [ret, told, Bool.true_eq_false, false_and, if_false, if_true]
    refine concerns.announce accounted ?_
    intro tag there
    have own : originTag = some tag := by
      simpa [takeSet, park] using there
    rintro _ ⟨⟩
    exact ⟨_, rfl, by simp [takeSet, record, park, own]⟩
  · have concerns := parked.takeSet tags.made.length outcome
      fun _ same => nomatch uncalled.symm.trans same
    simp only [quiet, OriginTags.announce]
    cases ret : outcome.ret with
    | true =>
        have null : originTag = none := by
          refine careful.resolve_right fun differs => ?_
          rw [equal ret] at differs
          cases differs
        simp only [Bool.true_eq_false, false_and, if_false, if_true]
        refine concerns.untagged accounted ?_
        intro tag there
        simp [takeSet, park, null] at there
    | false =>
        simp only [true_and, if_true]
        refine (concerns.update none).untagged accounted ?_
        intro tag there
        simp at there

theorem traverse_accounted (accounted : Accounted host tags) {variant : GVariant}
    {reply : Except DBusError GVariant}
    (careful : tags.Careful text host (.traverse key variant reply))
    (stepped : tags.step text host subscribedProp (.traverse key variant reply) = some after) :
    Accounted host after := by
  obtain ⟨outcome, returned, rfl⟩ := Option.map_eq_some_iff.mp stepped
  have recorded := (Concerns.refl key tags).record none
  simp only [Bool.false_eq_true, and_false, if_false]
  rcases setProperty_outcome returned with ⟨_, told, ⟨call, called, named⟩, announces⟩ |
    ⟨quiet, uncalled, _⟩
  · have concerns := recorded.takeSet tags.made.length outcome
      fun _ same => Option.some.inj (called.symm.trans same) ▸ named
    rw [told]
    exact concerns.announce accounted fun tag there =>
      absurd there (careful.resolve_right announces tag)
  · have concerns := recorded.takeSet tags.made.length outcome
      fun _ same => nomatch uncalled.symm.trans same
    rw [quiet]
    refine ⟨concerns.announced_credited accounted, ?_⟩
    intro other tag there
    refine (accounted.waiting other tag there).frame concerns.made rfl id (Or.inr ⟨rfl, rfl⟩) ?_
    intro request member
    simp only [takeSet, uncalled, Option.toList_none, List.map_nil, List.append_nil] at member
    exact Or.inl member

theorem changes_foldl (source : ChangeSource) (changes : List PropertyChange)
    (tags : OriginTags) :
    ∃ values sources, changes.foldl (change source) tags =
        { tags with
          values := values, sources := sources, idles := tags.idles ++ changes.map Prod.fst } ∧
      (∀ key, key ∉ changes.map Prod.fst →
        values key = tags.values key ∧ sources key = tags.sources key) ∧
      ∀ key ∈ changes.map Prod.fst, sources key = source ∧ (key, values key) ∈ changes := by
  induction changes generalizing tags with
  | nil =>
      refine ⟨tags.values, tags.sources, ?_, fun _ _ => ⟨rfl, rfl⟩, nofun⟩
      simp
  | cons first rest ih =>
      obtain ⟨values, sources, same, aside, changed⟩ := ih (change source tags first)
      refine ⟨values, sources, ?_, ?_, ?_⟩
      · rw [List.foldl_cons, same]
        simp [change]
      · intro key outside
        rw [List.map_cons, List.mem_cons, not_or] at outside
        obtain ⟨value, known⟩ := aside key outside.2
        rw [value, known]
        exact ⟨Function.update_of_ne outside.1 .., Function.update_of_ne outside.1 ..⟩
      · intro key member
        by_cases later : key ∈ rest.map Prod.fst
        · obtain ⟨known, there⟩ := changed key later
          exact ⟨known, List.mem_cons_of_mem _ there⟩
        · obtain ⟨value, known⟩ := aside key later
          obtain rfl : key = first.1 := by
            simpa [later] using member
          rw [value, known]
          simp [change]

theorem Owed.changes {tag : Nat} (owed : Owed host tags key tag)
    (there : tags.changedProp key = some (some tag)) (source : ChangeSource)
    {changes : List PropertyChange} (off : tags.KeepsOff (changes.filter (·.1 = key))) :
    Owed host (changes.foldl (change source) tags) key tag := by
  obtain ⟨values, sources, same, aside, _⟩ := changes_foldl source changes tags
  rw [same]
  refine owed.frame List.prefix_rfl rfl (List.mem_append_left _) ?_ fun _ => Or.inl
  by_cases changed : key ∈ changes.map Prod.fst
  · obtain ⟨entry, member, rfl⟩ := List.mem_map.mp changed
    have kept := off entry (List.mem_filter.mpr ⟨member, by simp⟩)
    exact Or.inl (kept.resolve_left fun untagged => untagged tag there)
  · exact Or.inr (aside key changed)

theorem other_accounted (accounted : Accounted host tags) {changes : List PropertyChange}
    (off : tags.KeepsOff changes) (source : ChangeSource) :
    Accounted host (changes.foldl (change source) tags) := by
  obtain ⟨values, sources, same, _, _⟩ := changes_foldl source changes tags
  refine ⟨?_, ?_⟩
  · rw [same]
    exact accounted.announced
  · intro key tag there
    have before : tags.changedProp key = some (some tag) := by
      rw [same] at there
      exact there
    exact (accounted.waiting key tag before).changes before source
      fun entry member => off entry (List.mem_of_mem_filter member)

/-- A reset parks its tag for the signal that the daemon is going to send. -/
theorem reset_owed {originTag : OriginTag} {tag : Nat}
    {answer : Except DBusError (List PropertyChange)} {changes : List PropertyChange}
    (tells : tags.WillTell host key answer) (accepted : answer = .ok changes)
    (idle : tags.requests = []) (own : originTag = some tag) :
    Owed host (changes.foldl (change (.call tags.made.length))
      ((tags.record key originTag).park key originTag)) key tag := by
  obtain ⟨silent, others, same, member, sendable⟩ := tells
  obtain rfl := Except.ok.inj (accepted.symm.trans same)
  obtain ⟨values, sources, folded, _, changed⟩ := changes_foldl (.call tags.made.length) changes
    ((tags.record key originTag).park key originTag)
  obtain ⟨known, there⟩ := changed key member
  rw [folded]
  refine ⟨⟨tags.made.length, ?_, Or.inr ⟨silent, ?_, known, sendable _ there⟩⟩, ?_⟩
  · simp [record, park, own]
  · exact List.mem_append_right _ member
  · intro request queued
    change request ∈ tags.requests at queued
    rw [idle] at queued
    cases queued

theorem reset_accounted (accounted : Accounted host tags) {originTag : OriginTag}
    {answer : Except DBusError (List PropertyChange)}
    (careful : tags.Careful text host (.reset key originTag answer))
    (stepped : tags.step text host subscribedProp (.reset key originTag answer) = some after) :
    Accounted host after := by
  obtain ⟨tells, off⟩ := careful
  have parked : Concerns key tags ((tags.record key originTag).park key originTag) :=
    ((Concerns.refl key tags).record originTag).update (some originTag)
  simp only [step, esconfGsettingsBackendReset] at stepped
  split at stepped
  · next idle =>
      cases answer with
      | error error =>
          cases stepped
          refine parked.untagged accounted ?_
          intro tag there
          have null : originTag = none := tells.resolve_right fun ⟨_, _, wrong, _⟩ => nomatch wrong
          simp [park, null] at there
      | ok changes =>
          cases stepped
          obtain ⟨values, sources, folded, _, _⟩ := changes_foldl (.call tags.made.length) changes
            ((tags.record key originTag).park key originTag)
          refine ⟨?_, ?_⟩
          · rw [folded]
            exact parked.announced_credited accounted
          · intro other tag there
            have before : ((tags.record key originTag).park key originTag).changedProp other =
                some (some tag) := by
              rw [folded] at there
              exact there
            by_cases mine : other = key
            · have own : originTag = some tag := by
                simpa [park, mine] using before
              have promised := tells.resolve_left fun null => nomatch own.symm.trans null
              rw [mine]
              exact reset_owed promised rfl (List.isEmpty_iff.mp idle) own
            · refine (parked.owed accounted mine before).changes before _ ?_
              intro entry member
              obtain ⟨listed, here⟩ := List.mem_filter.mp member
              rw [decide_eq_true_iff] at here
              have apart : entry.1 ≠ key := here ▸ mine
              have kept := off changes rfl entry (List.mem_filter.mpr ⟨listed, by simpa using apart⟩)
              refine kept.imp_left fun untagged tag there => untagged tag ?_
              rwa [parked.others entry.1 apart] at there
  · cases stepped

theorem process_accounted (accounted : Accounted host tags) {answer : Except DBusError Unit}
    (stepped : tags.process answer = some after) : Accounted host after := by
  unfold process at stepped
  split at stepped
  · cases stepped
  · next request rest queue =>
      have left : Accounted host { tags with requests := rest } := by
        refine ⟨accounted.announced, fun key tag there => ?_⟩
        refine (accounted.waiting key tag there).frame List.prefix_rfl rfl id (Or.inr ⟨rfl, rfl⟩) ?_
        intro other member
        exact Or.inl (queue ▸ List.mem_cons_of_mem _ member)
      split at stepped
      · next value _ =>
          split at stepped
          · cases stepped
            have off : KeepsOff { tags with requests := rest } [(request.property, some value)] := by
              intro entry member
              rw [List.mem_singleton.mp member]
              refine Or.inl fun tag there => ?_
              exact (accounted.waiting _ tag there).2 request (queue ▸ List.mem_cons_self ..) rfl
            exact other_accounted left off (.call request.number)
          · cases stepped
            exact left
      · cases stepped
        exact left

theorem idle_accounted (accounted : Accounted host tags) {index : Nat}
    (stepped : tags.runIdle host index = some after) : Accounted host after := by
  obtain ⟨property, there, rfl⟩ := Option.map_eq_some_iff.mp stepped
  refine ⟨accounted.announced, ?_⟩
  intro key tag parked
  obtain ⟨⟨number, made, next⟩, apart⟩ := accounted.waiting key tag parked
  refine ⟨⟨number, made, ?_⟩, apart⟩
  rcases next with ⟨signal, first, source⟩ | ⟨none, idle, source, sendable⟩
  · refine Or.inl ⟨signal, ?_, source⟩
    rw [firstSignal] at first
    rw [firstSignal, List.find?_append, first, Option.some_or]
  · rw [firstSignal] at none
    simp only [Next, firstSignal, List.find?_append, none, Option.none_or]
    by_cases mine : property = key
    · subst mine
      obtain ⟨message, more, sent⟩ := List.exists_cons_of_ne_nil sendable
      refine Or.inl ⟨⟨property, message, tags.sources property⟩, ?_, source⟩
      rw [sent, List.map_cons, List.find?_cons_of_pos]
      exact beq_self_eq_true property
    · refine Or.inr ⟨?_, ?_, source, sendable⟩
      · rw [List.find?_eq_none]
        intro signal member
        obtain ⟨message, _, rfl⟩ := List.mem_map.mp member
        simpa using mine
      · obtain ⟨place, here⟩ := List.mem_iff_getElem?.mp idle
        refine List.mem_eraseIdx_iff_getElem?.mpr ⟨place, ?_, here⟩
        rintro rfl
        exact mine (Option.some.inj (there.symm.trans here))

theorem received_announces {client : CacheClient} {property : CString} {message : BusMessage}
    {event : CacheEvent} (received : received client.cache property message = some event) :
    client.announces host event = none ∨
      ∃ value, client.announces host event = some (property, value) := by
  cases message with
  | setPropertyReply serial => cases received
  | propertyRemoved =>
      cases received
      simp [CacheClient.announces, esconfCacheHandlePropertyRemoved]
  | propertyChanged variant =>
      cases received
      simp only [CacheClient.announces, esconfCacheHandlePropertyChanged]
      split
      · exact Or.inl rfl
      · split
        · exact Or.inl rfl
        · split
          · dsimp only
            split
            · exact Or.inr ⟨_, rfl⟩
            · exact Or.inl rfl
          · exact Or.inr ⟨_, rfl⟩
          · exact Or.inl rfl
          · exact Or.inr ⟨_, rfl⟩

theorem deliver_accounted (accounted : Accounted host tags)
    (careful : tags.Careful text host .deliver)
    (stepped : tags.deliver host subscribedProp = some after) : Accounted host after := by
  unfold deliver at stepped
  split at stepped
  · cases stepped
  · next signal rest queue =>
      obtain ⟨event, accepted, happened⟩ := Option.bind_eq_some_iff.mp stepped
      obtain ⟨client, _, rfl⟩ := Option.map_eq_some_iff.mp happened
      have announces := @received_announces host _ _ _ _ accepted
      refine announce_accounted accounted.announced ?_ ?_
      · intro key value tag told there
        obtain rfl : signal.property = key := by
          rcases announces with quiet | ⟨_, same⟩
          · cases quiet.symm.trans told
          · cases same.symm.trans told
            rfl
        obtain ⟨⟨number, made, next⟩, _⟩ := accounted.waiting _ tag there
        have first : tags.firstSignal signal.property = some signal := by
          rw [firstSignal, queue, List.find?_cons_of_pos]
          exact beq_self_eq_true signal.property
        rcases next with ⟨again, sent, source⟩ | ⟨none, _⟩
        · obtain rfl := Option.some.inj (first.symm.trans sent)
          rintro _ ⟨⟩
          exact ⟨number, source, made⟩
        · cases first.symm.trans none
      · intro key tag there unannounced
        have apart : signal.property ≠ key := by
          rintro rfl
          rcases careful signal rest event queue accepted with untagged | loud
          · exact untagged tag there
          · obtain ⟨value, told⟩ := announces.resolve_left loud
            exact unannounced value told
        refine (accounted.waiting key tag there).frame List.prefix_rfl ?_ id (Or.inr ⟨rfl, rfl⟩)
          fun _ => Or.inl
        rw [firstSignal, firstSignal, queue, List.find?_cons_of_neg (by simpa using apart)]

theorem start_accounted (values : CString → Option GValue) : Accounted host (start values) :=
  ⟨nofun, nofun⟩

theorem step_accounted (accounted : Accounted host tags) {event : TagEvent}
    (careful : tags.Careful text host event)
    (stepped : tags.step text host subscribedProp event = some after) : Accounted host after := by
  cases event with
  | write => exact write_accounted accounted careful stepped
  | traverse => exact traverse_accounted accounted careful stepped
  | reset => exact reset_accounted accounted careful stepped
  | read => exact cacheEvent_accounted accounted stepped nofun
  | other =>
      cases stepped
      exact other_accounted accounted careful .other
  | process => exact process_accounted accounted stepped
  | idle => exact idle_accounted accounted stepped
  | deliver => exact deliver_accounted accounted careful stepped
  | callback index finish =>
      refine cacheEvent_accounted accounted stepped ?_
      intro key value tag told there
      exact absurd there (careful key value told tag)

theorem CarefullyReached.accounted (reached : CarefullyReached text host subscribedProp tags) :
    Accounted host tags := by
  induction reached with
  | start values => exact start_accounted values
  | step _ careful stepped accounted => exact step_accounted accounted careful stepped

theorem careful_deliver {signal : SettingSignal} {rest : List SettingSignal} {event : CacheEvent}
    (queue : tags.signals = signal :: rest)
    (accepted : received tags.client.cache signal.property signal.message = some event)
    (loud : tags.client.announces host event ≠ none) : tags.Careful text host .deliver := by
  intro first others other same again
  obtain ⟨rfl, _⟩ := List.cons.inj (queue.symm.trans same)
  obtain rfl := Option.some.inj (accepted.symm.trans again)
  exact Or.inr loud

theorem careful_reset {originTag : OriginTag} {left : Option GValue}
    (silent : tags.firstSignal key = none)
    (sendable : esconfDaemonEmitPropertyChangedIdled host left ≠ []) :
    tags.Careful text host (.reset key originTag (.ok [(key, left)])) := by
  refine ⟨Or.inr ⟨silent, _, rfl, List.mem_singleton_self key, ?_⟩, ?_⟩
  · intro other member
    cases List.mem_singleton.mp member
    exact sendable
  · intro changes same entry member
    cases same
    simp at member

/-- As long as every event is careful, a tag is announced only for the change of the call that
carried it, and the change of another process is announced with NULL. -/
theorem origin_tags_attributed (reached : CarefullyReached text host subscribedProp tags)
    (call : ChangedCall) (announced : call ∈ tags.announced) :
    (∀ tag, call.originTag = some tag →
      ∃ number, call.source = .call number ∧ tags.made[number]? = some (call.key, some tag)) ∧
      (call.source = .other → call.originTag = none) := by
  have credited := reached.accounted.announced call announced
  refine ⟨credited, fun other => ?_⟩
  cases tagged : call.originTag with
  | none => rfl
  | some tag =>
      obtain ⟨number, mine, _⟩ := credited tag tagged
      cases other.symm.trans mine

/-- A write and a reset, whose changes and that of another process are announced in turn. -/
theorem three_changes_attributed :
    ∃ tags, CarefullyReached (.single [] (.int32 0)) (Host.bare []) ["/".toList] tags ∧
      tags.announced = [⟨"/k".toList, some 7, .call 0⟩, ⟨"/k".toList, some 8, .call 1⟩,
        ⟨"/k".toList, none, .other⟩] ∧
      ∀ call ∈ tags.announced, (∀ tag, call.originTag = some tag →
        ∃ number, call.source = .call number ∧ tags.made[number]? = some (call.key, some tag)) ∧
        (call.source = .other → call.originTag = none) := by
  have begun : CarefullyReached (.single [] (.int32 0)) (Host.bare []) ["/".toList]
      (start fun _ => some (.int 1)) := .start _
  have written := @CarefullyReached.step _ _ _ _ _
    (.write "/k".toList (.int32 2) (some 7) (.ok (.variant (.int32 1)))) begun (Or.inr rfl) rfl
  have processed := @CarefullyReached.step _ _ _ _ _ (.process (.ok ())) written trivial rfl
  have answered := @CarefullyReached.step _ _ _ _ _ (.callback 0 (.ok ())) processed
    (fun _ _ told => absurd told (Option.some_ne_none _).symm) rfl
  have reset := @CarefullyReached.step _ _ _ _ _
    (.reset "/k".toList (some 8) (.ok [("/k".toList, none)])) answered
    (careful_reset rfl (List.cons_ne_nil _ _)) rfl
  have told := @CarefullyReached.step _ _ _ _ _ (.idle 0) reset trivial rfl
  have set := @CarefullyReached.step _ _ _ _ _ (.other [("/k".toList, some (.int 3))]) told
    (by
      intro change member
      rw [List.mem_singleton.mp member]
      exact Or.inr (Option.some_ne_none _)) rfl
  have removed := @CarefullyReached.step _ _ _ _ _ .deliver set
    (careful_deliver rfl rfl (Option.some_ne_none _)) rfl
  have again := @CarefullyReached.step _ _ _ _ _ (.idle 0) removed trivial rfl
  have changed := @CarefullyReached.step _ _ _ _ _ .deliver again
    (careful_deliver rfl rfl (Option.some_ne_none _)) rfl
  exact ⟨_, changed, rfl, origin_tags_attributed changed⟩

/-- A tag whose change is not to come is announced with the next one, here that of another
process that takes the key away. -/
theorem parked_tag_given_away {tag : Nat} (silent : tags.signals = []) (idle : tags.idles = [])
    (parked : tags.changedProp key = some (some tag)) :
    ([TagEvent.other [(key, none)], .idle 0, .deliver].foldlM (step text host subscribedProp)
        tags).map announced = some (tags.announced ++ [⟨key, some tag, .other⟩]) := by
  simp [step, change, idle, silent, runIdle, esconfDaemonEmitPropertyChangedIdled, deliver,
    received, cacheEvent, CacheClient.step, CacheClient.announces,
    esconfCacheHandlePropertyRemoved, announce, esconfGsettingsBackendPropertyChangedCb, parked,
    unpark]

theorem findsEqual_quiet {client : CacheClient} {value : GValue}
    {reply : Except DBusError GVariant} (equal : findsEqual host client key value reply = true) :
    ∃ cache, setProperty host client key value reply = some ⟨true, none, cache, none, none⟩ := by
  unfold findsEqual at equal
  rw [Bool.and_eq_true, Bool.and_eq_true] at equal
  obtain ⟨⟨set, valid⟩, same⟩ := equal
  rw [setProperty, set, valid, Bool.not_true, Bool.or_self, if_neg Bool.false_ne_true,
    esconfCacheSet]
  generalize esconfCacheLookupLocked client.cache key reply = looked at same
  obtain ⟨_ | item, error, fetched⟩ := looked
  · cases same
  · exact ⟨fetched, setLookedUp_equal same⟩

/-- A write that is not careful leaves its tag, and sends nothing. -/
theorem careless_write_parks {variant : GVariant} {originTag : OriginTag}
    {reply : Except DBusError GVariant}
    (careless : ¬tags.Careful text host (.write key variant originTag reply)) :
    ∃ after tag, tags.step text host subscribedProp (.write key variant originTag reply) =
        some after ∧ after.changedProp key = some (some tag) ∧
      after.announced = tags.announced ∧ after.requests = tags.requests ∧
      after.signals = tags.signals ∧ after.idles = tags.idles := by
  obtain ⟨tagged, equal⟩ := not_or.mp careless
  obtain ⟨tag, rfl⟩ := Option.ne_none_iff_exists'.mp tagged
  obtain ⟨cache, quiet⟩ := findsEqual_quiet (Bool.not_eq_false _ ▸ equal)
  have stepped : tags.step text host subscribedProp (.write key variant (some tag) reply) =
      some (((tags.record key (some tag)).park key (some tag)).takeSet tags.made.length
        ⟨true, none, cache, none, none⟩) := by
    rw [step, esconfGsettingsBackendWriteFull, quiet]
    rfl
  refine ⟨_, tag, stepped, ?_, rfl, ?_, rfl, rfl⟩
  · exact Function.update_self ..
  · exact List.append_nil _

/-- The write finds its value in the cache and leaves its tag, and the next change of the key, by
another process, is announced with it. -/
theorem origin_tag_given_away :
    ∃ tags call, [TagEvent.read "/k".toList (.ok (.variant (.int32 1))),
        .write "/k".toList (.int32 1) (some 7) (.ok (.variant (.int32 1))),
        .other [("/k".toList, some (.int 2))], .idle 0, .deliver].foldlM
          (step (.single [] (.int32 0)) (Host.bare []) ["/".toList])
          (start fun _ => some (.int 1)) = some tags ∧
      tags.announced = [call] ∧ call.key = "/k".toList ∧ call.source = .other ∧
      call.originTag = some 7 :=
  ⟨_, _, rfl, rfl, rfl, rfl, rfl⟩

end OriginTags

end Esconf.Client
