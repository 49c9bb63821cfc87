import Esconf.StoredChannels
import Esconf.FlushFrames
import Esconf.Library.Journal

/-! Daemons one after the other on one disk: what the getters of each of them give, and what
the next one finds when a daemon ends, in whatever way. -/

namespace Esconf

open NamedTree

inductive StoreChange where
  | request (request : PropRequest)
  | clear

namespace StoreChange

def apply (maps : PropMaps) : StoreChange → PropMaps
  | .request change => maps.step change
  | .clear => { maps with user := fun _ => .invalid }

def applyAll (maps : PropMaps) (changes : List StoreChange) : PropMaps :=
  changes.foldl apply maps

theorem applyAll_append (maps : PropMaps) (first second : List StoreChange) :
    applyAll maps (first ++ second) = applyAll (applyAll maps first) second :=
  List.foldl_append

end StoreChange

section Lives

variable (host : Host)

def nextBackend (xbpx : EsconfBackendPerchannelXml) (disk : Disk) : EsconfBackendPerchannelXml :=
  { EsconfBackendPerchannelXml.idle ∅ with configSavePath := xbpx.configSavePath, disk }

/-- `esconf_backend_perchannel_xml_finalize`, as far as the files are concerned. -/
def perchannelXmlFinalize (schedule : Schedule) (xbpx : EsconfBackendPerchannelXml)
    (device : Device) : Flushed :=
  if xbpx.saveId then (perchannelXmlFlush host schedule { xbpx with saveId := false } device).2
  else .returned none xbpx device

/-- What `esconf_daemon_finalize` does with a backend. -/
def finalizeBackend (schedule : Schedule) (xbpx : EsconfBackendPerchannelXml) (device : Device) :
    Flushed :=
  match (perchannelXmlFlush host schedule { xbpx with propChangedFunc := false } device).2 with
  | .stopped disk => .stopped disk
  | .returned error xbpx device =>
    match perchannelXmlFinalize host schedule xbpx device with
    | .stopped disk => .stopped disk
    | .returned failure xbpx device => .returned (error.or failure) xbpx device

inductive Saving where
  | timer
  | flush
  | finalize
  deriving DecidableEq

def Saving.flushes (saving : Saving) (schedule : Schedule) (xbpx : EsconfBackendPerchannelXml)
    (device : Device) : Option Flushed :=
  match saving with
  | timer => if xbpx.saveId then some (saveTimeout host schedule xbpx device) else none
  | flush => some (perchannelXmlFlush host schedule xbpx device).2
  | finalize => some (finalizeBackend host schedule xbpx device)

/-- What may happen to a daemon: a call, a reset of a whole channel, which removes its file or
fails to, files that are written, or at which the process stops, and its end at any other
time. -/
inductive DaemonEvent where
  | call (request : Request)
  | clear (channel : CString) (removed : Bool)
  | saves (saving : Saving) (schedule : Schedule) (device : Device)
  | stops (saving : Saving) (schedule : Schedule) (device : Device)
  | killed

/-- An event leads from a daemon to itself or the next one; a flush that is survived reports
no error. -/
inductive Leads (xbpx : EsconfBackendPerchannelXml) :
    DaemonEvent → EsconfBackendPerchannelXml → Prop where
  | called {request : Request} {after : EsconfBackendPerchannelXml}
      (performed : request.perform host xbpx = some after) : Leads xbpx (.call request) after
  | cleared {channel : CString} {reply : Except (Option GError) Unit}
      {after : EsconfBackendPerchannelXml}
      (performed : esconfBackendReset host xbpx channel "/".toList true = some (reply, after)) :
      Leads xbpx (.clear channel reply.isOk) after
  | saved {saving : Saving} {schedule : Schedule} {device left : Device}
      {after : EsconfBackendPerchannelXml}
      (written : saving.flushes host schedule xbpx device = some (.returned none after left)) :
      Leads xbpx (.saves saving schedule device)
        (if saving = .finalize then nextBackend after after.disk else after)
  | stopped {saving : Saving} {schedule : Schedule} {device : Device} {disk : Disk}
      (written : saving.flushes host schedule xbpx device = some (.stopped disk)) :
      Leads xbpx (.stops saving schedule device) (nextBackend xbpx disk)
  | killed : Leads xbpx .killed (nextBackend xbpx xbpx.disk)

def Understood (channelName : CString) (xbpx : EsconfBackendPerchannelXml) : Prop :=
  ∀ channel, xbpx.channels.lookup channelName = some channel → channel.dirty = true →
    GMarkupNormalizes host (documentTags host channelName channel.properties)

namespace DaemonEvent

/-- A call names its channel in lower case, and on a given channel it has a name that is not
too long and a value that is kept as it is; the parser understands what is written there. -/
def Orderly (channelName : CString) (xbpx : EsconfBackendPerchannelXml) : DaemonEvent → Prop
  | call request => gAsciiStrdown request.channel = request.channel ∧
      match request with
      | .set channel property value => channel = channelName →
          property.length < maxPropPath ∧ lasting value = true
      | .reset _ property _ => property ≠ "/".toList
      | _ => True
  | clear channel _ => gAsciiStrdown channel = channel
  | killed => True
  | saves _ _ _ | stops _ _ _ => Understood host channelName xbpx

open JournalEntry in
/-- What an event means to the changes of a channel. The file may have been replaced already
when the process stops. -/
def records (channelName : CString) : DaemonEvent → List (List (JournalEntry StoreChange))
  | call (.set channel property value) =>
    if channel = channelName ∧ esconfPropertyIsValid property = none then
      [[made (.request (.set property value))]]
    else [[]]
  | call (.reset channel property recursive) =>
    if channel = channelName ∧ esconfPropertyIsValid property = none then
      [[made (.request (if recursive then .resetRecursive property else .reset property))]]
    else [[]]
  | call _ => [[]]
  | clear channel removed =>
    if channel = channelName then
      if removed then [[made .clear, saved]] else [[lost]]
    else [[]]
  | saves _ _ _ => [[saved]]
  | stops _ _ _ => [[saved], [lost]]
  | killed => [[lost]]

end DaemonEvent

end Lives

section Files

variable {host : Host}

def SystemPlace (host : Host) (xbpx : EsconfBackendPerchannelXml) (channelName place : CString) :
    Prop :=
  place ∈ host.resourcePlaces (configFileStem channelName) ∧ place ≠ userFileName xbpx channelName

/-- The machine of the daemons: the user file of the channel is where it is saved, and no
channel is saved over its system files, which lock nothing. -/
structure Installed (host : Host) (start : EsconfBackendPerchannelXml) (channelName : CString)
    (base : EsconfChannel) : Prop where
  prints : PrintsDoubles host
  valid : esconfChannelIsValid channelName = none
  lower : gAsciiStrdown channelName = channelName
  place : host.resourceSaveLocation (configFileStem channelName) =
    some (userFileName start channelName)
  apart : ∀ place, SystemPlace host start channelName place → ∀ key,
    place ≠ userFileName start key ∧ place ≠ userFileName start key ++ ".new".toList
  system : mergeSystemFiles host start.disk (systemFiles host start.disk channelName) .root =
    some base
  unlocked : Unlocked base
  tidy : Tidy base.properties

variable {start : EsconfBackendPerchannelXml} {channelName : CString} {base : EsconfChannel}

theorem Installed.loadChannel (installed : Installed host start channelName base) {disk : Disk}
    (same : ∀ place, SystemPlace host start channelName place → disk place = start.disk place) :
    Esconf.loadChannel host disk channelName =
      (mergeFile host disk (userFileName start channelName) false base).map
        fun merged => .ok merged.2 := by
  have files := @systemFiles_congr host _ _ _ _ installed.place fun other listed apart =>
    same other ⟨listed, apart⟩
  have merged : mergeSystemFiles host disk (systemFiles host disk channelName) .root =
      some base := by
    rw [files, ← installed.system]
    apply mergeSystemFiles_congr host
    intro filename member
    obtain ⟨listed, differs⟩ := List.mem_filter.mp member
    apply same
    refine ⟨List.mem_of_mem_filter (List.mem_reverse.mp listed), ?_⟩
    rintro rfl
    rw [installed.place] at differs
    simp at differs
  exact loadChannel_over installed.place merged installed.unlocked.whole

theorem reset_accepted (host : Host) (xbpx : EsconfBackendPerchannelXml) {property : CString}
    (valid : esconfChannelIsValid channelName = none)
    (accepted : esconfPropertyIsValid property = none) (recursive : Bool) :
    esconfBackendReset host xbpx channelName property recursive =
      answer (perchannelXmlReset host xbpx channelName property recursive) := by
  have proper : ¬(property = [] ∨ property = "/".toList) := by
    rintro (rfl | rfl) <;> cases accepted
  have full : channelName ≠ [] := by
    rintro rfl
    cases valid
  have full' : property ≠ [] := fun empty => proper (Or.inl empty)
  rw [esconfBackendReset, returnIfEmpty, if_neg (by simp [full, full']), checked, valid,
    recursiveOnly, if_neg fun both => proper both.2, baseIsValid, if_neg proper, accepted]
  rfl

theorem reset_refused (host : Host) {xbpx : EsconfBackendPerchannelXml} {property : CString}
    (refused : esconfPropertyIsValid property ≠ none) (proper : property ≠ "/".toList)
    {recursive : Bool} {result : Except (Option GError) Unit × EsconfBackendPerchannelXml}
    (answered : esconfBackendReset host xbpx channelName property recursive = some result) :
    result.2 = xbpx := by
  by_cases empty : property = []
  · rw [esconfBackendReset, returnIfEmpty, if_pos (by simp [empty])] at answered
    cases answered
    rfl
  · rcases guarded_cases answered with ⟨error, rfl⟩ | ⟨clear, _⟩
    · rfl
    · have passed := List.findSome?_eq_none_iff.mp clear (baseIsValid property) (by simp)
      rw [baseIsValid, if_neg (not_or.mpr ⟨empty, proper⟩)] at passed
      exact absurd passed refused

theorem Installed.emptied (installed : Installed host start channelName base) {channel : EsconfChannel}
    {maps : PropMaps} (sound : Sound base.properties channel maps) :
    Sound base.properties base (StoreChange.clear.apply maps) := by
  have clean : NoUserValues base :=
    mergeSystemFiles_noUserValues (noUserValues_root false false) installed.system
  refine ⟨installed.unlocked.whole, installed.tidy, ⟨installed.tidy.distinct,
    installed.unlocked.each, fun _ _ => clean _, ?_⟩, ?_, ?_⟩
  · intro name valid
    rw [sound.policy _ (nameParts_ne_nil valid)]
    exact sound.represents.system name valid
  · intro path _
    rw [clean path]
    exact lasting_invalid
  · intro path _
    have unset := clean path
    cases slot : base.properties.slot path with
    | mk value systemValue locked =>
        rw [slot] at unset
        cases unset
        rfl

theorem doResetChannel_leaves (host : Host) (xbpx : EsconfBackendPerchannelXml)
    (channel : EsconfChannel) :
    let left := doResetChannel host xbpx channelName channel channelName
    left.2.channels.lookup channelName = none ∧
      left.2.configSavePath = xbpx.configSavePath ∧
      ((left.1.isOk = false ∧ left.2.disk = xbpx.disk) ∨
        (left.1.isOk = true ∧ ∀ filename, left.2.disk filename =
          if filename = userFileName xbpx channelName then none else xbpx.disk filename)) := by
  have key : IsKeyOf channelName channelName := Or.inl rfl
  have path := (doResetChannel_confined host xbpx key channel).savePath
  have name : userFileName (propsChanged xbpx channelName (resetNotices [] channel.properties))
      channelName = userFileName xbpx channelName := by
    rw [userFileName, userFileName, (@Confined.propsChanged channelName xbpx _ _).savePath]
  have files := propsChanged_disk xbpx channelName (resetNotices [] channel.properties)
  refine ⟨?_, path, ?_⟩
  · unfold doResetChannel
    dsimp only
    split <;> exact AList.lookup_erase _ _
  · unfold doResetChannel
    dsimp only
    split
    · exact Or.inl ⟨rfl, files⟩
    · refine Or.inr ⟨rfl, ?_⟩
      intro filename
      rw [← files, ← name]
      rfl

/-- What is kept of a channel: what its files give, what the memory holds, and that these are
the same where nothing is left to be written. -/
structure Stored (host : Host) (start : EsconfBackendPerchannelXml) (channelName : CString)
    (base : EsconfChannel) (saved current : PropMaps) (xbpx : EsconfBackendPerchannelXml) :
    Prop where
  savePath : xbpx.configSavePath = start.configSavePath
  system : ∀ place, SystemPlace host start channelName place →
    xbpx.disk place = start.disk place
  memory : ∀ channel, xbpx.channels.lookup channelName = some channel →
    Sound base.properties channel current
  file : ∃ channel, Esconf.loadChannel host xbpx.disk channelName = some (.ok channel) ∧
    Sound base.properties channel saved ∧
    ((∀ loaded, xbpx.channels.lookup channelName = some loaded → loaded.dirty = false) →
      Sound base.properties channel current)

namespace Stored

variable {saved current : PropMaps} {xbpx after : EsconfBackendPerchannelXml}

theorem userFileName (stored : Stored host start channelName base saved current xbpx)
    (key : CString) : Esconf.userFileName xbpx key = Esconf.userFileName start key := by
  rw [Esconf.userFileName, Esconf.userFileName, stored.savePath]

theorem found (stored : Stored host start channelName base saved current xbpx)
    (lower : gAsciiStrdown channelName = channelName) :
    ∃ channel middle, findChannel host xbpx channelName =
        some (.ok (channelName, channel), middle) ∧
      middle.channels.lookup channelName = some channel ∧
      Stored host start channelName base saved current middle := by
  cases entry : xbpx.channels.lookup channelName with
  | some channel => exact ⟨channel, xbpx, findChannel_loaded host entry, entry, stored⟩
  | none =>
      obtain ⟨channel, loads, sound, settled⟩ := stored.file
      have current := settled fun loaded here => by
        rw [entry] at here
        cases here
      refine ⟨channel, xbpx.store channelName channel, ?_, AList.lookup_insert _, ?_⟩
      · rw [findChannel_missing host entry loads, lower]
      · refine ⟨stored.savePath, stored.system, ?_, channel, loads, sound, fun _ => current⟩
        intro other here
        rw [EsconfBackendPerchannelXml.store_channels, AList.lookup_insert] at here
        cases here
        exact current

theorem get (stored : Stored host start channelName base saved current xbpx)
    (lower : gAsciiStrdown channelName = channelName) {property : CString}
    (valid : propNameIsValid property = true) :
    ∃ middle, perchannelXmlGet host xbpx channelName property =
      some (if (current.effective property).isSet then .ok (current.effective property)
        else .error (propertyNotFound property channelName), middle) := by
  obtain ⟨channel, middle, looked, loaded, stored'⟩ := stored.found lower
  refine ⟨middle, ?_⟩
  rw [perchannelXmlGet, onChannel, looked]
  dsimp only
  rw [(stored'.memory channel loaded).effective valid]
  split <;> rfl

theorem next (stored : Stored host start channelName base saved current xbpx) :
    Stored host start channelName base saved saved (nextBackend xbpx xbpx.disk) := by
  obtain ⟨channel, loads, sound, _⟩ := stored.file
  refine ⟨stored.savePath, stored.system, ?_, channel, loads, sound, fun _ => sound⟩
  intro other here
  cases here

theorem frame (installed : Installed host start channelName base)
    (stored : Stored host start channelName base saved current xbpx)
    (savePath : after.configSavePath = xbpx.configSavePath)
    (entry : after.channels.lookup channelName = xbpx.channels.lookup channelName)
    (user : after.disk (Esconf.userFileName start channelName) =
      xbpx.disk (Esconf.userFileName start channelName))
    (system : ∀ place, SystemPlace host start channelName place →
      after.disk place = xbpx.disk place) :
    Stored host start channelName base saved current after := by
  have system' : ∀ place, SystemPlace host start channelName place →
      after.disk place = start.disk place := fun place listed =>
    (system place listed).trans (stored.system place listed)
  refine ⟨savePath.trans stored.savePath, system', ?_, ?_⟩
  · rw [entry]
    exact stored.memory
  · obtain ⟨channel, loads, sound, settled⟩ := stored.file
    refine ⟨channel, ?_, sound, ?_⟩
    · rw [installed.loadChannel system', mergeFile_congr host user,
        ← installed.loadChannel stored.system]
      exact loads
    · rw [entry]
      exact settled

theorem scheduled (stored : Stored host start channelName base saved current xbpx)
    {middle : EsconfBackendPerchannelXml} (confined : Confined channelName xbpx middle)
    (disk : middle.disk = xbpx.disk) {channel : EsconfChannel} {maps : PropMaps}
    (sound : Sound base.properties channel maps) :
    Stored host start channelName base saved maps (middle.scheduleSave channelName channel) := by
  have entry : (middle.scheduleSave channelName channel).channels.lookup channelName =
      some { channel with dirty := true } := AList.lookup_insert _
  refine ⟨confined.savePath.trans stored.savePath, ?_, ?_, ?_⟩
  · rw [EsconfBackendPerchannelXml.scheduleSave_disk, disk]
    exact stored.system
  · intro other here
    rw [entry] at here
    cases here
    exact sound.mark true
  · obtain ⟨onDisk, loads, soundFile, _⟩ := stored.file
    refine ⟨onDisk, ?_, soundFile, ?_⟩
    · rw [EsconfBackendPerchannelXml.scheduleSave_disk, disk]
      exact loads
    · intro settled
      cases settled _ entry

theorem unchanged (stored : Stored host start channelName base saved current xbpx)
    {channel : EsconfChannel} (loaded : xbpx.channels.lookup channelName = some channel)
    {maps : PropMaps} (sound : Sound base.properties channel maps) :
    Stored host start channelName base saved maps xbpx := by
  have before := stored.memory channel loaded
  refine ⟨stored.savePath, stored.system, ?_, ?_⟩
  · intro other here
    exact before.transfer sound (stored.memory other here)
  · obtain ⟨onDisk, loads, soundFile, settled⟩ := stored.file
    exact ⟨onDisk, loads, soundFile, fun clean => before.transfer sound (settled clean)⟩

theorem set (stored : Stored host start channelName base saved current xbpx)
    {channel : EsconfChannel} (loaded : xbpx.channels.lookup channelName = some channel)
    {property : CString} {value : GValue} (accepted : esconfPropertyIsValid property = none)
    (short : property.length < maxPropPath) (lasts : lasting value = true)
    {reply : Except GError Unit}
    (done : perchannelXmlSet host xbpx channelName property value = some (reply, after)) :
    Stored host start channelName base saved (current.step (.set property value)) after := by
  have valid := propNameIsValid_of_property accepted
  have sound := stored.memory channel loaded
  obtain ⟨result, performed, channel', loaded', represents⟩ :=
    perform_set host value ⟨channel, loaded, sound.represents⟩ valid short
  rw [PropRequest.perform, done] at performed
  cases performed
  rw [perchannelXmlSet, findChannel_loaded host loaded] at done
  rcases setIn_outcome xbpx channelName channel channelName value accepted short with
    ⟨error, refused⟩ | ⟨same, _⟩ | ⟨properties, changed, slots, _, grown⟩
  · cases (congrArg Prod.fst (Option.some.inj done)).symm.trans (congrArg Prod.fst refused)
  · cases (congrArg Prod.snd (Option.some.inj done)).symm.trans (congrArg Prod.snd same)
    rw [loaded] at loaded'
    cases loaded'
    exact stored.unchanged loaded (sound.represented represents)
  · obtain rfl := (congrArg Prod.snd (Option.some.inj done)).symm.trans (congrArg Prod.snd changed)
    rw [EsconfBackendPerchannelXml.scheduleSave_channels, AList.lookup_insert] at loaded'
    cases loaded'
    have named : ∀ parts ∈ [nameParts property],
        ∀ name ∈ parts, name ≠ [] ∧ '/' ∉ name ∧ CleanText name := by
      intro parts single
      rw [List.mem_singleton.mp single]
      exact accepted_names accepted
    have brief : ∀ parts ∈ [nameParts property], (partsName parts).length < maxPropPath := by
      intro parts single
      rw [List.mem_singleton.mp single, partsName_nameParts valid]
      exact short
    have next : Sound base.properties { channel with properties } _ :=
      sound.changed grown named brief represents fun path => ⟨value, lasts, by
        rw [slots]
        split
        · exact Or.inl rfl
        · exact Or.inr rfl⟩
    exact stored.scheduled (Confined.propChanged xbpx channelName property)
      (xbpx.propChanged_disk channelName property) next

theorem reset (stored : Stored host start channelName base saved current xbpx)
    {channel : EsconfChannel} (loaded : xbpx.channels.lookup channelName = some channel)
    {property : CString} (accepted : esconfPropertyIsValid property = none)
    {reply : Except GError Unit}
    (done : perchannelXmlReset host xbpx channelName property false = some (reply, after)) :
    Stored host start channelName base saved (current.step (.reset property)) after := by
  have valid := propNameIsValid_of_property accepted
  have sound := stored.memory channel loaded
  rw [perchannelXmlReset, onChannel_loaded host loaded] at done
  cases set : (current.user property).isSet with
  | false =>
      obtain ⟨refused, same⟩ := sound.represents.reset_unset valid set
      dsimp only at done
      rw [refused] at done
      cases done
      rw [same]
      exact stored
  | true =>
      obtain ⟨properties, performed, represents⟩ := sound.represents.reset valid set
      rw [← sound.represents.user property valid] at set
      obtain ⟨_, again, _, slots⟩ := proptreeReset_spec valid sound.represents.distinct
        sound.represents.unlocked set
      rw [performed] at again
      cases again
      dsimp only at done
      rw [performed] at done
      cases done
      have next : Sound base.properties { channel with properties } _ :=
        sound.changed (grown_proptreeReset sound.represents.distinct performed)
          (List.forall_mem_nil _) (List.forall_mem_nil _)
          represents fun path => ⟨.invalid, lasting_invalid, by
            rw [slots]
            split
            · exact Or.inl rfl
            · exact Or.inr rfl⟩
      exact stored.scheduled (Confined.propChanged xbpx channelName property)
        (xbpx.propChanged_disk channelName property) next

theorem resetRecursive (stored : Stored host start channelName base saved current xbpx)
    {channel : EsconfChannel} (loaded : xbpx.channels.lookup channelName = some channel)
    {property : CString} (accepted : esconfPropertyIsValid property = none)
    {reply : Except GError Unit}
    (done : perchannelXmlReset host xbpx channelName property true = some (reply, after)) :
    Stored host start channelName base saved (current.step (.resetRecursive property)) after := by
  have valid := propNameIsValid_of_property accepted
  have sound := stored.memory channel loaded
  have long : 2 ≤ property.length := by
    obtain ⟨c, rest, rfl, _⟩ := propNameIsValid_iff.mp valid
    simp
  rw [perchannelXmlReset, onChannel_loaded host loaded] at done
  simp only [Bool.not_true, Bool.false_eq_true, ↓reduceIte, long] at done
  cases looked : proptreeLookupNode channel.properties property with
  | none =>
      rw [looked] at done
      cases done
      exact stored.unchanged loaded
        (sound.represented (sound.represents.resetBelow_missing valid looked))
  | some top =>
      rw [looked] at done
      cases done
      have next : Sound base.properties
          { channel with properties := resetBelow channel.properties property } _ :=
        sound.changed (grown_resetBelow valid sound.represents.distinct) 
          (List.forall_mem_nil _) (List.forall_mem_nil _)
          (sound.represents.resetBelow valid) fun path => ⟨.invalid, lasting_invalid, by
            rw [resetBelow_slot valid sound.represents.distinct]
            split
            · exact Or.inl rfl
            · exact Or.inr rfl⟩
      exact stored.scheduled (Confined.propsChanged xbpx channelName _)
        (propsChanged_disk xbpx channelName _) next

theorem read (stored : Stored host start channelName base saved current xbpx)
    (lower : gAsciiStrdown channelName = channelName) {α : Type}
    {operation : CString → EsconfChannel → EsconfBackendPerchannelXml →
      Except GError α × EsconfBackendPerchannelXml}
    (reads : ∀ key channel middle, (operation key channel middle).2 = middle)
    {reply : Except GError α}
    (done : onChannel host xbpx channelName operation = some (reply, after)) :
    Stored host start channelName base saved current after := by
  obtain ⟨channel, middle, looked, _, stored'⟩ := stored.found lower
  rw [onChannel, looked] at done
  have same := reads channelName channel middle
  dsimp only at done
  rw [Option.some.inj done] at same
  rw [show after = middle from same]
  exact stored'

theorem elsewhere (installed : Installed host start channelName base)
    (stored : Stored host start channelName base saved current xbpx) {other : CString}
    (apart : other ≠ channelName) (lower : gAsciiStrdown other = other)
    (confined : Confined other xbpx after) :
    Stored host start channelName base saved current after := by
  apply stored.frame installed confined.savePath
  · apply confined.channels channelName apart.symm
    rw [lower]
    exact apart.symm
  · apply confined.disk
    rw [stored.userFileName]
    exact fun same => apart (userFileName_injective same).symm
  · intro place listed
    apply confined.disk
    rw [stored.userFileName]
    exact (installed.apart place listed other).1

theorem setCall (installed : Installed host start channelName base)
    (stored : Stored host start channelName base saved current xbpx) {property : CString}
    {value : GValue} (short : property.length < maxPropPath) (lasts : lasting value = true)
    (done : (Request.set channelName property value).perform host xbpx = some after) :
    if esconfPropertyIsValid property = none then
      Stored host start channelName base saved (current.step (.set property value)) after
    else after = xbpx := by
  obtain ⟨result, answered, rfl⟩ := Option.map_eq_some_iff.mp done
  split
  · next accepted =>
      rw [esconfBackendSet, guarded_valid xbpx installed.valid accepted] at answered
      obtain ⟨inner, performed, rfl⟩ := Option.map_eq_some_iff.mp answered
      obtain ⟨channel, middle, looked, loaded, stored'⟩ := stored.found installed.lower
      have same : perchannelXmlSet host xbpx channelName property value =
          perchannelXmlSet host middle channelName property value := by
        rw [perchannelXmlSet, perchannelXmlSet, looked, findChannel_loaded host loaded]
      rw [same] at performed
      exact stored'.set loaded accepted short lasts performed
  · next refused =>
      rcases guarded_cases answered with ⟨error, rfl⟩ | ⟨clear, _⟩
      · rfl
      · rw [installed.valid] at clear
        cases valid : esconfPropertyIsValid property with
        | none => exact absurd valid refused
        | some error =>
            rw [valid] at clear
            cases clear

theorem resetCall (installed : Installed host start channelName base)
    (stored : Stored host start channelName base saved current xbpx) {property : CString}
    {recursive : Bool} (proper : property ≠ "/".toList)
    (done : (Request.reset channelName property recursive).perform host xbpx = some after) :
    if esconfPropertyIsValid property = none then
      Stored host start channelName base saved
        (current.step (if recursive then .resetRecursive property else .reset property)) after
    else after = xbpx := by
  obtain ⟨result, answered, rfl⟩ := Option.map_eq_some_iff.mp done
  split
  · next accepted =>
      rw [reset_accepted host xbpx installed.valid accepted] at answered
      obtain ⟨inner, performed, rfl⟩ := Option.map_eq_some_iff.mp answered
      obtain ⟨channel, middle, looked, loaded, stored'⟩ := stored.found installed.lower
      have same : perchannelXmlReset host xbpx channelName property recursive =
          perchannelXmlReset host middle channelName property recursive := by
        rw [perchannelXmlReset, perchannelXmlReset, onChannel, looked,
          onChannel_loaded host loaded]
      rw [same] at performed
      cases recursive with
      | true => exact stored'.resetRecursive loaded accepted performed
      | false => exact stored'.reset loaded accepted performed
  · next refused => exact reset_refused host refused proper answered

/-- A reset of the whole channel takes its file away, or fails and takes what was not saved
with it. -/
theorem cleared (installed : Installed host start channelName base)
    (stored : Stored host start channelName base saved current xbpx)
    {reply : Except (Option GError) Unit}
    (done : esconfBackendReset host xbpx channelName "/".toList true = some (reply, after)) :
    if reply.isOk then
      Stored host start channelName base (StoreChange.clear.apply current)
        (StoreChange.clear.apply current) after
    else Stored host start channelName base saved saved after := by
  have full : channelName ≠ [] := by
    intro empty
    have valid := installed.valid
    rw [empty] at valid
    cases valid
  have checks : esconfBackendReset host xbpx channelName "/".toList true =
      answer (perchannelXmlReset host xbpx channelName "/".toList true) := by
    rw [esconfBackendReset, returnIfEmpty, if_neg (by simp [full]), checked, installed.valid]
    rfl
  rw [checks] at done
  obtain ⟨inner, performed, same⟩ := Option.map_eq_some_iff.mp done
  obtain ⟨channel, middle, looked, loaded, stored'⟩ := stored.found installed.lower
  rw [perchannelXmlReset, onChannel, looked] at performed
  have left := @doResetChannel_leaves channelName host middle channel
  rw [show doResetChannel host middle channelName channel channelName = inner from
    Option.some.inj performed] at left
  cases same
  obtain ⟨gone, path, ⟨failed, disk⟩ | ⟨succeeded, disk⟩⟩ := left
  · rw [show (inner.1.mapError some).isOk = false by
      cases outcome : inner.1 <;> rw [outcome] at failed <;> first | rfl | cases failed]
    obtain ⟨onDisk, loads, soundFile, _⟩ := stored'.file
    refine ⟨path.trans stored'.savePath, ?_, ?_, onDisk, ?_, soundFile, fun _ => soundFile⟩
    · rw [disk]
      exact stored'.system
    · intro other here
      rw [gone] at here
      cases here
    · rw [disk]
      exact loads
  · rw [show (inner.1.mapError some).isOk = true by
      cases outcome : inner.1 <;> rw [outcome] at succeeded <;> first | rfl | cases succeeded]
    rw [stored'.userFileName] at disk
    have sound := installed.emptied (stored'.memory channel loaded)
    have system : ∀ place, SystemPlace host start channelName place →
        inner.2.disk place = start.disk place := by
      intro place listed
      rw [disk, if_neg listed.2]
      exact stored'.system place listed
    refine ⟨path.trans stored'.savePath, system, ?_, base, ?_, sound, fun _ => sound⟩
    · intro other here
      rw [gone] at here
      cases here
    · rw [installed.loadChannel system, mergeFile, disk, if_pos rfl]
      rfl

theorem called (installed : Installed host start channelName base)
    (stored : Stored host start channelName base saved current xbpx) {request : Request}
    (orderly : (DaemonEvent.call request).Orderly host channelName xbpx)
    (performed : request.perform host xbpx = some after) :
    ∃ changes : List StoreChange,
      changes.map JournalEntry.made ∈ (DaemonEvent.call request).records channelName ∧
      Stored host start channelName base saved (StoreChange.applyAll current changes) after := by
  obtain ⟨lower, terms⟩ := orderly
  have confined := perform_confined host performed
  by_cases there : request.channel = channelName
  · cases request with
    | set channel property value =>
        cases (show channel = channelName from there)
        obtain ⟨short, lasts⟩ := terms rfl
        have kept := stored.setCall installed short lasts performed
        by_cases accepted : esconfPropertyIsValid property = none
        · rw [if_pos accepted] at kept
          refine ⟨[.request (.set property value)], ?_, kept⟩
          rw [DaemonEvent.records, if_pos ⟨rfl, accepted⟩]
          simp
        · rw [if_neg accepted] at kept
          refine ⟨[], ?_, kept ▸ stored⟩
          rw [DaemonEvent.records, if_neg fun both => accepted both.2]
          simp
    | reset channel property recursive =>
        cases (show channel = channelName from there)
        have kept := stored.resetCall installed terms performed
        by_cases accepted : esconfPropertyIsValid property = none
        · rw [if_pos accepted] at kept
          refine ⟨[.request (if recursive then .resetRecursive property else .reset property)],
            ?_, kept⟩
          rw [DaemonEvent.records, if_pos ⟨rfl, accepted⟩]
          simp
        · rw [if_neg accepted] at kept
          refine ⟨[], ?_, kept ▸ stored⟩
          rw [DaemonEvent.records, if_neg fun both => accepted both.2]
          simp
    | get channel property =>
        cases (show channel = channelName from there)
        refine ⟨[], by simp [DaemonEvent.records], ?_⟩
        rcases perform_cases host performed with rfl | ⟨reply, done⟩
        · exact stored
        · refine stored.read installed.lower ?_ done
          intro key channel middle
          split <;> rfl
    | getAll channel propertyBase =>
        cases (show channel = channelName from there)
        refine ⟨[], by simp [DaemonEvent.records], ?_⟩
        rcases perform_cases host performed with rfl | ⟨reply, done⟩
        · exact stored
        · refine stored.read installed.lower ?_ done
          intro key channel middle
          dsimp only
          split
          · split <;> rfl
          · rfl
    | «exists» channel property =>
        cases (show channel = channelName from there)
        refine ⟨[], by simp [DaemonEvent.records], ?_⟩
        rcases perform_cases host performed with rfl | ⟨reply, done⟩
        · exact stored
        · obtain ⟨found, middle, looked, _, stored'⟩ := stored.found installed.lower
          rw [perchannelXmlExists, looked] at done
          cases done
          exact stored'
    | isPropertyLocked channel property =>
        cases (show channel = channelName from there)
        refine ⟨[], by simp [DaemonEvent.records], ?_⟩
        rcases perform_cases host performed with rfl | ⟨reply, done⟩
        · exact stored
        · exact stored.read installed.lower (fun _ _ _ => rfl) done
  · refine ⟨[], ?_, stored.elsewhere installed there lower confined⟩
    cases request with
    | set channel property value =>
        rw [DaemonEvent.records, if_neg fun both => there both.1]
        simp
    | reset channel property recursive =>
        rw [DaemonEvent.records, if_neg fun both => there both.1]
        simp
    | _ => simp [DaemonEvent.records]

theorem published (installed : Installed host start channelName base)
    (stored : Stored host start channelName base saved current xbpx)
    (understood : Understood host channelName xbpx) {channel : EsconfChannel}
    (loaded : xbpx.channels.lookup channelName = some channel) (dirty : channel.dirty = true)
    {text : CString} (done : flushText host channelName channel.properties = .ok text)
    {disk : Disk} (system : ∀ place, SystemPlace host start channelName place →
      disk place = start.disk place)
    (written : disk (Esconf.userFileName start channelName) = some text) :
    ∃ again, Esconf.loadChannel host disk channelName = some (.ok again) ∧
      Sound base.properties again current := by
  obtain ⟨again, merged, sound⟩ := (stored.memory channel loaded).reread installed.prints
    installed.valid (understood channel loaded dirty) done written rfl installed.unlocked
    installed.tidy
  refine ⟨again, ?_, sound⟩
  rw [installed.loadChannel system, merged]
  rfl

theorem notWritten (installed : Installed host start channelName base)
    (stored : Stored host start channelName base saved current xbpx) {keys : List CString}
    {place : CString} (listed : SystemPlace host start channelName place) :
    NotWritten xbpx keys place := by
  intro key _
  rw [stored.userFileName]
  exact installed.apart place listed key

theorem flushed (installed : Installed host start channelName base)
    (stored : Stored host start channelName base saved current xbpx)
    (understood : Understood host channelName xbpx) {schedule : Schedule} {device left : Device}
    (done : (perchannelXmlFlush host schedule xbpx device).2 = .returned none after left) :
    Stored host start channelName base current current after ∧
      ∀ loaded, after.channels.lookup channelName = some loaded → loaded.dirty = false := by
  have frame := flushChannels_frame done
  have system : ∀ place, SystemPlace host start channelName place →
      after.disk place = start.disk place := fun place listed =>
    (frame.files place (stored.notWritten installed listed)).trans (stored.system place listed)
  by_cases dirty : channelName ∈ dirtyChannels xbpx
  · obtain ⟨channel, text, loaded, whole, entry, written⟩ :=
      (flushChannels_published (nodup_dirtyChannels xbpx) done).2 channelName dirty
    obtain ⟨channel', loaded', marked⟩ := mem_dirtyChannels.mp dirty
    rw [loaded] at loaded'
    cases loaded'
    have sound := stored.memory channel loaded
    rw [sound.formatted host] at entry
    rw [stored.userFileName] at written
    obtain ⟨again, loads, soundFile⟩ :=
      stored.published installed understood loaded marked whole system written
    refine ⟨⟨frame.savePath.trans stored.savePath, system, ?_, again, loads, soundFile,
      fun _ => soundFile⟩, ?_⟩
    · intro other here
      rw [entry] at here
      cases here
      exact sound.mark false
    · intro other here
      rw [entry] at here
      cases here
      rfl
  · have entry := frame.entries channelName dirty
    have clean : ∀ loaded, xbpx.channels.lookup channelName = some loaded →
        loaded.dirty = false := by
      intro loaded here
      cases marked : loaded.dirty with
      | false => rfl
      | true => exact absurd (mem_dirtyChannels.mpr ⟨loaded, here, marked⟩) dirty
    have user : after.disk (Esconf.userFileName start channelName) =
        xbpx.disk (Esconf.userFileName start channelName) := by
      rw [← stored.userFileName]
      exact frame.files _ (userFile_notWritten dirty)
    have kept := stored.frame installed frame.savePath entry user fun place listed =>
      frame.files place (stored.notWritten installed listed)
    rw [← entry] at clean
    obtain ⟨onDisk, loads, _, settled⟩ := kept.file
    exact ⟨⟨kept.savePath, kept.system, kept.memory, onDisk, loads, settled clean,
      fun _ => settled clean⟩, clean⟩

/-- When the process stops in a flush, everything is saved or nothing. -/
theorem stopped (installed : Installed host start channelName base)
    (stored : Stored host start channelName base saved current xbpx)
    (understood : Understood host channelName xbpx) {schedule : Schedule} {device : Device}
    {disk : Disk} (done : (perchannelXmlFlush host schedule xbpx device).2 = .stopped disk) :
    Stored host start channelName base saved saved (nextBackend xbpx disk) ∨
      Stored host start channelName base current current (nextBackend xbpx disk) := by
  obtain ⟨texts, others⟩ := flushChannels_stopped (nodup_dirtyChannels xbpx) done
  have system : ∀ place, SystemPlace host start channelName place →
      disk place = start.disk place := fun place listed =>
    (others place (stored.notWritten installed listed)).trans (stored.system place listed)
  have landed : ∀ {maps : PropMaps} {channel : EsconfChannel},
      Esconf.loadChannel host disk channelName = some (.ok channel) →
      Sound base.properties channel maps →
      Stored host start channelName base maps maps (nextBackend xbpx disk) := by
    intro maps channel loads sound
    refine ⟨stored.savePath, system, ?_, channel, loads, sound, fun _ => sound⟩
    intro other here
    cases here
  have file := texts channelName
  rw [stored.userFileName] at file
  rcases file with kept | ⟨dirty, channel, text, loaded, whole, written⟩
  · obtain ⟨channel, loads, sound, _⟩ := stored.file
    refine Or.inl (landed ?_ sound)
    rw [installed.loadChannel system, mergeFile_congr host kept,
      ← installed.loadChannel stored.system]
    exact loads
  · obtain ⟨channel', loaded', marked⟩ := mem_dirtyChannels.mp dirty
    rw [loaded] at loaded'
    cases loaded'
    obtain ⟨again, loads, sound⟩ :=
      stored.published installed understood loaded marked whole system written
    exact Or.inr (landed loads sound)

/-- The second flush of an end in `esconf_daemon_finalize` has nothing to write. -/
theorem finalizeBackend_returned {schedule : Schedule} {device left : Device}
    {error : Option GError}
    (done : (perchannelXmlFlush host schedule { xbpx with propChangedFunc := false } device).2 =
      .returned error after left) :
    finalizeBackend host schedule xbpx device =
      .returned error { after with saveId := false } left := by
  have nothing : dirtyChannels { after with saveId := false } = dirtyChannels after := rfl
  rw [perchannelXmlFlush_unmarked done] at nothing
  rw [finalizeBackend, done]
  dsimp only
  rw [perchannelXmlFinalize]
  by_cases pending : after.saveId = true
  · rw [if_pos pending, perchannelXmlFlush, nothing]
    dsimp only [flushChannels]
    rw [Option.or_none]
  · rw [if_neg pending]
    have same : after = { after with saveId := false } := by
      rw [← Bool.eq_false_iff.mpr pending]
    dsimp only
    rw [Option.or_none, ← same]

/-- What writes the files saves everything if it reports no error, and everything or nothing
when the process stops in it. -/
theorem saves (installed : Installed host start channelName base)
    (stored : Stored host start channelName base saved current xbpx)
    (understood : Understood host channelName xbpx) {saving : Saving} {schedule : Schedule}
    {device : Device} {flushed : Flushed}
    (done : saving.flushes host schedule xbpx device = some flushed) :
    (∀ after left, flushed = .returned none after left →
      Stored host start channelName base current current after) ∧
    ∀ disk, flushed = .stopped disk →
      Stored host start channelName base saved saved (nextBackend xbpx disk) ∨
        Stored host start channelName base current current (nextBackend xbpx disk) := by
  cases saving with
  | timer =>
      rw [Saving.flushes] at done
      split at done
      · cases done
        have expired : Stored host start channelName base saved current
            { xbpx with saveId := false } := stored.frame installed rfl rfl rfl fun _ _ => rfl
        exact ⟨fun after left written => (expired.flushed installed understood written).1,
          fun disk written => expired.stopped installed understood written⟩
      · cases done
  | flush =>
      cases done
      exact ⟨fun after left written => (stored.flushed installed understood written).1,
        fun disk written => stored.stopped installed understood written⟩
  | finalize =>
      cases done
      have silent : Stored host start channelName base saved current
          { xbpx with propChangedFunc := false } :=
        stored.frame installed rfl rfl rfl fun _ _ => rfl
      cases first : (perchannelXmlFlush host schedule
          { xbpx with propChangedFunc := false } device).2 with
      | stopped disk =>
          rw [finalizeBackend, first]
          refine ⟨nofun, ?_⟩
          intro disk same
          cases same
          exact silent.stopped installed understood first
      | returned error middle rest =>
          rw [finalizeBackend_returned first]
          refine ⟨?_, nofun⟩
          intro after left same
          cases same
          exact (silent.flushed installed understood first).1.frame installed rfl rfl rfl
            fun _ _ => rfl

end Stored

def Journaled (host : Host) (start : EsconfBackendPerchannelXml) (channelName : CString)
    (base : EsconfChannel) (maps : PropMaps) (journal : Journal StoreChange)
    (xbpx : EsconfBackendPerchannelXml) : Prop :=
  Stored host start channelName base (StoreChange.applyAll maps journal.saved)
    (StoreChange.applyAll maps journal.all) xbpx

theorem Journaled.step (installed : Installed host start channelName base) {maps : PropMaps}
    {journal : Journal StoreChange} {xbpx after : EsconfBackendPerchannelXml} {event : DaemonEvent}
    (kept : Journaled host start channelName base maps journal xbpx)
    (orderly : event.Orderly host channelName xbpx) (leads : Leads host xbpx event after) :
    ∃ record ∈ event.records channelName,
      Journaled host start channelName base maps (journal.after record) after := by
  cases leads with
  | called performed =>
      obtain ⟨changes, member, stored⟩ := Stored.called installed kept orderly performed
      refine ⟨_, member, ?_⟩
      rw [Journaled, Journal.after_made]
      rw [← StoreChange.applyAll_append, Journal.all, List.append_assoc] at stored
      exact stored
  | @cleared channel reply after performed =>
      by_cases there : channel = channelName
      · cases there
        have left := Stored.cleared installed kept performed
        cases outcome : reply.isOk with
        | true =>
            rw [outcome, if_pos rfl] at left
            refine ⟨[.made .clear, .saved], by simp [DaemonEvent.records], ?_⟩
            have emptied : StoreChange.applyAll maps (journal.all ++ [.clear]) =
                StoreChange.clear.apply (StoreChange.applyAll maps journal.all) :=
              StoreChange.applyAll_append _ _ _
            have same : journal.after [.made .clear, .saved] =
                ⟨journal.all ++ [.clear], []⟩ := by
              simp [Journal.after, Journal.step, Journal.all]
            rw [Journaled, same, Journal.all_settled, emptied]
            exact left
        | false =>
            rw [outcome, if_neg Bool.false_ne_true] at left
            refine ⟨[.lost], by simp [DaemonEvent.records], ?_⟩
            rw [Journaled, Journal.after_lost, Journal.all_settled]
            exact left
      · refine ⟨[], by simp [DaemonEvent.records, there], ?_⟩
        apply Stored.elsewhere installed kept there orderly
        apply @perform_confined host _ _ (.reset channel "/".toList true)
        rw [Request.perform, performed]
        rfl
  | @saved saving schedule device left after written =>
      have stored := (Stored.saves installed kept orderly written).1 after left rfl
      refine ⟨[.saved], by simp [DaemonEvent.records], ?_⟩
      rw [Journaled, Journal.after_saved, Journal.all_settled]
      split
      · exact stored.next
      · exact stored
  | @stopped saving schedule device disk written =>
      rcases (Stored.saves installed kept orderly written).2 disk rfl with stored | stored
      · refine ⟨[.lost], by simp [DaemonEvent.records], ?_⟩
        rw [Journaled, Journal.after_lost, Journal.all_settled]
        exact stored
      · refine ⟨[.saved], by simp [DaemonEvent.records], ?_⟩
        rw [Journaled, Journal.after_saved, Journal.all_settled]
        exact stored
  | killed =>
      refine ⟨[.lost], by simp [DaemonEvent.records], ?_⟩
      rw [Journaled, Journal.after_lost, Journal.all_settled]
      exact Stored.next kept

def Answers (host : Host) (channelName : CString) (xbpx : EsconfBackendPerchannelXml)
    (maps : PropMaps) : Prop :=
  ∀ property, esconfPropertyIsValid property = none →
    ∃ after, esconfBackendGet host xbpx channelName property =
      some (if (maps.effective property).isSet then .ok (maps.effective property)
        else .error (some (propertyNotFound property channelName)), after)

theorem Stored.answers (installed : Installed host start channelName base)
    {saved current : PropMaps} {xbpx : EsconfBackendPerchannelXml}
    (stored : Stored host start channelName base saved current xbpx) :
    Answers host channelName xbpx current := by
  intro property accepted
  obtain ⟨after, got⟩ := stored.get installed.lower (propNameIsValid_of_property accepted)
  refine ⟨after, ?_⟩
  rw [esconfBackendGet, guarded_valid xbpx installed.valid accepted, answer, got, Option.map_some]
  split <;> rfl

end Files

section Killed

end Killed

end Esconf
