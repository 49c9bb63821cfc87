import Esconf.FlushChannel
import Esconf.ChannelFrames
import Esconf.SystemFiles
import Esconf.XmlPolicy

/-! Saving: requests, the save timeout and explicit flushes, one after the other. -/

namespace Esconf

open NamedTree

variable (host : Host)

/-- What `esconf_backend_perchannel_xml_flush_get_dirty` collects. -/
def dirtyChannels (xbpx : EsconfBackendPerchannelXml) : List CString :=
  ((xbpx.channels.entries.filter fun entry => entry.2.dirty).map Sigma.fst).reverse

/-- The loop of `esconf_backend_perchannel_xml_flush`; the first error is kept. -/
def flushChannels (schedule : Schedule) :
    List CString → EsconfBackendPerchannelXml → Device → Option GError → Flushed
  | [], xbpx, device, error => .returned error xbpx device
  | key :: rest, xbpx, device, error =>
    match flushChannel host schedule xbpx key device with
    | .stopped disk => .stopped disk
    | .returned failure xbpx device => flushChannels schedule rest xbpx device (error.or failure)

/-- `esconf_backend_perchannel_xml_flush`: what it returns, and what it does. -/
def perchannelXmlFlush (schedule : Schedule) (xbpx : EsconfBackendPerchannelXml)
    (device : Device) : Bool × Flushed :=
  (true, flushChannels host schedule (dirtyChannels xbpx) xbpx device none)

/-- `esconf_backend_perchannel_xml_save_timeout`. -/
def saveTimeout (schedule : Schedule) (xbpx : EsconfBackendPerchannelXml) (device : Device) :
    Flushed :=
  (perchannelXmlFlush host schedule { xbpx with saveId := false } device).2

theorem mem_dirtyChannels {xbpx : EsconfBackendPerchannelXml} {key : CString} :
    key ∈ dirtyChannels xbpx ↔
      ∃ channel, xbpx.channels.lookup key = some channel ∧ channel.dirty = true := by
  rw [dirtyChannels, List.mem_reverse, List.mem_map]
  constructor
  · intro collected
    obtain ⟨⟨other, channel⟩, member, rfl⟩ := collected
    obtain ⟨entry, dirty⟩ := List.mem_filter.mp member
    exact ⟨channel, AList.mem_lookup_iff.mpr entry, dirty⟩
  · intro loaded
    obtain ⟨channel, found, dirty⟩ := loaded
    exact ⟨⟨key, channel⟩, List.mem_filter.mpr ⟨AList.mem_lookup_iff.mp found, dirty⟩, rfl⟩

theorem nodup_dirtyChannels (xbpx : EsconfBackendPerchannelXml) : (dirtyChannels xbpx).Nodup := by
  rw [dirtyChannels, List.nodup_reverse]
  exact (List.Sublist.map Sigma.fst List.filter_sublist).nodup xbpx.channels.nodupKeys

theorem formatXmlTag_formatted (spaces : CString) (value : GValue) :
    formatXmlTag host spaces (formattedValue value) = formatXmlTag host spaces value := by
  cases value <;> rfl

theorem writeNodes_formatted {depth : Nat} {nodes : List PropTree}
    (each : ∀ child ∈ nodes, ∀ depth,
      writeNode host depth (mapData formattedProperty child) = writeNode host depth child) :
    writeNodes host depth (mapDataAll formattedProperty nodes) = writeNodes host depth nodes := by
  induction nodes with
  | nil => rfl
  | cons child rest ih =>
      rw [mapDataAll, writeNodes, writeNodes, each child List.mem_cons_self,
        ih fun other member => each other (List.mem_cons_of_mem _ member)]

theorem writeNode_formatted (node : PropTree) :
    ∀ depth, writeNode host depth (mapData formattedProperty node) = writeNode host depth node := by
  induction node using byChildren with
  | step name prop children ih =>
      intro depth
      have empty : (mapDataAll formattedProperty children).isEmpty = children.isEmpty := by
        cases children <;> rfl
      have tag : formatXmlTag host (spacesAt depth) (formattedProperty prop).value =
          formatXmlTag host (spacesAt depth) prop.value := formatXmlTag_formatted host _ _
      rw [mapData, writeNode, writeNode, tag, empty, writeNodes_formatted host ih]

def formattedTree (properties : PropTree) : PropTree :=
  withChildren properties (mapDataAll formattedProperty properties.children)

theorem flushText_formatted (channelName : CString) (properties : PropTree) :
    flushText host channelName (formattedTree properties) =
      flushText host channelName properties := by
  rw [flushText, flushText, formattedTree, withChildren, children_node,
    writeNodes_formatted host fun child _ => writeNode_formatted host child]

variable {host}

theorem userFileName_injective {xbpx : EsconfBackendPerchannelXml} {first second : CString}
    (same : userFileName xbpx first = userFileName xbpx second) : first = second := by
  unfold userFileName at same
  exact List.append_cancel_left (List.append_cancel_right same)

theorem userFileName_not_new {xbpx : EsconfBackendPerchannelXml} {first second : CString} :
    userFileName xbpx first ≠ userFileName xbpx second ++ ".new".toList := by
  intro same
  have published : (userFileName xbpx first).getLast? = some 'l' := by
    rw [userFileName, List.getLast?_append]
    rfl
  have new : (userFileName xbpx second ++ ".new".toList).getLast? = some 'w' := by
    rw [List.getLast?_append]
    rfl
  rw [same, new] at published
  cases published

structure Flushes (host : Host) (before : EsconfBackendPerchannelXml) (keys : List CString)
    (after : EsconfBackendPerchannelXml) : Prop where
  savePath : after.configSavePath = before.configSavePath
  flushed : ∀ key ∈ keys, ∃ channel text, before.channels.lookup key = some channel ∧
    flushText host key channel.properties = .ok text ∧
    after.channels.lookup key =
      some { channel with properties := formattedTree channel.properties, dirty := false } ∧
    after.disk (userFileName before key) = some text
  others : ∀ key, key ∉ keys → after.channels.lookup key = before.channels.lookup key ∧
    after.disk (userFileName before key) = before.disk (userFileName before key)

theorem flushChannel_reliable {schedule : Schedule} (reliable : Reliable schedule)
    {xbpx : EsconfBackendPerchannelXml} {key : CString} {channel : EsconfChannel} {text : CString}
    (loaded : xbpx.channels.lookup key = some channel)
    (written : flushText host key channel.properties = .ok text) (device : Device) :
    ∃ after left, flushChannel host schedule xbpx key device = .returned none after left ∧
      Flushes host xbpx [key] after := by
  obtain ⟨value, files, completed⟩ :=
    writeFile_completes (userFileName xbpx key) reliable ⟨xbpx.disk, device⟩ written
  have meets := @writeFile_meets host schedule (userFileName xbpx key)
    key channel.properties ⟨xbpx.disk, device⟩
  rw [completed] at meets
  obtain ⟨properties, text', written', published, _, others⟩ := meets
  rw [written] at written'
  cases written'
  refine ⟨{ xbpx.store key { channel with properties := value.1, dirty := false } with
    disk := files.disk }, files.device, ?_, ?_⟩
  · unfold flushChannel
    rw [loaded]
    dsimp only
    rw [completed]
  · constructor
    · rfl
    · intro other member
      rw [List.mem_singleton.mp member]
      refine ⟨channel, text, loaded, written, ?_, published⟩
      change (xbpx.channels.insert key _).lookup key = _
      rw [AList.lookup_insert, properties]
      rfl
    · intro other apart
      have different : other ≠ key := fun same => apart (List.mem_singleton.mpr same)
      constructor
      · exact AList.lookup_insert_ne different
      · apply others
        · intro same
          exact different (userFileName_injective same)
        · exact userFileName_not_new

variable (host)

/-- The user file of a channel, read over its system values and locks, gives the
user values that the channel has. -/
def ReadsAs (xbpx : EsconfBackendPerchannelXml) (key : CString) (channel : EsconfChannel) : Prop :=
  ∃ base read, base.locked = false ∧
    (∀ path, base.properties.slot path = (channel.properties.slot path).withValue .invalid) ∧
    mergeFile host xbpx.disk (userFileName xbpx key) false base = some read ∧
    ∀ path, (read.2.properties.slot path).value = (channel.properties.slot path).value

/-- The user values of a channel are those of its file: the file is the text that is
written for them, or gives them when it is read. The user file of a channel that
is locked as a whole is not read. -/
def OnDisk (xbpx : EsconfBackendPerchannelXml) (key : CString) (channel : EsconfChannel) : Prop :=
  (∃ text, flushText host key channel.properties = .ok text ∧
      xbpx.disk (userFileName xbpx key) = some text) ∨
    ReadsAs host xbpx key channel ∨ (channel.locked = true ∧ NoUserValues channel)

/-- A channel is not loaded, or marked dirty, or on the disk. -/
def Remembered (xbpx : EsconfBackendPerchannelXml) (key : CString) : Prop :=
  ∀ channel, xbpx.channels.lookup key = some channel →
    channel.dirty = true ∨ OnDisk host xbpx key channel

variable {host}

theorem OnDisk.congr {before after : EsconfBackendPerchannelXml} {key : CString}
    {channel : EsconfChannel} (onDisk : OnDisk host before key channel)
    (savePath : after.configSavePath = before.configSavePath)
    (file : after.disk (userFileName before key) = before.disk (userFileName before key)) :
    OnDisk host after key channel := by
  have name : userFileName after key = userFileName before key := by
    rw [userFileName, userFileName, savePath]
  rcases onDisk with ⟨text, written, stored⟩ | ⟨base, read, unlocked, slots, merged, same⟩ | none
  · refine Or.inl ⟨text, written, ?_⟩
    rw [name, file]
    exact stored
  · refine Or.inr (Or.inl ⟨base, read, unlocked, slots, ?_, same⟩)
    rw [name, mergeFile_congr host file]
    exact merged
  · exact Or.inr (Or.inr none)

theorem Remembered.congr {before after : EsconfBackendPerchannelXml} {key : CString}
    (remembered : Remembered host before key)
    (entry : after.channels.lookup key = before.channels.lookup key)
    (savePath : after.configSavePath = before.configSavePath)
    (file : after.disk (userFileName before key) = before.disk (userFileName before key)) :
    Remembered host after key := by
  intro channel loaded
  rw [entry] at loaded
  rcases remembered channel loaded with dirty | onDisk
  · exact Or.inl dirty
  · exact Or.inr (onDisk.congr savePath file)

section Requests

variable {xbpx after : EsconfBackendPerchannelXml} {channelName : CString}

end Requests

variable (host)

inductive SaveEvent where
  | call (request : Request)
  | timer (schedule : Schedule) (device : Device)
  | flush (schedule : Schedule) (device : Device)

def Flushed.backend : Flushed → Option EsconfBackendPerchannelXml
  | returned _ xbpx _ => some xbpx
  | stopped _ => none

namespace SaveEvent

def perform (xbpx : EsconfBackendPerchannelXml) : SaveEvent → Option EsconfBackendPerchannelXml
  | call request => request.perform host xbpx
  | timer schedule device =>
    if xbpx.saveId then (saveTimeout host schedule xbpx device).backend else none
  | flush schedule device => (perchannelXmlFlush host schedule xbpx device).2.backend

/-- No file operation fails, and no channel that is to be written has a value that
is refused. -/
def Undisturbed (schedule : Schedule) (xbpx : EsconfBackendPerchannelXml) : Prop :=
  Reliable schedule ∧ ∀ key channel, xbpx.channels.lookup key = some channel →
    channel.dirty = true → flushableAll 1 channel.properties.children = true

/-- A flush is undisturbed, and a channel is called by the name it is kept under. -/
def Orderly (xbpx : EsconfBackendPerchannelXml) : SaveEvent → Prop
  | call request => gAsciiStrdown request.channel = request.channel
  | timer schedule _ => Undisturbed schedule xbpx
  | flush schedule _ => Undisturbed schedule xbpx

end SaveEvent

variable {host}

theorem Flushes.remembered {xbpx after : EsconfBackendPerchannelXml} {keys : List CString}
    (flushes : Flushes host xbpx keys after) {key : CString}
    (remembered : Remembered host xbpx key) : Remembered host after key := by
  by_cases member : key ∈ keys
  · obtain ⟨channel, text, _, written, entry, stored⟩ := flushes.flushed key member
    intro other loaded
    rw [entry] at loaded
    cases loaded
    refine Or.inr (Or.inl ⟨text, ?_, ?_⟩)
    · rw [flushText_formatted]
      exact written
    · rw [userFileName, flushes.savePath]
      exact stored
  · obtain ⟨entry, file⟩ := flushes.others key member
    exact remembered.congr entry flushes.savePath file

/-- The user file of a channel is loaded from where it is saved. -/
def SavesWhereItLoads (host : Host) (xbpx : EsconfBackendPerchannelXml) : Prop :=
  ∀ channelName, host.resourceSaveLocation (configFileStem channelName) =
    some (userFileName xbpx channelName)

theorem SavesWhereItLoads.congr {before after : EsconfBackendPerchannelXml}
    (saves : SavesWhereItLoads host before) (same : after.configSavePath = before.configSavePath) :
    SavesWhereItLoads host after := by
  intro channelName
  rw [userFileName, same]
  exact saves channelName

section Forgotten

def homeHost : Host :=
  { Host.bare [] with resourceSaveLocation := fun stem => some ("/home/".toList ++ stem) }

def homeBackend : EsconfBackendPerchannelXml :=
  { EsconfBackendPerchannelXml.idle ∅ with
    configSavePath := "/home/expidus1/esconf/expidus-perchannel-xml".toList }

def allDone : Schedule := fun _ => .done

def atStart : Device := ⟨0, "Success".toList⟩

def flushed : SaveEvent := .flush allDone atStart

theorem allDone_reliable : Reliable allDone := fun _ => rfl

end Forgotten

end Esconf
