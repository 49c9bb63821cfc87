import Esconf.DocumentedFiles
import Esconf.TidyTrees
import Esconf.Persistence

/-! The settings of a user file after one other property was set and the channel was
flushed: which files are read again as they were. -/

namespace Esconf

open NamedTree

variable {host : Host}

theorem tidy_root : Tidy .root := by
  have only : ∀ path node, descend PropTree.root path = some node → path = [] := by
    intro path node here
    cases path with
    | nil => rfl
    | cons name rest => cases here
  constructor
  · exact .node (by simp) nofun
  · intro path node here name member
    rw [only path node here] at member
    cases member
  · intro path node here
    rw [only path node here]
    decide

section Documents

variable {document : ChannelDocument} {system : Bool}

theorem document_read
    (opened : startElem host (startState .root system) "channel".toList document.attributes =
      .ok { startState .root system with curElem := .channel })
    (fine : ∀ mention ∈ document.mentions, mention.Accepted host ∧ mention.Regular host) :
    ∃ last, parseEvents host (startState .root system) document.events = .ok last := by
  have own : ∀ element ∈ document.properties, ∀ mention ∈ element.mentions [],
      mention.Accepted host ∧ mention.Regular host := by
    intro element member mention there
    exact fine mention (PropertyElement.mem_mentionsAll.mpr ⟨element, member, there⟩)
  have carries : Carries host system [] (PropertyElement.eventsAll document.properties)
      (assigned host document.mentions) :=
    carries_elements fun element member => carries_element element [] (own element member)
  obtain ⟨filled, read, inside, _⟩ := carries _ (inside_channel unlocked_root system)
  refine ⟨endElem filled, ?_⟩
  rw [ChannelDocument.events, parseEvents, handleEvent, opened]
  dsimp only
  rw [read]
  rfl

theorem layer_grown {disk : Disk} {filename : CString}
    (layer : ChannelDocument.Layer host disk system filename document) {base after : EsconfChannel}
    (unlocked : Unlocked base) {read : Bool}
    (merged : mergeFile host disk filename system base = some (read, after)) :
    Grown (document.mentions.map Mention.path) base.properties after.properties := by
  obtain ⟨contents, stored, parsed⟩ := layer.stored
  obtain ⟨opening, opened⟩ := layer.opened
  have fine : ∀ mention ∈ document.mentions, mention.Accepted host ∧ mention.Regular host :=
    fun mention member => ⟨layer.mentions_accepted mention member, layer.regular mention member⟩
  have own : ∀ element ∈ document.properties, ∀ mention ∈ element.mentions [],
      mention.Accepted host ∧ mention.Regular host := by
    intro element member mention there
    exact fine mention (PropertyElement.mem_mentionsAll.mpr ⟨element, member, there⟩)
  have carries : Carries host system [] (PropertyElement.eventsAll document.properties)
      (assigned host document.mentions) :=
    carries_elements fun element member => carries_element element [] (own element member)
  have start := inside_channel unlocked system
  obtain ⟨filled, carried, inside, _⟩ := carries _ start
  have whole := carried []
  rw [List.append_nil] at whole
  have grown := grows_elements fine (fun element member =>
    grows_element element [] (own element member)) _ filled start whole
  rw [mergeFile, stored] at merged
  dsimp only at merged
  rw [parsed] at merged
  dsimp only at merged
  rw [ChannelDocument.events, parseEvents, handleEvent,
    startElem_open base system layer.open' opened] at merged
  dsimp only at merged
  rw [carried, parseEvents, handleEvent] at merged
  cases merged
  change Grown _ _ (endElem filled).properties
  rw [endElem_properties]
  exact grown

theorem layer_names {disk : Disk} {filename : CString}
    (layer : ChannelDocument.Layer host disk system filename document)
    (clean : ∀ mention ∈ document.mentions, CleanText (elementName mention.attributes)) :
    ∀ mention ∈ document.mentions, ∀ name ∈ mention.path,
      name ≠ [] ∧ '/' ∉ name ∧ CleanText name := by
  intro mention member
  obtain ⟨element, inside, there⟩ := PropertyElement.mem_mentionsAll.mp member
  apply @mention_names (fun name => name ≠ [] ∧ '/' ∉ name ∧ CleanText name) element [] _ _
    mention there
  · intro name nothing
    cases nothing
  · intro other mentioned
    have known := PropertyElement.mem_mentionsAll.mpr ⟨element, inside, mentioned⟩
    exact ⟨(layer.mentions_accepted other known).opens.named, (layer.regular other known).plain,
      clean other known⟩

theorem layer_tidy {disk : Disk} {filename : CString}
    (layer : ChannelDocument.Layer host disk system filename document)
    (clean : ∀ mention ∈ document.mentions, CleanText (elementName mention.attributes))
    {base after : EsconfChannel} (unlocked : Unlocked base) (tidy : Tidy base.properties)
    {read : Bool} (merged : mergeFile host disk filename system base = some (read, after)) :
    Tidy after.properties :=
  tidy.grown (layer_grown layer unlocked merged)
    (List.forall_mem_map.mpr (layer_names layer clean))
    (List.forall_mem_map.mpr fun mention member => (layer.regular mention member).short)

theorem layer_loaded {disk : Disk} {filename : CString}
    (layer : ChannelDocument.Layer host disk false filename document)
    (clean : ∀ mention ∈ document.mentions, CleanText (elementName mention.attributes)) :
    ∃ channel, mergeFile host disk filename false .root = some (true, channel) ∧
      Unlocked channel ∧ Tidy channel.properties ∧ ∀ path, channel.properties.slot path =
        EsconfProperty.blank.withValue ((document.gives host path).getD .invalid) := by
  obtain ⟨channel, merged, unlocked, slots⟩ := layer.merged unlocked_root
  refine ⟨channel, merged, unlocked, layer_tidy layer clean unlocked_root tidy_root merged, ?_⟩
  intro path
  have root : EsconfChannel.root.properties.slot path = .blank := SystemReading.root_slot path
  rw [slots, root]
  cases document.gives host path <;> rfl

end Documents

/-- The system files of a channel, the least important first. -/
def systemFiles (host : Host) (disk : Disk) (channelName : CString) : List CString :=
  (host.resourceLookupAll disk (configFileStem channelName)).reverse.filter fun filename =>
    host.resourceSaveLocation (configFileStem channelName) != some filename

theorem systemFiles_congr {disk disk' : Disk} {channelName filename : CString}
    (place : host.resourceSaveLocation (configFileStem channelName) = some filename)
    (same : ∀ other ∈ host.resourcePlaces (configFileStem channelName), other ≠ filename →
      disk' other = disk other) :
    systemFiles host disk' channelName = systemFiles host disk channelName := by
  rw [systemFiles, systemFiles, place, Host.resourceLookupAll, Host.resourceLookupAll,
    ← List.filter_reverse, ← List.filter_reverse, List.filter_filter, List.filter_filter]
  apply List.filter_congr
  intro other listed
  by_cases apart : other = filename
  · simp [apart]
  · rw [same other (List.mem_reverse.mp listed) apart]

theorem loadChannel_over {disk : Disk} {channelName filename : CString} {base : EsconfChannel}
    (saved : host.resourceSaveLocation (configFileStem channelName) = some filename)
    (layers : mergeSystemFiles host disk (systemFiles host disk channelName) .root = some base)
    (unlocked : base.locked = false) :
    loadChannel host disk channelName =
      (mergeFile host disk filename false base).map fun merged => .ok merged.2 := by
  unfold loadChannel
  dsimp only
  rw [if_neg (by rw [saved]; simp)]
  change (mergeSystemFiles host disk (systemFiles host disk channelName) .root).bind _ = _
  rw [layers, Option.bind_some, saved]
  dsimp only
  rw [if_neg (by rw [unlocked]; simp)]

/-- The places of a channel hold no file but the one that is written. -/
def Alone (host : Host) (disk : Disk) (channelName filename : CString) : Prop :=
  ∀ place ∈ host.resourcePlaces (configFileStem channelName), place ≠ filename →
    disk place = none

theorem loadChannel_alone {disk : Disk} {channelName filename : CString}
    (saved : host.resourceSaveLocation (configFileStem channelName) = some filename)
    (alone : Alone host disk channelName filename) :
    loadChannel host disk channelName =
      (mergeFile host disk filename false .root).map fun merged => .ok merged.2 := by
  refine loadChannel_over saved ?_ rfl
  have none : systemFiles host disk channelName = [] := by
    apply List.filter_eq_nil_iff.mpr
    intro place member
    obtain ⟨listed, there⟩ := List.mem_filter.mp (List.mem_reverse.mp member)
    by_contra apart
    have missing := alone place listed fun same => by simp [saved, same] at apart
    rw [missing] at there
    cases there
  rw [none]
  rfl

/-- The text of a tidy channel is a document that is accepted, and whose elements are named
as its nodes are. -/
theorem Tidy.written_layer {tree : PropTree} (tidy : Tidy tree) (prints : PrintsDoubles host)
    (readable : ∀ path, path ≠ [] → rereads (tree.slot path).value = true)
    {channelName filename text : CString} {disk : Disk}
    (valid : esconfChannelIsValid channelName = none)
    (markup : GMarkupNormalizes host (documentTags host channelName tree))
    (written : flushText host channelName tree = .ok text) (stored : disk filename = some text) :
    ChannelDocument.Layer host disk false filename (writtenDocument host channelName tree) ∧
      ∀ mention ∈ (writtenDocument host channelName tree).mentions,
        CleanText (elementName mention.attributes) := by
  obtain ⟨full, cleanName, plain⟩ := acceptedName_plain valid
  have parsed := written_delivered plain (fun child _ => prints.all child) markup written
  have attributes : (writtenDocument host channelName tree).attributes =
      [("name".toList, channelName), ("version".toList, "1.0".toList)] := by
    have version : normalizeAttribute "1.0".toList = "1.0".toList :=
      normalizeAttribute_clean (by decide)
    change [("name".toList, normalizeAttribute channelName),
      ("version".toList, normalizeAttribute "1.0".toList)] = _
    rw [normalizeAttribute_clean cleanName, version]
  have opened := @startElem_channel host .root _ full
  rw [← attributes] at opened
  have each : ∀ mention ∈ (writtenDocument host channelName tree).mentions,
      (mention.Accepted host ∧ mention.Regular host) ∧
        CleanText (elementName mention.attributes) := by
    intro mention member
    obtain ⟨sub, nonempty, here, same⟩ := (mem_document prints tidy channelName).mp member
    rcases List.eq_nil_or_concat mention.path with none | ⟨front, name, parts⟩
    · exact absurd none nonempty
    rw [List.concat_eq_append] at parts
    have key : sub.key = name := by
      rw [parts] at here
      exact descend_key here
    obtain ⟨named, slashless, clean⟩ := tidy.names _ _ here name (by rw [parts]; simp)
    have slot : tree.slot mention.path = sub.data := lookup_of_descend here
    have known := readable mention.path nonempty
    rw [slot] at known
    rw [← key] at named slashless clean
    have called : elementName (nodeMention host mention.path sub).attributes = sub.key := by
      obtain ⟨type, value, _, attributes, _⟩ :=
        @headAttributes_read _ sub.data.value (fun _ => prints) _ clean
      rw [nodeMention, attributes, elementName_written]
    rw [same]
    refine ⟨⟨nodeMention_accepted prints _ named clean known,
      nodeMention_regular prints clean slashless (tidy.short _ _ here)⟩, ?_⟩
    rw [called]
    exact clean
  obtain ⟨last, read⟩ := document_read opened fun mention member => (each mention member).1
  refine ⟨⟨⟨text, stored, parsed⟩, ⟨last, read⟩, ?_, ?_⟩, fun mention member =>
    (each mention member).2⟩
  · rw [attributes]
    rfl
  · intro mention member
    exact (each mention member).1.2

structure SetAfresh (xbpx middle : EsconfBackendPerchannelXml) (channelName property : CString)
    (value : GValue) (loaded written : EsconfChannel) : Prop where
  valid : esconfChannelIsValid channelName = none
  accepted : esconfPropertyIsValid property = none
  disk : middle.disk = xbpx.disk
  savePath : middle.configSavePath = xbpx.configSavePath
  entry : middle.channels.lookup (gAsciiStrdown channelName) = some written
  others : ∀ name, name ≠ gAsciiStrdown channelName →
    middle.channels.lookup name = xbpx.channels.lookup name
  slots : ∀ path, written.properties.slot path =
    if path = nameParts property then (loaded.properties.slot path).withValue value
    else loaded.properties.slot path
  grown : Grown [nameParts property] loaded.properties written.properties

theorem decoded_set {variant : GVariant} {value : GValue}
    (decoded : esconfGvariantToGvalue variant = some value) : value.isSet = true := by
  rw [esconfGvariantToGvalue_unboxed] at decoded
  cases inner : unboxed variant <;> rw [inner] at decoded <;> cases decoded <;> rfl

theorem set_afresh {xbpx middle : EsconfBackendPerchannelXml} {channelName property : CString}
    {variant : GVariant} {loaded : EsconfChannel}
    (unloaded : xbpx.channels.lookup channelName = none)
    (loads : loadChannel host xbpx.disk channelName = some (.ok loaded))
    (short : property.length < maxPropPath)
    (blank : loaded.properties.slot (nameParts property) = .blank)
    (performed : esconfSetProperty host xbpx channelName property variant =
      some (.ok (), middle)) :
    ∃ value written, esconfGvariantToGvalue variant = some value ∧
      SetAfresh xbpx middle channelName property value loaded written := by
  unfold esconfSetProperty at performed
  cases decoded : esconfGvariantToGvalue variant with
  | none =>
      rw [decoded] at performed
      cases performed
  | some value =>
      rw [decoded] at performed
      rcases guarded_cases performed with ⟨error, refused⟩ | ⟨clear, inner, done, same⟩
      · cases refused
      have checks := List.findSome?_eq_none_iff.mp clear
      have valid : esconfChannelIsValid channelName = none := checks _ List.mem_cons_self
      have accepted : esconfPropertyIsValid property = none :=
        checks _ (List.mem_cons_of_mem _ List.mem_cons_self)
      unfold perchannelXmlSet findChannel at done
      rw [unloaded, loads] at done
      have outcome := Option.some.inj done
      rcases setIn_outcome (xbpx.store (gAsciiStrdown channelName) loaded)
          (gAsciiStrdown channelName) loaded channelName value accepted short with
        ⟨error, refused⟩ | ⟨_, equal⟩ | ⟨properties, changed, slots, _, grown⟩
      · rw [refused] at outcome
        rw [← outcome] at same
        cases same
      · rw [blank] at equal
        have different := GValue.isEqual_invalid_left (decoded_set decoded)
        exact absurd (equal.symm.trans different) (by simp)
      · rw [changed] at outcome
        rw [← outcome] at same
        cases same
        refine ⟨value, { loaded with properties, dirty := true }, rfl, valid, accepted, ?_, ?_, ?_,
          ?_, slots, grown⟩
        · simp
        · change (EsconfBackendPerchannelXml.propChanged _ _ _).configSavePath = _
          unfold EsconfBackendPerchannelXml.propChanged
          split <;> rfl
        · rw [EsconfBackendPerchannelXml.scheduleSave_channels, AList.lookup_insert]
        · intro name apart
          rw [EsconfBackendPerchannelXml.scheduleSave_channels, AList.lookup_insert_ne apart,
            EsconfBackendPerchannelXml.propChanged_channels,
            EsconfBackendPerchannelXml.store_channels, AList.lookup_insert_ne apart]

/-- A conforming file that is the only file of a channel, at the place where the channel
is written. -/
structure OnlyFile (host : Host) (xbpx : EsconfBackendPerchannelXml) (channelName : CString)
    (file : ChannelContents) : Prop where
  saved : host.resourceSaveLocation (configFileStem channelName) =
    some (userFileName xbpx channelName)
  alone : Alone host xbpx.disk channelName (userFileName xbpx channelName)
  stored : ∃ contents, xbpx.disk (userFileName xbpx channelName) = some contents ∧
    host.markupParse contents = (file.events, none)
  conforms : Conforms host file

section Settings

variable {xbpx middle : EsconfBackendPerchannelXml} {channelName property : CString}
  {file : ChannelContents}

theorem OnlyFile.inOrder (only : OnlyFile host xbpx channelName file) (short : PathsFit file)
    {channel : EsconfChannel}
    (read : mergeFile host xbpx.disk (userFileName xbpx channelName) false .root =
      some (true, channel)) : file.InOrder := by
  obtain ⟨contents, stored, parsed⟩ := only.stored
  rw [mergeFile, stored] at read
  dsimp only at read
  rw [parsed] at read
  cases outcome : parseEvents host (startState .root false) file.events with
  | ok last =>
      exact ChannelContents.inOrder_of_read only.conforms.free
        (fun mention member => (only.conforms.each mention member).regular (short mention member))
        outcome
  | error error state =>
      rw [outcome] at read
      cases read
  | fault state =>
      rw [outcome] at read
      cases read

theorem OnlyFile.loaded (only : OnlyFile host xbpx channelName file) (short : PathsFit file)
    (ordered : file.InOrder) :
    ∃ channel, mergeFile host xbpx.disk (userFileName xbpx channelName) false .root =
        some (true, channel) ∧
      loadChannel host xbpx.disk channelName = some (.ok channel) ∧ Tidy channel.properties ∧
      ∀ path, channel.properties.slot path =
        EsconfProperty.blank.withValue ((file.document.gives host path).getD .invalid) := by
  have conforms := only.conforms
  obtain ⟨contents, stored, parsed⟩ := only.stored
  rw [file.events_inOrder conforms.top ordered] at parsed
  have opened : startElem host (startState .root false) "channel".toList file.document.attributes =
      .ok { startState .root false with curElem := .channel } := by
    change xmlHandleChannel host _ file.attributes = _
    unfold xmlHandleChannel
    rw [conforms.opening, conforms.free]
  have regular : ∀ mention ∈ file.document.mentions, mention.Regular host :=
    fun mention member => (conforms.each mention member).regular (short mention member)
  obtain ⟨last, read⟩ := document_read opened fun mention member =>
    ⟨(conforms.each mention member).accepted, regular mention member⟩
  have layer : ChannelDocument.Layer host xbpx.disk false (userFileName xbpx channelName)
      file.document :=
    ⟨⟨contents, stored, parsed⟩, ⟨last, read⟩, conforms.free, regular⟩
  obtain ⟨channel, merged, _, tidy, slots⟩ :=
    layer_loaded layer fun mention member => (conforms.each mention member).clean
  refine ⟨channel, merged, ?_, tidy, slots⟩
  rw [loadChannel_alone only.saved only.alone, merged]
  rfl

theorem gives_setting (conforms : Conforms host file) (path : List CString) :
    setting ((file.document.gives host path).getD .invalid) = true := by
  cases given : file.document.gives host path with
  | none => rfl
  | some value =>
      obtain ⟨mention, member, same⟩ :=
        List.mem_map.mp (Assignments.mem_of_last given)
      cases same
      exact (conforms.each mention member).gives

theorem accepted_names (accepted : esconfPropertyIsValid property = none) :
    ∀ name ∈ nameParts property, name ≠ [] ∧ '/' ∉ name ∧ CleanText name := by
  have clean : CleanText property := by
    intro c member
    have allowed := accepted_chars accepted c member
    refine ⟨?_, ?_, ?_⟩ <;> rintro rfl <;> revert allowed <;> decide
  intro name member
  refine ⟨named_of_property accepted name member, nameParts_plain property name member, ?_⟩
  intro c inside
  apply clean c
  rw [← partsName_nameParts (propNameIsValid_of_property accepted)]
  obtain ⟨front, back, split⟩ := List.append_of_mem member
  rw [split, partsName, SeparatedWords.join_append]
  apply List.mem_append_right
  exact List.mem_append_left _ (List.mem_cons_of_mem _ inside)

theorem gives_unmentioned {path : List CString}
    (other : ∀ mention ∈ file.document.mentions, mention.path ≠ path) :
    file.document.gives host path = none := by
  cases given : file.document.gives host path with
  | none => rfl
  | some value =>
      obtain ⟨mention, member, same⟩ := List.mem_map.mp (Assignments.mem_of_last given)
      exact absurd (congrArg Prod.fst same) (other mention member)

structure Prepared (host : Host) (file : ChannelContents) (property : CString) (value : GValue)
    (written : EsconfChannel) : Prop where
  tidy : Tidy written.properties
  new : (written.properties.slot (nameParts property)).value = value
  old : ∀ path, path ≠ nameParts property → (written.properties.slot path).value =
    (file.document.gives host path).getD .invalid

theorem OnlyFile.prepared (only : OnlyFile host xbpx channelName file) (ordered : file.InOrder)
    {variant : GVariant} (unloaded : xbpx.channels.lookup channelName = none)
    (fits : PathsFit file) (short : property.length < maxPropPath)
    (other : ∀ mention ∈ file.document.mentions, mention.path ≠ nameParts property)
    (performed : esconfSetProperty host xbpx channelName property variant =
      some (.ok (), middle)) :
    ∃ value loaded written, esconfGvariantToGvalue variant = some value ∧
      SetAfresh xbpx middle channelName property value loaded written ∧
      Prepared host file property value written := by
  obtain ⟨loaded, _, loads, tidy, slots⟩ := only.loaded fits ordered
  have blank : loaded.properties.slot (nameParts property) = .blank := by
    rw [slots, gives_unmentioned other]
    rfl
  obtain ⟨value, written, decoded, afresh⟩ :=
    set_afresh unloaded loads short blank performed
  refine ⟨value, loaded, written, decoded, afresh, ?_, ?_, ?_⟩
  · apply tidy.grown afresh.grown
    · exact List.forall_mem_singleton.mpr (accepted_names afresh.accepted)
    · intro parts member
      rw [List.mem_singleton.mp member,
        partsName_nameParts (propNameIsValid_of_property afresh.accepted)]
      exact short
  · rw [afresh.slots, if_pos rfl]
    rfl
  · intro path apart
    rw [afresh.slots, if_neg apart, slots]
    rfl

theorem Prepared.readable {value : GValue} {written : EsconfChannel} {variant : GVariant}
    (prepared : Prepared host file property value written) (conforms : Conforms host file)
    (decoded : esconfGvariantToGvalue variant = some value)
    (known : ∀ path, path ≠ [] → formattable (written.properties.slot path).value = true) :
    ∀ path, path ≠ [] → rereads (written.properties.slot path).value = true := by
  intro path full
  have here := known path full
  by_cases same : path = nameParts property
  · rw [same, prepared.new] at here ⊢
    exact decoded_rereads decoded here
  · rw [prepared.old path same] at here ⊢
    exact setting_rereads (gives_setting conforms path) here

end Settings

section Saved

end Saved

end Esconf
