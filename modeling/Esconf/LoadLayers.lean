import Esconf.PropertyElements
import Esconf.SystemFiles
import Esconf.Backend

/-! The layers of a channel where nothing is locked: for every path the last
element of the most important file that mentions it counts. -/

namespace Esconf

open NamedTree

variable (host : Host)

structure ChannelDocument where
  attributes : Attributes
  properties : List PropertyElement

namespace ChannelDocument

def events (document : ChannelDocument) : List MarkupEvent :=
  .startElement "channel".toList document.attributes ::
    (PropertyElement.eventsAll document.properties ++ [.endElement "channel".toList])

def mentions (document : ChannelDocument) : List Mention :=
  PropertyElement.mentionsAll [] document.properties

def gives (document : ChannelDocument) (path : List CString) : Option GValue :=
  Assignments.last (assigned host document.mentions) path

/-- A document on the disk that is accepted and neither locks nor unlocks anything. -/
structure Layer (disk : Disk) (system : Bool) (filename : CString) (document : ChannelDocument) :
    Prop where
  stored : ∃ contents, disk filename = some contents ∧
    host.markupParse contents = (document.events, none)
  accepted : ∃ last, parseEvents host (startState .root system) document.events = .ok last
  open' : lockedState host document.attributes = none
  regular : ∀ mention ∈ document.mentions, mention.Regular host

end ChannelDocument

open ChannelDocument

variable {host}

structure Unlocked (channel : EsconfChannel) : Prop where
  whole : channel.locked = false
  each : ∀ path, (channel.properties.slot path).locked = false

theorem unlocked_root : Unlocked .root := by
  constructor
  · rfl
  · intro path
    change (PropTree.root.slot path).locked = false
    rw [SystemReading.root_slot]
    rfl

theorem inside_channel {channel : EsconfChannel} (unlocked : Unlocked channel) (system : Bool) :
    Inside system [] { startState channel system with curElem := .channel } :=
  ⟨rfl, unlocked.whole, rfl, rfl, fun _ member => absurd member List.not_mem_nil,
    unlocked.each⟩

theorem startElem_open {document : ChannelDocument} (channel : EsconfChannel) (system : Bool)
    (open' : lockedState host document.attributes = none) {after : XmlParserState}
    (done : startElem host (startState .root system) "channel".toList document.attributes =
      .ok after) :
    startElem host (startState channel system) "channel".toList document.attributes =
      .ok { startState channel system with curElem := .channel } := by
  change xmlHandleChannel host _ document.attributes = _ at done ⊢
  unfold xmlHandleChannel at done ⊢
  cases fine : channelError document.attributes with
  | some error =>
      rw [fine] at done
      cases done
  | none => rw [open']

namespace ChannelDocument.Layer

variable {disk : Disk} {system : Bool} {filename : CString} {document : ChannelDocument}

theorem opened (layer : Layer host disk system filename document) :
    ∃ after, startElem host (startState .root system) "channel".toList document.attributes =
      .ok after := by
  obtain ⟨last, accepted⟩ := layer.accepted
  rw [events, parseEvents, handleEvent] at accepted
  cases outcome : startElem host (startState .root system) "channel".toList
      document.attributes with
  | ok after => exact ⟨after, rfl⟩
  | _ =>
      rw [outcome] at accepted
      cases accepted

theorem mentions_accepted (layer : Layer host disk system filename document) :
    ∀ mention ∈ document.mentions, mention.Accepted host := by
  obtain ⟨last, accepted⟩ := layer.accepted
  obtain ⟨after, opened⟩ := layer.opened
  rw [events, parseEvents, handleEvent, startElem_open .root system layer.open' opened] at accepted
  have tells : TellsAccepted host system [] (PropertyElement.eventsAll document.properties)
      document.mentions := by
    refine tellsAccepted_elements ?_ layer.regular
    intro element member
    apply tellsAccepted_element
    intro mention there
    exact layer.regular mention (PropertyElement.mem_mentionsAll.mpr ⟨element, member, there⟩)
  exact tells _ _ last (inside_channel unlocked_root system) accepted

theorem merged (layer : Layer host disk system filename document) {channel : EsconfChannel}
    (unlocked : Unlocked channel) :
    ∃ after, mergeFile host disk filename system channel = some (true, after) ∧ Unlocked after ∧
      ∀ path, after.properties.slot path =
        ((document.gives host path).map fun value =>
          layerWrite system value (channel.properties.slot path)).getD
          (channel.properties.slot path) := by
  obtain ⟨contents, stored, parsed⟩ := layer.stored
  obtain ⟨after, opened⟩ := layer.opened
  have accepted := layer.mentions_accepted
  have carries : Carries host system [] (PropertyElement.eventsAll document.properties)
      (assigned host document.mentions) := by
    apply carries_elements
    intro element member
    apply carries_element
    intro mention there
    have mentioned : mention ∈ document.mentions :=
      PropertyElement.mem_mentionsAll.mpr ⟨element, member, there⟩
    exact ⟨accepted mention mentioned, layer.regular mention mentioned⟩
  obtain ⟨last, read, inside, slots⟩ := carries _ (inside_channel unlocked system)
  have closed : endElem last = { last with curElem := .none, curPath := [] } := by
    rw [endElem, inside.elem]
    rfl
  refine ⟨last.channel, ?_, ⟨inside.unlocked, inside.free⟩, ?_⟩
  · rw [mergeFile, stored]
    dsimp only
    rw [parsed]
    dsimp only
    rw [events, parseEvents, handleEvent, startElem_open channel system layer.open' opened]
    dsimp only
    rw [read, parseEvents, handleEvent, closed]
    rfl
  · intro path
    have last' : last.channel.properties.slot path = last.properties.slot path := rfl
    rw [last', slots, Assignments.carryOut_last (layerWrite_forgets system)]
    rfl

end ChannelDocument.Layer

theorem mergeSystemFiles_append (disk : Disk) (front back : List CString)
    (channel : EsconfChannel) :
    mergeSystemFiles host disk (front ++ back) channel =
      (mergeSystemFiles host disk front channel).bind (mergeSystemFiles host disk back) := by
  induction front generalizing channel with
  | nil => rfl
  | cons filename rest ih =>
      rw [List.cons_append, mergeSystemFiles, mergeSystemFiles, Option.bind_assoc]
      congr 1
      funext merged
      exact ih merged.2

variable (host) in
/-- What the most important file that mentions a path gives it. -/
def systemGiven (files : List ChannelDocument) (path : List CString) : GValue :=
  (files.findSome? fun file => file.gives host path).getD .invalid

variable (host) in
def userGiven (user : Option ChannelDocument) (path : List CString) : GValue :=
  (user.bind fun file => file.gives host path).getD .invalid

theorem mergeSystemFiles_layers {disk : Disk} {filenames : List CString}
    {files : List ChannelDocument}
    (layers : List.Forall₂ (Layer host disk true) filenames files) :
    ∃ channel, mergeSystemFiles host disk filenames.reverse .root = some channel ∧
      Unlocked channel ∧ ∀ path, channel.properties.slot path =
        EsconfProperty.blank.withSystemValue (systemGiven host files path) := by
  induction layers with
  | nil =>
      refine ⟨.root, rfl, unlocked_root, ?_⟩
      intro path
      exact SystemReading.root_slot path
  | @cons filename document filenames files layer _ ih =>
      obtain ⟨channel, below, unlocked, slots⟩ := ih
      obtain ⟨after, merged, unlocked', slots'⟩ := layer.merged unlocked
      refine ⟨after, ?_, unlocked', ?_⟩
      · rw [List.reverse_cons, mergeSystemFiles_append, below, Option.bind_some, mergeSystemFiles,
          merged]
        rfl
      · intro path
        rw [slots', slots]
        cases given : document.gives host path with
        | none => rw [systemGiven, systemGiven, List.findSome?_cons, given]; rfl
        | some value => rw [systemGiven, systemGiven, List.findSome?_cons, given]; rfl

/-- The system value of a path is the one the last element for it gives in the
most important system file that has any, its user value the one the last element
for it gives in the user file. -/
theorem load_layers (host : Host) (disk : Disk) (channelName : CString)
    (files : List ChannelDocument) (user : Option ChannelDocument)
    (found : host.resourceLookupAll disk (configFileStem channelName) ≠ [] ∨
      (host.resourceSaveLocation (configFileStem channelName)).isSome)
    (system : List.Forall₂ (Layer host disk true)
      ((host.resourceLookupAll disk (configFileStem channelName)).filter fun filename =>
        host.resourceSaveLocation (configFileStem channelName) != some filename) files)
    (userFile : match user with
      | some document => ∃ filename,
          host.resourceSaveLocation (configFileStem channelName) = some filename ∧
          Layer host disk false filename document
      | none => ∀ filename,
          host.resourceSaveLocation (configFileStem channelName) = some filename →
          disk filename = none) :
    ∃ channel, loadChannel host disk channelName = some (.ok channel) ∧
      (∀ path, (channel.properties.slot path).systemValue = systemGiven host files path ∧
        (channel.properties.slot path).value = userGiven host user path) ∧
      ∀ property, propNameIsValid property = true →
        effectiveAt channel property =
          if (userGiven host user (nameParts property)).isSet then
            userGiven host user (nameParts property)
          else systemGiven host files (nameParts property) := by
  obtain ⟨below, merged, unlocked, slots⟩ := mergeSystemFiles_layers system
  have both : ∃ channel, loadChannel host disk channelName = some (.ok channel) ∧
      ∀ path, (channel.properties.slot path).systemValue = systemGiven host files path ∧
        (channel.properties.slot path).value = userGiven host user path := by
    have some' : ¬((host.resourceLookupAll disk (configFileStem channelName)).isEmpty &&
        (host.resourceSaveLocation (configFileStem channelName)).isNone) = true := by
      intro neither
      rw [Bool.and_eq_true, List.isEmpty_iff, Option.isNone_iff_eq_none] at neither
      rcases found with some' | some'
      · exact some' neither.1
      · rw [neither.2] at some'
        cases some'
    -- The user file, if there is one, is read over what the system files give.
    unfold loadChannel
    dsimp only
    rw [if_neg some', List.filter_reverse, merged, Option.bind_some]
    cases user with
    | none =>
        cases saved : host.resourceSaveLocation (configFileStem channelName) with
        | none =>
            refine ⟨below, rfl, ?_⟩
            intro path
            rw [slots path]
            exact ⟨rfl, rfl⟩
        | some filename =>
            have missing := userFile filename saved
            refine ⟨below, ?_, ?_⟩
            · dsimp only
              rw [if_neg (Bool.eq_false_iff.mp unlocked.whole), mergeFile, missing]
              rfl
            · intro path
              rw [slots path]
              exact ⟨rfl, rfl⟩
    | some document =>
        obtain ⟨filename, saved, layer⟩ := userFile
        obtain ⟨channel, merged', unlocked', slots'⟩ := layer.merged unlocked
        rw [saved]
        refine ⟨channel, ?_, ?_⟩
        · dsimp only
          rw [if_neg (Bool.eq_false_iff.mp unlocked.whole), merged']
          rfl
        · intro path
          rw [slots', slots, userGiven, Option.bind_some]
          cases document.gives host path with
          | none => exact ⟨rfl, rfl⟩
          | some value => exact ⟨rfl, rfl⟩
  obtain ⟨channel, loaded, values⟩ := both
  refine ⟨channel, loaded, values, ?_⟩
  intro property valid
  rw [effectiveAt_slot valid, EsconfProperty.effective, (values _).1, (values _).2]

section Layered

def attributesOf (name type : String) (value : Option String) : Attributes :=
  ("name".toList, name.toList) :: ("type".toList, type.toList) ::
    value.toList.map fun text => ("value".toList, text.toList)

def channelAttributesOf (name : String) : Attributes :=
  [("name".toList, name.toList), ("version".toList, "1.0".toList)]

def channelText (properties : List String) : CString :=
  "<channel name='c' version='1.0'>".toList ++ properties.flatMap String.toList ++
    "</channel>".toList

def upperFile : ChannelDocument where
  attributes := channelAttributesOf "c"
  properties := [
    .property (attributesOf "a" "empty" none) [] [],
    .property (attributesOf "b" "array" none)
      [[("type".toList, "int".toList), ("value".toList, "1".toList)]]
      [.property (attributesOf "x" "bool" (some "true")) [] []]]

def upperText : CString :=
  channelText ["<property name='a' type='empty'/>", "<property name='b' type='array'>",
    "<value type='int' value='1'/>", "<property name='x' type='bool' value='true'/>",
    "</property>"]

def lowerFile : ChannelDocument where
  attributes := channelAttributesOf "c"
  properties := [
    .property (attributesOf "a" "int" (some "5")) [] [],
    .property (attributesOf "b" "int" (some "6")) [] [],
    .property (attributesOf "d" "int" (some "7")) [] []]

def lowerText : CString :=
  channelText ["<property name='a' type='int' value='5'/>",
    "<property name='b' type='int' value='6'/>", "<property name='d' type='int' value='7'/>"]

def ownFile : ChannelDocument where
  attributes := channelAttributesOf "c"
  properties := [
    .property (attributesOf "d" "int" (some "8")) [] [],
    .property (attributesOf "d" "int" (some "9")) [] []]

def ownText : CString :=
  channelText ["<property name='d' type='int' value='8'/>",
    "<property name='d' type='int' value='9'/>"]

def layeredHost : Host :=
  { Host.bare [(upperText, upperFile.events), (lowerText, lowerFile.events),
      (ownText, ownFile.events)] with
    resourcePlaces := fun _ => ["/home/c.xml".toList, "/etc/c.xml".toList, "/usr/c.xml".toList]
    resourceSaveLocation := fun _ => some "/home/c.xml".toList }

def layeredDisk : Disk := fun filename =>
  if filename = "/home/c.xml".toList then some ownText
  else if filename = "/etc/c.xml".toList then some upperText
  else if filename = "/usr/c.xml".toList then some lowerText
  else none

set_option maxRecDepth 8000 in
theorem layered_upper : Layer layeredHost layeredDisk true "/etc/c.xml".toList upperFile :=
  ⟨⟨upperText, rfl, rfl⟩, ⟨_, rfl⟩, rfl, by decide⟩

set_option maxRecDepth 8000 in
theorem layered_lower : Layer layeredHost layeredDisk true "/usr/c.xml".toList lowerFile :=
  ⟨⟨lowerText, rfl, rfl⟩, ⟨_, rfl⟩, rfl, by decide⟩

set_option maxRecDepth 8000 in
theorem layered_own : Layer layeredHost layeredDisk false "/home/c.xml".toList ownFile :=
  ⟨⟨ownText, rfl, rfl⟩, ⟨_, rfl⟩, rfl, by decide⟩

set_option maxRecDepth 8000 in
theorem load_layers_three : ∃ channel,
    loadChannel layeredHost layeredDisk "c".toList = some (.ok channel) ∧
      effectiveAt channel "/a".toList = .invalid ∧
      effectiveAt channel "/b".toList = .ptrArray [.int 1] ∧
      effectiveAt channel "/b/x".toList = .boolean true ∧
      effectiveAt channel "/d".toList = .int 9 := by
  have system : List.Forall₂ (Layer layeredHost layeredDisk true)
      ["/etc/c.xml".toList, "/usr/c.xml".toList] [upperFile, lowerFile] :=
    .cons layered_upper (.cons layered_lower .nil)
  obtain ⟨channel, loaded, _, effective⟩ := load_layers layeredHost layeredDisk "c".toList
    [upperFile, lowerFile] (some ownFile) (Or.inr rfl) system ⟨_, rfl, layered_own⟩
  refine ⟨channel, loaded, ?_, ?_, ?_, ?_⟩
  · rw [effective _ (by decide)]
    decide
  · rw [effective _ (by decide)]
    decide
  · rw [effective _ (by decide)]
    decide
  · rw [effective _ (by decide)]
    decide

end Layered

end Esconf
