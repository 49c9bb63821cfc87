import Esconf.PropTree
import Esconf.GValueFuncs

/-! The element handlers that read a per-channel XML file into a property tree:
`esconf_xml_handle_*` and the GMarkup callbacks of
`esconfd/esconf-backend-perchannel-xml.c`. -/

namespace Esconf

open NamedTree

structure EsconfChannel where
  properties : PropTree
  locked : Bool
  dirty : Bool

/-- The channel that loading starts from and that is created for a new name. -/
def EsconfChannel.root : EsconfChannel := ⟨.root, false, false⟩

inductive XmlParserElem where
  | none | channel | property | value
  deriving DecidableEq, Repr

/-- `listValue` is the pointer to the value slot that value elements are added
to, given by the name of the property it lies in; `isSystemFile`, which never
changes while a file is read, tells which of the two slots it is. -/
structure XmlParserState where
  channel : EsconfChannel
  isSystemFile : Bool
  curElem : XmlParserElem
  curPath : CString
  listProperty : Option CString
  listValue : Option CString

/-- How a handler ends: TRUE, FALSE with an error, or not at all, because it hits
an assertion or dereferences NULL. The state is the one it leaves behind. -/
inductive Handled where
  | ok (state : XmlParserState)
  | error (error : GError) (state : XmlParserState)
  | fault (state : XmlParserState)

def Handled.state : Handled → XmlParserState
  | ok state => state
  | error _ state => state
  | fault state => state

abbrev Attributes := List (CString × CString)

/-- The variable an attribute loop leaves a value in: the last one wins. -/
def attributeValue (attributes : Attributes) (name : CString) : Option CString :=
  (attributes.reverse.find? fun pair => pair.1 == name).map Prod.snd

/-- `value && *value`. -/
def filled (value : Option CString) : Option CString := value.filter fun text => !text.isEmpty

/-- The first attribute none of the branches of a loop takes. -/
def unknownAttribute (attributes : Attributes) (known : List CString) : Option CString :=
  (attributes.find? fun pair => !known.contains pair.1).map Prod.fst

/-- `esconf_user_is_in_group`. -/
def userIsInGroup (host : Host) (group : CString) : Bool :=
  match host.groupMembers group with
  | none => false
  | some members => members.contains host.userName

/-- `esconf_user_is_in_list`. -/
def userIsInList (host : Host) (list : CString) : Bool :=
  (gStrsplit list ';').any fun token =>
    match token with
    | [] => false
    | '@' :: group => userIsInGroup host group
    | _ => token == host.userName

def markupError (code : MarkupError) (message : CString) : GError := ⟨.markup code, message⟩

/-- Whether the lock attributes of an element lock it for this user, when there
is one that is not empty: "unlocked" goes before "locked". -/
def lockedState (host : Host) (attributes : Attributes) : Option Bool :=
  match filled (attributeValue attributes "unlocked".toList) with
  | some unlocked => some (!userIsInList host unlocked)
  | none => (filled (attributeValue attributes "locked".toList)).map (userIsInList host)

def channelAttributes : List CString :=
  ["name".toList, "version".toList, "locked".toList, "unlocked".toList]

/-- The checks of `esconf_xml_handle_channel` before it looks at locks. -/
def channelError (attributes : Attributes) : Option GError :=
  match unknownAttribute attributes channelAttributes with
  | some unknown =>
    some (markupError .unknownAttribute ("Unknown attribute in <channel>: ".toList ++ unknown))
  | none =>
    match filled (attributeValue attributes "name".toList),
        filled (attributeValue attributes "version".toList) with
    | some _, some version =>
      if version.takeWhile (· != '.') = "1".toList then none
      else some (markupError .invalidContent ("On-disk file version ".toList ++ version ++
        " is not compatible with our file version 1.0".toList))
    | _, _ =>
      some (markupError .empty
        "Element <channel> requires both name and version attributes".toList)

/-- `esconf_xml_handle_channel`. -/
def xmlHandleChannel (host : Host) (state : XmlParserState) (attributes : Attributes) : Handled :=
  match channelError attributes with
  | some error => .error error state
  | none =>
    match lockedState host attributes with
    | none => .ok { state with curElem := .channel }
    | some lockedState =>
      if !state.isSystemFile then
        .error (markupError .unknownAttribute
          "Attribute \"locked\" not allowed in <channel> for non-system files".toList) state
      else if state.channel.locked && !lockedState then
        .error (markupError .empty "File is not locked, but a previous file is".toList) state
      else if !state.channel.locked && lockedState then
        -- The first file that locks the channel discards what those before it gave.
        .ok { state with
          channel := { state.channel with properties := .root, locked := true }
          curElem := .channel }
      else .ok { state with curElem := .channel }

namespace XmlParserState

def properties (state : XmlParserState) : PropTree := state.channel.properties

def withProperties (state : XmlParserState) (properties : PropTree) : XmlParserState :=
  { state with channel := { state.channel with properties := properties } }

def updateProperty (state : XmlParserState) (name : CString)
    (f : EsconfProperty → EsconfProperty) : XmlParserState :=
  state.withProperties (update f (nameParts name) state.properties)

/-- `*value_to_set`: the system value in a system file, else the user value. -/
def updateSlot (state : XmlParserState) (name : CString) (f : GValue → GValue) : XmlParserState :=
  state.updateProperty name fun prop =>
    if state.isSystemFile then prop.withSystemValue (f prop.systemValue)
    else prop.withValue (f prop.value)

end XmlParserState

def propertyAttributes : List CString :=
  ["name".toList, "type".toList, "value".toList, "locked".toList, "unlocked".toList]

def unparsable (type : GType) (value : Option CString) : GError :=
  markupError .invalidContent ("Unable to parse value of type \"".toList ++ gTypeName type ++
    "\" from \"".toList ++ value.getD "(null)".toList ++ "\"".toList)

/-- The last part of `esconf_xml_handle_property`: the type and the value. -/
def xmlPropertyValue (host : Host) (state : XmlParserState) (fullpath type : CString)
    (value : Option CString) : Handled :=
  let entered := { state with curPath := gStrlcpy fullpath maxPropPath, curElem := .property }
  match gtypeFromString type with
  | .invalid => .error (markupError .invalidContent
      ("Invalid type for <property>: \"".toList ++ type ++ "\"".toList)) state
  | .none => .ok entered
  | valueType =>
    -- The value is initialised before the text is parsed, and stays so if that is refused.
    let init := state.updateSlot fullpath fun _ => GValue.zero valueType
    match gvalueFromString host valueType value with
    | .fault => .fault init
    | .refused => .error (unparsable valueType value) init
    | .parsed parsed =>
      let set := entered.updateSlot fullpath fun _ => parsed
      if valueType = .ptrArray then
        .ok { set with listProperty := some fullpath, listValue := some fullpath }
      else .ok set

/-- The middle part of `esconf_xml_handle_property`: the lock attributes. -/
def xmlPropertyLocks (host : Host) (state : XmlParserState) (fullpath type : CString)
    (attributes : Attributes) : Handled :=
  let value := attributeValue attributes "value".toList
  match lockedState host attributes with
  | none => xmlPropertyValue host state fullpath type value
  | some lockedState =>
    if !state.isSystemFile then
      -- The property is reset before the error is returned.
      .error (markupError .unknownAttribute
          "Attribute \"locked\" not allowed in <property> for non-system files".toList)
        (state.withProperties ((proptreeReset state.properties fullpath).getD state.properties))
    else
      let locked := state.channel.locked || lockedState
      xmlPropertyValue host (state.updateProperty fullpath (·.withLocked locked)) fullpath type value

/-- What a property element erases before it writes: the user value, and the
system value in a locked channel or a system file. -/
def clearProperty (system : Bool) (prop : EsconfProperty) : EsconfProperty :=
  if system then (prop.withValue .invalid).withSystemValue .invalid else prop.withValue .invalid

/-- The path of a property element, cut to the size of its buffer. -/
def elementPath (curPath name : CString) : CString :=
  gStrlcat (gStrlcat (gStrlcpy curPath maxPropPath) "/".toList maxPropPath) name maxPropPath

/-- `esconf_xml_handle_property` once the attributes are read. -/
def xmlPropertyAt (host : Host) (state : XmlParserState) (fullpath type : CString)
    (attributes : Attributes) : Handled :=
  if state.channel.locked && !state.isSystemFile then .fault state
  else match proptreeLookup state.properties fullpath with
    | some prop =>
      if !state.channel.locked && prop.locked && !state.isSystemFile then
        -- The early return does not touch the array that is open around a locked property.
        .ok { state with curElem := .property, curPath := gStrlcpy fullpath maxPropPath }
      else
        let system := state.channel.locked || state.isSystemFile
        xmlPropertyLocks host (state.updateProperty fullpath (clearProperty system)) fullpath type
          attributes
    | none =>
      match proptreeAddProperty state.properties fullpath .invalid state.channel.locked with
      | none => .fault state
      | some grown => xmlPropertyLocks host (state.withProperties grown) fullpath type attributes

/-- `esconf_xml_handle_property`. -/
def xmlHandleProperty (host : Host) (state : XmlParserState) (attributes : Attributes) : Handled :=
  match unknownAttribute attributes propertyAttributes with
  | some unknown => .error (markupError .unknownAttribute
      ("Unknown attribute in <property>: ".toList ++ unknown)) state
  | none =>
    match filled (attributeValue attributes "name".toList),
        filled (attributeValue attributes "type".toList) with
    | some name, some type =>
      xmlPropertyAt host state (elementPath state.curPath name) type attributes
    | _, _ => .error (markupError .empty
        "Element <property> requires both name and type attributes".toList) state

/-- `g_ptr_array_add` to the array a slot holds; a slot that holds none is left alone. -/
def ptrArrayAdd (element : GValue) : GValue → GValue
  | .ptrArray elements => .ptrArray (elements ++ [element])
  | slot => slot

def valueAttributes : List CString := ["type".toList, "value".toList]

/-- `esconf_xml_handle_value`. -/
def xmlHandleValue (host : Host) (state : XmlParserState) (attributes : Attributes) : Handled :=
  match unknownAttribute attributes valueAttributes with
  | some unknown => .error (markupError .unknownAttribute
      ("Unknown attribute in <value>: ".toList ++ unknown)) state
  | none =>
    match attributeValue attributes "type".toList with
    | none => .fault state
    | some type =>
      match gtypeFromString type with
      | .ptrArray => .error (markupError .invalidContent
          "The type attribute of <value> cannot be an array".toList) state
      | .invalid => .error (markupError .invalidContent
          ("Invalid type for <value>: \"".toList ++ type ++ "\"".toList)) state
      | .none => .error (markupError .invalidContent
          ("Invalid type for <value>: \"".toList ++ type ++ "\"".toList)) state
      | valueType =>
        let value := attributeValue attributes "value".toList
        match gvalueFromString host valueType value with
        | .fault => .fault state
        | .refused => .error (unparsable valueType value) state
        | .parsed parsed =>
          match state.listValue with
          | none => .ok { state with curElem := .value }
          | some slot =>
            .ok { state.updateSlot slot (ptrArrayAdd parsed) with curElem := .value }

def notAllowed (element : CString) (parent : XmlParserElem) : GError :=
  markupError .unknownElement ("Element <".toList ++ element ++ "> not allowed inside <".toList ++
    (if parent = .channel then "channel".toList else "property".toList) ++ ">".toList)

/-- `esconf_backend_perchannel_xml_start_elem`. -/
def startElem (host : Host) (state : XmlParserState) (element : CString)
    (attributes : Attributes) : Handled :=
  match state.curElem with
  | .none =>
    if element = "channel".toList then xmlHandleChannel host state attributes
    else .error (markupError .unknownElement
      ("Element <".toList ++ element ++ "> not valid at top level".toList)) state
  | .value => .error (markupError .unknownElement
      "No other elements are allowed inside a <value> element.".toList) state
  | .channel =>
    if element = "property".toList then xmlHandleProperty host state attributes
    else .error (notAllowed element .channel) state
  | .property =>
    if element = "property".toList then xmlHandleProperty host state attributes
    else if state.listProperty.isSome && state.listValue.isSome && element == "value".toList then
      xmlHandleValue host state attributes
    else .error (notAllowed element .property) state

/-- `esconf_backend_perchannel_xml_end_elem`. -/
def endElem (state : XmlParserState) : XmlParserState :=
  match state.curElem with
  | .channel => { state with curElem := .none, curPath := [] }
  | .property =>
    -- There is one slot and no stack: the array around the property is forgotten too.
    let closed := { state with listProperty := none, listValue := none }
    if '/' ∈ state.curPath then
      let path := uptoLastSlash state.curPath
      { closed with curPath := path, curElem := if path = [] then .channel else .property }
    else { closed with curElem := .channel }
  | .value => { state with curElem := .property }
  | .none => state

def handleEvent (host : Host) (state : XmlParserState) : MarkupEvent → Handled
  | .startElement element attributes => startElem host state element attributes
  | .endElement _ => .ok (endElem state)

/-- GMarkup calls the handlers in turn and stops at the first that does not succeed. -/
def parseEvents (host : Host) : XmlParserState → List MarkupEvent → Handled
  | state, [] => .ok state
  | state, event :: events =>
    match handleEvent host state event with
    | .ok next => parseEvents host next events
    | stopped => stopped

/-- The state `esconf_backend_perchannel_xml_merge_file` starts a file in. -/
def startState (channel : EsconfChannel) (isSystemFile : Bool) : XmlParserState :=
  { channel, isSystemFile, curElem := .none, curPath := [], listProperty := none, listValue := none }

/-- What is left of a parse: whether it succeeded, and the channel; nothing if
the daemon did not survive it. -/
def parseResult (wellFormed : Bool) : Handled → Option (Bool × EsconfChannel)
  | .ok state => some (wellFormed, state.channel)
  | .error _ state => some (false, state.channel)
  | .fault _ => none

/-- `esconf_backend_perchannel_xml_merge_file`; `none` when the daemon does not
survive the file. -/
def mergeFile (host : Host) (disk : Disk) (filename : CString) (isSystemFile : Bool)
    (channel : EsconfChannel) : Option (Bool × EsconfChannel) :=
  match disk filename with
  | none => some (false, channel)
  | some contents =>
    parseResult (host.markupParse contents).2.isNone
      (parseEvents host (startState channel isSystemFile) (host.markupParse contents).1)

def mergeSystemFiles (host : Host) (disk : Disk) :
    List CString → EsconfChannel → Option EsconfChannel
  | [], channel => some channel
  | filename :: rest, channel =>
    (mergeFile host disk filename true channel).bind fun merged =>
      mergeSystemFiles host disk rest merged.2

def configFileStem (channelName : CString) : CString :=
  "expidus1/esconf/expidus-perchannel-xml/".toList ++ channelName ++ ".xml".toList

def channelNotFound (channelName : CString) : GError :=
  ⟨.esconf .channelNotFound, "Channel \"".toList ++ channelName ++ "\" does not exist".toList⟩

/-- The channel `esconf_backend_perchannel_xml_load_channel` builds. The system
files are read least important first. -/
def loadChannel (host : Host) (disk : Disk) (channelName : CString) :
    Option (Except GError EsconfChannel) :=
  let stem := configFileStem channelName
  let filenames := host.resourceLookupAll disk stem
  let userFile := host.resourceSaveLocation stem
  if filenames.isEmpty && userFile.isNone then some (.error (channelNotFound channelName))
  else
    let systemFiles := filenames.reverse.filter fun filename => userFile != some filename
    (mergeSystemFiles host disk systemFiles .root).bind fun channel =>
      match userFile with
      | some filename =>
        if channel.locked then some (.ok channel)
        else (mergeFile host disk filename false channel).map fun merged => .ok merged.2
      | none => some (.ok channel)

theorem parseEvents_append {host : Host} {state middle : XmlParserState}
    {first second : List MarkupEvent}
    (done : parseEvents host state first = .ok middle) :
    parseEvents host state (first ++ second) = parseEvents host middle second := by
  induction first generalizing state with
  | nil =>
      cases done
      rfl
  | cons event rest ih =>
      rw [parseEvents] at done
      rw [List.cons_append, parseEvents]
      cases handled : handleEvent host state event with
      | ok next =>
          rw [handled] at done
          exact ih done
      | _ =>
          rw [handled] at done
          cases done

theorem parseEvents_split {host : Host} {state last : XmlParserState}
    {first second : List MarkupEvent}
    (done : parseEvents host state (first ++ second) = .ok last) :
    ∃ middle, parseEvents host state first = .ok middle ∧
      parseEvents host middle second = .ok last := by
  induction first generalizing state with
  | nil => exact ⟨state, rfl, done⟩
  | cons event rest ih =>
      rw [List.cons_append, parseEvents] at done
      cases handled : handleEvent host state event with
      | ok next =>
          rw [handled] at done
          obtain ⟨middle, front, back⟩ := ih done
          refine ⟨middle, ?_, back⟩
          rw [parseEvents, handled]
          exact front
      | _ =>
          rw [handled] at done
          cases done

theorem parseResult_some {wellFormed : Bool} {handled : Handled} {merged : Bool × EsconfChannel}
    (done : parseResult wellFormed handled = some merged) :
    (∀ state, handled ≠ .fault state) ∧ merged.2 = handled.state.channel := by
  cases handled with
  | ok state => cases done; exact ⟨nofun, rfl⟩
  | error error state => cases done; exact ⟨nofun, rfl⟩
  | fault state => cases done

theorem mergeFile_read {host : Host} {disk : Disk} {filename contents : CString}
    {isSystemFile : Bool} {channel : EsconfChannel} {merged : Bool × EsconfChannel}
    (here : disk filename = some contents)
    (done : mergeFile host disk filename isSystemFile channel = some merged) :
    (∀ state, parseEvents host (startState channel isSystemFile) (host.markupParse contents).1 ≠
        .fault state) ∧
      merged.2 = (parseEvents host (startState channel isSystemFile)
        (host.markupParse contents).1).state.channel := by
  rw [mergeFile, here] at done
  exact parseResult_some done

theorem elementPath_length (curPath name : CString) :
    (elementPath curPath name).length < maxPropPath := by
  unfold elementPath gStrlcat
  have cut := List.length_take_le (maxPropPath - 1)
    (gStrlcat (gStrlcpy curPath maxPropPath) "/".toList maxPropPath ++ name)
  have room : maxPropPath - 1 < maxPropPath := by decide
  exact Nat.lt_of_le_of_lt cut room

def enterProperty (fullpath : CString) (state : XmlParserState) : XmlParserState :=
  { state with curPath := gStrlcpy fullpath maxPropPath, curElem := .property }

theorem xmlPropertyValue_cases (host : Host) (fullpath type : CString) (value : Option CString) :
    (∃ error, ∀ state, xmlPropertyValue host state fullpath type value = .error error state) ∨
      (∀ state, xmlPropertyValue host state fullpath type value =
        .ok (enterProperty fullpath state)) ∨
      (∃ zero, ∀ state, xmlPropertyValue host state fullpath type value =
        .fault (state.updateSlot fullpath fun _ => zero)) ∨
      (∃ zero error, ∀ state, xmlPropertyValue host state fullpath type value =
        .error error (state.updateSlot fullpath fun _ => zero)) ∨
      (∃ parsed, ∀ state, xmlPropertyValue host state fullpath type value =
        .ok ((enterProperty fullpath state).updateSlot fullpath fun _ => parsed)) ∨
      ∃ parsed, ∀ state, xmlPropertyValue host state fullpath type value =
        .ok { (enterProperty fullpath state).updateSlot fullpath (fun _ => parsed) with
          listProperty := some fullpath, listValue := some fullpath } := by
  unfold xmlPropertyValue
  cases gtypeFromString type with
  | invalid => exact .inl ⟨_, fun _ => rfl⟩
  | none => exact .inr (.inl fun _ => rfl)
  | ptrArray => exact .inr (.inr (.inr (.inr (.inr ⟨_, fun _ => rfl⟩))))
  | _ =>
      dsimp only
      cases gvalueFromString host _ value with
      | fault => exact .inr (.inr (.inl ⟨_, fun _ => rfl⟩))
      | refused => exact .inr (.inr (.inr (.inl ⟨_, _, fun _ => rfl⟩)))
      | parsed parsed => exact .inr (.inr (.inr (.inr (.inl ⟨parsed, fun _ => rfl⟩))))

def addElement (parsed : GValue) (state : XmlParserState) : XmlParserState :=
  match state.listValue with
  | none => { state with curElem := .value }
  | some slot => { state.updateSlot slot (ptrArrayAdd parsed) with curElem := .value }

theorem xmlHandleValue_cases (host : Host) (attributes : Attributes) :
    (∃ error, ∀ state, xmlHandleValue host state attributes = .error error state) ∨
      (∀ state, xmlHandleValue host state attributes = .fault state) ∨
      ∃ parsed, ∀ state, xmlHandleValue host state attributes = .ok (addElement parsed state) := by
  unfold xmlHandleValue
  cases unknownAttribute attributes valueAttributes with
  | some unknown => exact .inl ⟨_, fun _ => rfl⟩
  | none =>
      cases attributeValue attributes "type".toList with
      | none => exact .inr (.inl fun _ => rfl)
      | some type =>
          dsimp only
          cases gtypeFromString type with
          | ptrArray | invalid | none => exact .inl ⟨_, fun _ => rfl⟩
          | _ =>
              dsimp only
              cases gvalueFromString host _ (attributeValue attributes "value".toList) with
              | fault => exact .inr (.inl fun _ => rfl)
              | refused => exact .inl ⟨_, fun _ => rfl⟩
              | parsed parsed =>
                  refine .inr (.inr ⟨parsed, ?_⟩)
                  intro state
                  unfold addElement
                  cases state.listValue <;> rfl

/-- The start tag of a channel is refused, or read; the first system file that locks the
channel empties it. -/
theorem xmlHandleChannel_cases (host : Host) (state : XmlParserState) (attributes : Attributes) :
    (∃ error, xmlHandleChannel host state attributes = .error error state) ∨
      xmlHandleChannel host state attributes = .ok { state with curElem := .channel } ∨
      (state.isSystemFile = true ∧ xmlHandleChannel host state attributes =
        .ok { state with
          channel := { state.channel with properties := .root, locked := true }
          curElem := .channel }) := by
  unfold xmlHandleChannel
  split
  · exact .inl ⟨_, rfl⟩
  split
  · exact .inr (.inl rfl)
  split_ifs with user
  · exact .inl ⟨_, rfl⟩
  · exact .inl ⟨_, rfl⟩
  · exact .inr (.inr ⟨Bool.not_eq_false _ ▸ mt (Bool.not_eq_true' _).mpr user, rfl⟩)
  · exact .inr (.inl rfl)

theorem startElem_cases (host : Host) (state : XmlParserState) (element : CString)
    (attributes : Attributes) :
    (∃ error, startElem host state element attributes = .error error state) ∨
      (state.curElem = .none ∧ element = "channel".toList ∧
        startElem host state element attributes = xmlHandleChannel host state attributes) ∨
      ((state.curElem = .channel ∨ state.curElem = .property) ∧ element = "property".toList ∧
        startElem host state element attributes = xmlHandleProperty host state attributes) ∨
      (state.curElem = .property ∧ element = "value".toList ∧
        startElem host state element attributes = xmlHandleValue host state attributes) := by
  unfold startElem
  cases state.curElem with
  | none =>
      by_cases channel : element = "channel".toList
      · exact .inr (.inl ⟨rfl, channel, if_pos channel⟩)
      · exact .inl ⟨_, if_neg channel⟩
  | value => exact .inl ⟨_, rfl⟩
  | channel =>
      by_cases property : element = "property".toList
      · exact .inr (.inr (.inl ⟨.inl rfl, property, if_pos property⟩))
      · exact .inl ⟨_, if_neg property⟩
  | property =>
      by_cases property : element = "property".toList
      · exact .inr (.inr (.inl ⟨.inr rfl, property, if_pos property⟩))
      dsimp only
      rw [if_neg property]
      split_ifs with value
      · rw [Bool.and_eq_true, beq_iff_eq] at value
        exact .inr (.inr (.inr ⟨rfl, value.2, rfl⟩))
      · exact .inl ⟨_, rfl⟩

theorem endElem_keeps (state : XmlParserState) :
    (endElem state).channel = state.channel ∧
      (endElem state).isSystemFile = state.isSystemFile ∧
      ∀ name, (endElem state).listValue = some name → state.listValue = some name := by
  unfold endElem
  split
  · exact ⟨rfl, rfl, fun _ same => same⟩
  · have forgotten : ∀ name : CString, none = some name → state.listValue = some name := by
      intro name none
      cases none
    dsimp only
    split
    · exact ⟨rfl, rfl, forgotten⟩
    · exact ⟨rfl, rfl, forgotten⟩
  · exact ⟨rfl, rfl, fun _ same => same⟩
  · exact ⟨rfl, rfl, fun _ same => same⟩

/-- What every event keeps, a file keeps. -/
theorem parseEvents_keeps {host : Host} {Keeps : XmlParserState → Prop}
    (each : ∀ state event, Keeps state → Keeps (handleEvent host state event).state)
    {state : XmlParserState} (start : Keeps state) (events : List MarkupEvent) :
    Keeps (parseEvents host state events).state := by
  induction events generalizing state with
  | nil => exact start
  | cons event events ih =>
      have step := each state event start
      rw [parseEvents]
      split
      · next next same =>
          rw [same] at step
          exact ih step
      · exact step

end Esconf
