import Esconf.XmlParser
import Mathlib.Data.List.AList

/-! The per-channel XML backend: its table of channels, and the operations
`esconf_backend_perchannel_xml_*` behind the checks of `esconf_backend_*`. -/

namespace Esconf

open NamedTree

/-- An `EsconfBackendPerchannelXml` with what its operations act on: the files,
and the calls made to the registered function so far. -/
structure EsconfBackendPerchannelXml where
  configSavePath : CString
  channels : AList fun _ : CString => EsconfChannel
  /-- Whether a save timeout is pending. -/
  saveId : Bool
  /-- Whether a function is registered for changed properties. -/
  propChangedFunc : Bool
  notices : List (CString × CString)
  disk : Disk

/-- The outcome of an operation; `none` when the daemon does not survive it. -/
abbrev Reply (α : Type) := Option (Except GError α × EsconfBackendPerchannelXml)

namespace EsconfBackendPerchannelXml

def idle (channels : AList fun _ : CString => EsconfChannel) : EsconfBackendPerchannelXml where
  configSavePath := "/home".toList
  channels := channels
  saveId := false
  propChangedFunc := true
  notices := []
  disk := fun _ => none

def store (xbpx : EsconfBackendPerchannelXml) (key : CString) (channel : EsconfChannel) :
    EsconfBackendPerchannelXml :=
  { xbpx with channels := xbpx.channels.insert key channel }

def propChanged (xbpx : EsconfBackendPerchannelXml) (channelName property : CString) :
    EsconfBackendPerchannelXml :=
  if xbpx.propChangedFunc then { xbpx with notices := xbpx.notices ++ [(channelName, property)] }
  else xbpx

/-- `esconf_backend_perchannel_xml_schedule_save` for a channel kept under a key. -/
def scheduleSave (xbpx : EsconfBackendPerchannelXml) (key : CString) (channel : EsconfChannel) :
    EsconfBackendPerchannelXml :=
  { xbpx.store key { channel with dirty := true } with saveId := true }

/-- `esconf_backend_perchannel_xml_create_channel` for a name that is no key. -/
def createChannel (xbpx : EsconfBackendPerchannelXml) (channelName : CString) :
    CString × EsconfChannel × EsconfBackendPerchannelXml :=
  (gAsciiStrdown channelName, .root, xbpx.store (gAsciiStrdown channelName) .root)

end EsconfBackendPerchannelXml

variable (host : Host)

/-- The channel an operation works on, with the key it is kept under: the entry
of its name, else the channel loaded from the files of that name, which is
entered under the name in lower case. -/
def findChannel (xbpx : EsconfBackendPerchannelXml) (channelName : CString) :
    Reply (CString × EsconfChannel) :=
  match xbpx.channels.lookup channelName with
  | some channel => some (.ok (channelName, channel), xbpx)
  | none =>
    match loadChannel host xbpx.disk channelName with
    | none => none
    | some (.error error) => some (.error error, xbpx)
    | some (.ok channel) =>
      some (.ok (gAsciiStrdown channelName, channel),
        xbpx.store (gAsciiStrdown channelName) channel)

def permissionDenied (property channelName : CString) : GError :=
  ⟨.esconf .permissionDenied, "Permission denied while modifying property \"".toList ++ property ++
    "\" on channel \"".toList ++ channelName ++ "\"".toList⟩

def propertyNotFound (property channelName : CString) : GError :=
  ⟨.esconf .propertyNotFound, "Property \"".toList ++ property ++
    "\" does not exist on channel \"".toList ++ channelName ++ "\"".toList⟩

/-- The part of `esconf_backend_perchannel_xml_set` after the channel is found. -/
def setIn (xbpx : EsconfBackendPerchannelXml) (key : CString) (channel : EsconfChannel)
    (channelName property : CString) (value : GValue) :
    Except GError Unit × EsconfBackendPerchannelXml :=
  match proptreeLookup channel.properties property with
  | some curProp =>
    if curProp.locked then (.error (permissionDenied property channelName), xbpx)
    else if GValue.isEqual curProp.effective value then (.ok (), xbpx)
    else
      let properties := update (·.withValue value) (nameParts property) channel.properties
      (.ok (), (xbpx.propChanged channelName property).scheduleSave key { channel with properties })
  | none =>
    -- A new property is added whether or not the channel is locked.
    let properties :=
      (proptreeAddProperty channel.properties property value false).getD channel.properties
    (.ok (), (xbpx.propChanged channelName property).scheduleSave key { channel with properties })

/-- `esconf_backend_perchannel_xml_set`. -/
def perchannelXmlSet (xbpx : EsconfBackendPerchannelXml) (channelName property : CString)
    (value : GValue) : Reply Unit :=
  match findChannel host xbpx channelName with
  | none => none
  | some (.ok (key, channel), xbpx) => some (setIn xbpx key channel channelName property value)
  | some (.error _, xbpx) =>
    let (key, channel, xbpx) := xbpx.createChannel channelName
    some (setIn xbpx key channel channelName property value)

def onChannel {α : Type} (xbpx : EsconfBackendPerchannelXml) (channelName : CString)
    (operation : CString → EsconfChannel → EsconfBackendPerchannelXml →
      Except GError α × EsconfBackendPerchannelXml) : Reply α :=
  match findChannel host xbpx channelName with
  | none => none
  | some (.error error, xbpx) => some (.error error, xbpx)
  | some (.ok (key, channel), xbpx) => some (operation key channel xbpx)

def effectiveAt (channel : EsconfChannel) (property : CString) : GValue :=
  match proptreeLookup channel.properties property with
  | some prop => prop.effective
  | none => .invalid

/-- `esconf_backend_perchannel_xml_get`. -/
def perchannelXmlGet (xbpx : EsconfBackendPerchannelXml) (channelName property : CString) :
    Reply GValue :=
  onChannel host xbpx channelName fun _ channel xbpx =>
    if (effectiveAt channel property).isSet then (.ok (effectiveAt channel property), xbpx)
    else (.error (propertyNotFound property channelName), xbpx)

/-- `strrchr (path, '/')` and the zero written there. -/
def cutLast (path : CString) : CString := if '/' ∈ path then uptoLastSlash path else path

mutual

/-- `esconf_proptree_node_to_hash_table`: the entries in the order they are
inserted, and what is left in the path buffer. -/
def proptreeNodeToHashTable (curPath : CString) : PropTree → List (CString × GValue) × CString
  | .node name prop children =>
    let own :=
      if prop.effective.isSet then [(curPath ++ "/".toList ++ name, prop.effective)] else []
    match children with
    | [] => (own, curPath)
    | first :: rest =>
      let path :=
        -- The root is left out of the path.
        if name.head? = some '/' then curPath
        else gStrlcat (gStrlcat curPath "/".toList maxPropPath) name maxPropPath
      let head := proptreeNodeToHashTable path first
      let below := proptreeNodesToHashTable head.2 rest
      (own ++ head.1 ++ below.1, cutLast below.2)

def proptreeNodesToHashTable (curPath : CString) :
    List PropTree → List (CString × GValue) × CString
  | [] => ([], curPath)
  | child :: rest =>
    let first := proptreeNodeToHashTable curPath child
    let later := proptreeNodesToHashTable first.2 rest
    (first.1 ++ later.1, later.2)

end

/-- `esconf_backend_perchannel_xml_get_all`. -/
def perchannelXmlGetAll (xbpx : EsconfBackendPerchannelXml) (channelName propertyBase : CString) :
    Reply (List (CString × GValue)) :=
  onChannel host xbpx channelName fun _ channel xbpx =>
    if 2 ≤ propertyBase.length then
      match proptreeLookupNode channel.properties propertyBase with
      | none => (.error (propertyNotFound propertyBase channelName), xbpx)
      | some top =>
        let path := uptoLastSlash (gStrlcpy propertyBase maxPropPath)
        (.ok (proptreeNodeToHashTable path top).1, xbpx)
    else (.ok (proptreeNodeToHashTable [] channel.properties).1, xbpx)

/-- `esconf_backend_perchannel_xml_exists`. -/
def perchannelXmlExists (xbpx : EsconfBackendPerchannelXml) (channelName property : CString) :
    Reply Bool :=
  match findChannel host xbpx channelName with
  | none => none
  | some (.error _, xbpx) => some (.ok false, xbpx)
  | some (.ok (_, channel), xbpx) => some (.ok (effectiveAt channel property).isSet, xbpx)

/-- `esconf_backend_perchannel_xml_is_property_locked`. -/
def perchannelXmlIsPropertyLocked (xbpx : EsconfBackendPerchannelXml)
    (channelName property : CString) : Reply Bool :=
  onChannel host xbpx channelName fun _ channel xbpx =>
    (.ok (channel.locked || ((proptreeLookup channel.properties property).map
      EsconfProperty.locked).getD false), xbpx)

/-- The notices of a traversal with `nodes_do_prop_reset`. -/
def propsChanged (xbpx : EsconfBackendPerchannelXml) (channelName : CString)
    (properties : List CString) : EsconfBackendPerchannelXml :=
  properties.foldl (fun xbpx property => xbpx.propChanged channelName property) xbpx

def userFileName (xbpx : EsconfBackendPerchannelXml) (channelName : CString) : CString :=
  xbpx.configSavePath ++ "/".toList ++ channelName ++ ".xml".toList

/-- `do_reset_channel` for a channel kept under a key. -/
def doResetChannel (xbpx : EsconfBackendPerchannelXml) (key : CString) (channel : EsconfChannel)
    (channelName : CString) : Except GError Unit × EsconfBackendPerchannelXml :=
  let properties := nodesDoPropReset channel.properties
  let xbpx := propsChanged xbpx channelName (resetNotices [] channel.properties)
  let xbpx := xbpx.store key { channel with properties }
  -- The entry is removed under the name of the call, which need not be its key.
  let xbpx := { xbpx with channels := xbpx.channels.erase channelName }
  let filename := userFileName xbpx channelName
  match host.unlinkError xbpx.disk filename with
  | some message =>
    (.error ⟨.esconf .writeFailure, "Unable to remove channel \"".toList ++ channelName ++
      "\": ".toList ++ message⟩, xbpx)
  | none =>
    (.ok (), { xbpx with disk := fun name => if name = filename then none else xbpx.disk name })

/-- `esconf_backend_perchannel_xml_reset`. -/
def perchannelXmlReset (xbpx : EsconfBackendPerchannelXml) (channelName property : CString)
    (recursive : Bool) : Reply Unit :=
  onChannel host xbpx channelName fun key channel xbpx =>
    if !recursive then
      match proptreeReset channel.properties property with
      | none => (.error (propertyNotFound property channelName), xbpx)
      | some properties =>
        (.ok (), (xbpx.propChanged channelName property).scheduleSave key { channel with properties })
    else if 2 ≤ property.length then
      match proptreeLookupNode channel.properties property with
      | none => (.error (propertyNotFound property channelName), xbpx)
      | some top =>
        let above := (nameParts property).dropLast.reverse ++ [channel.properties.key]
        (.ok (), (propsChanged xbpx channelName (resetNotices above top)).scheduleSave key
          { channel with properties := resetBelow channel.properties property })
    else doResetChannel host xbpx key channel channelName

def invalidProperty (message : String) : GError := ⟨.esconf .invalidProperty, message.toList⟩

def isNameChar (c : Char) : Bool :=
  ('A' ≤ c && c ≤ 'Z') || ('a' ≤ c && c ≤ 'z') || ('0' ≤ c && c ≤ '9') ||
    c ∈ ['_', '-', '{', '}', '|', ',', '[', ']', '.', ':']

def isPropertyChar (c : Char) : Bool := isNameChar c || c ∈ ['/', '<', '>']

/-- The loop of `esconf_property_is_valid` and the check after it. -/
def propertyTailError (previous : Char) : CString → Option GError
  | [] =>
    if previous = '/' then
      some (invalidProperty "Property names cannot end with a '/' character")
    else none
  | c :: rest =>
    if !isPropertyChar c then
      some (invalidProperty ("Property names can only include the ASCII characters A-Z, a-z, 0-9, " ++
        "'_', '-', ':', '.', ',', '[', ']', '\x7b', '\x7d', '<' and '>', as well as '/' as a separator"))
    else if c = '/' ∧ previous = '/' then
      some (invalidProperty
        "Property names cannot have two or more consecutive '/' characters")
    else propertyTailError c rest

/-- `esconf_property_is_valid`; `none` is TRUE. -/
def esconfPropertyIsValid (property : CString) : Option GError :=
  match property with
  | [] => some (invalidProperty "Property names must start with a '/' character")
  | first :: rest =>
    if first ≠ '/' then some (invalidProperty "Property names must start with a '/' character")
    else if rest = [] then
      some (invalidProperty "The root element ('/') is not a valid property name")
    else propertyTailError '/' rest

/-- `esconf_channel_is_valid`; `none` is TRUE. -/
def esconfChannelIsValid (channel : CString) : Option GError :=
  if channel = [] then
    some ⟨.esconf .invalidChannel, "Channel name cannot be an empty string".toList⟩
  else if channel.all isNameChar then none
  else some ⟨.esconf .invalidChannel, ("Channel names can only include the ASCII characters " ++
    "A-Z, a-z, 0-9, '\x7b', '\x7d', '|', ']', '[', ':', ',', '.', '_', and '-'").toList⟩

def internalError : GError :=
  ⟨.esconf .internalError, "An internal error occurred; this is probably a bug".toList⟩

/-- The outcome of an `esconf_backend_*` call, with the error its caller finds set. -/
abbrev Answer (α : Type) := Option (Except (Option GError) α × EsconfBackendPerchannelXml)

def answer {α : Type} (reply : Reply α) : Answer α :=
  reply.map fun result => (result.1.mapError some, result.2)

def checked {α : Type} (xbpx : EsconfBackendPerchannelXml) (errors : List (Option GError))
    (reply : Reply α) : Answer α :=
  match errors.findSome? id with
  | some error => some (.error (some error), xbpx)
  | none => answer reply

/-- `esconf_backend_return_val_if_fail`. -/
def returnIfEmpty {α : Type} (xbpx : EsconfBackendPerchannelXml) (names : List CString)
    (otherwise : Answer α) : Answer α :=
  if names.any List.isEmpty then some (.error (some internalError), xbpx) else otherwise

def esconfBackendSet (xbpx : EsconfBackendPerchannelXml) (channel property : CString)
    (value : GValue) : Answer Unit :=
  returnIfEmpty xbpx [channel, property] <|
    checked xbpx [esconfChannelIsValid channel, esconfPropertyIsValid property]
      (perchannelXmlSet host xbpx channel property value)

def esconfBackendGet (xbpx : EsconfBackendPerchannelXml) (channel property : CString) :
    Answer GValue :=
  returnIfEmpty xbpx [channel, property] <|
    checked xbpx [esconfChannelIsValid channel, esconfPropertyIsValid property]
      (perchannelXmlGet host xbpx channel property)

def baseIsValid (property : CString) : Option GError :=
  if property = [] ∨ property = "/".toList then none else esconfPropertyIsValid property

def esconfBackendGetAll (xbpx : EsconfBackendPerchannelXml) (channel propertyBase : CString) :
    Answer (List (CString × GValue)) :=
  returnIfEmpty xbpx [channel] <|
    checked xbpx [esconfChannelIsValid channel, baseIsValid propertyBase]
      (perchannelXmlGetAll host xbpx channel propertyBase)

def esconfBackendExists (xbpx : EsconfBackendPerchannelXml) (channel property : CString) :
    Answer Bool :=
  returnIfEmpty xbpx [channel, property] <|
    checked xbpx [esconfChannelIsValid channel, esconfPropertyIsValid property]
      (perchannelXmlExists host xbpx channel property)

def recursiveOnly (property : CString) (recursive : Bool) : Option GError :=
  if !recursive ∧ (property = [] ∨ property = "/".toList) then
    some (invalidProperty
      "The property name can only be empty or \"/\" if a recursive reset was specified")
  else none

def esconfBackendReset (xbpx : EsconfBackendPerchannelXml) (channel property : CString)
    (recursive : Bool) : Answer Unit :=
  returnIfEmpty xbpx [channel, property] <|
    checked xbpx
      [esconfChannelIsValid channel, recursiveOnly property recursive, baseIsValid property]
      (perchannelXmlReset host xbpx channel property recursive)

def esconfBackendIsPropertyLocked (xbpx : EsconfBackendPerchannelXml)
    (channel property : CString) : Answer Bool :=
  checked xbpx [esconfChannelIsValid channel, esconfPropertyIsValid property]
    (perchannelXmlIsPropertyLocked host xbpx channel property)

inductive Request where
  | set (channel property : CString) (value : GValue)
  | get (channel property : CString)
  | getAll (channel propertyBase : CString)
  | exists (channel property : CString)
  | reset (channel property : CString) (recursive : Bool)
  | isPropertyLocked (channel property : CString)

namespace Request

def channel : Request → CString
  | set channel _ _ => channel
  | get channel _ => channel
  | getAll channel _ => channel
  | .exists channel _ => channel
  | reset channel _ _ => channel
  | isPropertyLocked channel _ => channel

def perform (xbpx : EsconfBackendPerchannelXml) : Request → Option EsconfBackendPerchannelXml
  | set channel property value => (esconfBackendSet host xbpx channel property value).map Prod.snd
  | get channel property => (esconfBackendGet host xbpx channel property).map Prod.snd
  | getAll channel propertyBase =>
    (esconfBackendGetAll host xbpx channel propertyBase).map Prod.snd
  | .exists channel property => (esconfBackendExists host xbpx channel property).map Prod.snd
  | reset channel property recursive =>
    (esconfBackendReset host xbpx channel property recursive).map Prod.snd
  | isPropertyLocked channel property =>
    (esconfBackendIsPropertyLocked host xbpx channel property).map Prod.snd

end Request

def run (xbpx : EsconfBackendPerchannelXml) (requests : List Request) :
    Option EsconfBackendPerchannelXml :=
  requests.foldlM (Request.perform host) xbpx

theorem propertyTailError_clean {previous : Char} {rest : CString}
    (accepted : propertyTailError previous rest = none) :
    hasDoubleSlash (previous :: rest) = false := by
  induction rest generalizing previous with
  | nil => simp [hasDoubleSlash]
  | cons c rest ih =>
      rw [propertyTailError] at accepted
      split at accepted
      · cases accepted
      split at accepted
      · cases accepted
      · next apart =>
          have later := ih accepted
          rw [hasDoubleSlash, later, Bool.or_false]
          simp only [List.head?_cons, Bool.and_eq_false_iff, beq_eq_false_iff_ne, ne_eq,
            Option.some.injEq]
          rcases not_and_or.mp apart with other | other
          · exact Or.inr other
          · exact Or.inl other

theorem accepted_shape {property : CString} (accepted : esconfPropertyIsValid property = none) :
    ∃ rest, property = '/' :: rest ∧ rest ≠ [] ∧ propertyTailError '/' rest = none := by
  unfold esconfPropertyIsValid at accepted
  split at accepted
  · cases accepted
  · next first rest =>
      split at accepted
      · cases accepted
      · next slash =>
          split at accepted
          · cases accepted
          · next full => exact ⟨rest, by rw [not_not.mp slash], full, accepted⟩

theorem propNameIsValid_of_property {property : CString}
    (accepted : esconfPropertyIsValid property = none) : propNameIsValid property = true := by
  obtain ⟨rest, rfl, full, clean⟩ := accepted_shape accepted
  cases rest with
  | nil => exact absurd rfl full
  | cons c rest => exact propNameIsValid_iff.mpr ⟨c, rest, rfl, propertyTailError_clean clean⟩

theorem checked_cases {α : Type} {xbpx : EsconfBackendPerchannelXml}
    {errors : List (Option GError)} {reply : Reply α}
    {result : Except (Option GError) α × EsconfBackendPerchannelXml}
    (done : checked xbpx errors reply = some result) :
    (∃ error, result = (.error (some error), xbpx)) ∨
      (errors.findSome? id = none ∧
        ∃ inner, reply = some inner ∧ result = (inner.1.mapError some, inner.2)) := by
  unfold checked at done
  split at done
  · next error _ => cases done; exact Or.inl ⟨error, rfl⟩
  · next clear =>
      obtain ⟨inner, here, same⟩ := Option.map_eq_some_iff.mp done
      exact Or.inr ⟨clear, inner, here, same.symm⟩

theorem returnIfEmpty_cases {α : Type} {xbpx : EsconfBackendPerchannelXml} {names : List CString}
    {otherwise : Answer α} {result : Except (Option GError) α × EsconfBackendPerchannelXml}
    (done : returnIfEmpty xbpx names otherwise = some result) :
    result = (.error (some internalError), xbpx) ∨ otherwise = some result := by
  unfold returnIfEmpty at done
  split at done
  · cases done; exact Or.inl rfl
  · exact Or.inr done

/-- A guarded operation is refused, or does what the operation does. -/
theorem guarded_cases {α : Type} {xbpx : EsconfBackendPerchannelXml} {names : List CString}
    {errors : List (Option GError)} {reply : Reply α}
    {result : Except (Option GError) α × EsconfBackendPerchannelXml}
    (done : returnIfEmpty xbpx names (checked xbpx errors reply) = some result) :
    (∃ error, result = (.error error, xbpx)) ∨
      (errors.findSome? id = none ∧
        ∃ inner, reply = some inner ∧ result = (inner.1.mapError some, inner.2)) := by
  rcases returnIfEmpty_cases done with refused | done
  · exact Or.inl ⟨some internalError, refused⟩
  · rcases checked_cases done with ⟨error, refused⟩ | performed
    · exact Or.inl ⟨some error, refused⟩
    · exact Or.inr performed

def Request.Reaches (xbpx : EsconfBackendPerchannelXml) (request : Request)
    (after : EsconfBackendPerchannelXml) : Prop :=
  match request with
  | set channel property value =>
      ∃ result, perchannelXmlSet host xbpx channel property value = some (result, after)
  | get channel property => ∃ result, perchannelXmlGet host xbpx channel property = some (result, after)
  | getAll channel propertyBase =>
      ∃ result, perchannelXmlGetAll host xbpx channel propertyBase = some (result, after)
  | .exists channel property =>
      ∃ result, perchannelXmlExists host xbpx channel property = some (result, after)
  | reset channel property recursive =>
      ∃ result, perchannelXmlReset host xbpx channel property recursive = some (result, after)
  | isPropertyLocked channel property =>
      ∃ result, perchannelXmlIsPropertyLocked host xbpx channel property = some (result, after)

theorem perform_cases {xbpx after : EsconfBackendPerchannelXml} {request : Request}
    (done : request.perform host xbpx = some after) :
    after = xbpx ∨ request.Reaches host xbpx after := by
  have guarded : ∀ {α : Type} {names : List CString} {errors : List (Option GError)}
      {reply : Reply α},
      (returnIfEmpty xbpx names (checked xbpx errors reply)).map Prod.snd = some after →
        after = xbpx ∨ ∃ result, reply = some (result, after) := by
    intro α names errors reply done
    obtain ⟨result, answered, rfl⟩ := Option.map_eq_some_iff.mp done
    rcases guarded_cases answered with ⟨error, rfl⟩ | ⟨_, inner, performed, rfl⟩
    · exact Or.inl rfl
    · exact Or.inr ⟨inner.1, performed⟩
  cases request with
  | set channel property value => exact guarded done
  | get channel property => exact guarded done
  | getAll channel propertyBase => exact guarded done
  | «exists» channel property => exact guarded done
  | reset channel property recursive => exact guarded done
  | isPropertyLocked channel property =>
      obtain ⟨result, answered, rfl⟩ := Option.map_eq_some_iff.mp done
      rcases checked_cases answered with ⟨error, rfl⟩ | ⟨_, inner, performed, rfl⟩
      · exact Or.inl rfl
      · exact Or.inr ⟨inner.1, performed⟩

theorem guarded_valid {α : Type} (xbpx : EsconfBackendPerchannelXml) {channel property : CString}
    (channelValid : esconfChannelIsValid channel = none)
    (propertyValid : esconfPropertyIsValid property = none) (reply : Reply α) :
    returnIfEmpty xbpx [channel, property]
      (checked xbpx [esconfChannelIsValid channel, esconfPropertyIsValid property] reply) =
      answer reply := by
  have full : channel ≠ [] := by
    rintro rfl
    cases channelValid
  have full' : property ≠ [] := by
    rintro rfl
    cases propertyValid
  rw [returnIfEmpty, if_neg (by simp [full, full']), checked, channelValid, propertyValid]
  rfl

namespace EsconfBackendPerchannelXml

variable (xbpx : EsconfBackendPerchannelXml)

@[simp] theorem propChanged_channels (channelName property : CString) :
    (xbpx.propChanged channelName property).channels = xbpx.channels := by
  unfold propChanged
  split <;> rfl

@[simp] theorem propChanged_disk (channelName property : CString) :
    (xbpx.propChanged channelName property).disk = xbpx.disk := by
  unfold propChanged
  split <;> rfl

@[simp] theorem store_channels (key : CString) (channel : EsconfChannel) :
    (xbpx.store key channel).channels = xbpx.channels.insert key channel := rfl

@[simp] theorem store_disk (key : CString) (channel : EsconfChannel) :
    (xbpx.store key channel).disk = xbpx.disk := rfl

@[simp] theorem scheduleSave_channels (key : CString) (channel : EsconfChannel) :
    (xbpx.scheduleSave key channel).channels =
      xbpx.channels.insert key { channel with dirty := true } := rfl

@[simp] theorem scheduleSave_disk (key : CString) (channel : EsconfChannel) :
    (xbpx.scheduleSave key channel).disk = xbpx.disk := rfl

end EsconfBackendPerchannelXml

@[simp] theorem propsChanged_channels (xbpx : EsconfBackendPerchannelXml) (channelName : CString)
    (properties : List CString) :
    (propsChanged xbpx channelName properties).channels = xbpx.channels := by
  induction properties generalizing xbpx with
  | nil => rfl
  | cons property rest ih => exact (ih _).trans (by simp)

@[simp] theorem propsChanged_disk (xbpx : EsconfBackendPerchannelXml) (channelName : CString)
    (properties : List CString) :
    (propsChanged xbpx channelName properties).disk = xbpx.disk := by
  induction properties generalizing xbpx with
  | nil => rfl
  | cons property rest ih => exact (ih _).trans (by simp)

theorem findChannel_loaded {xbpx : EsconfBackendPerchannelXml} {channelName : CString}
    {channel : EsconfChannel} (loaded : xbpx.channels.lookup channelName = some channel) :
    findChannel host xbpx channelName = some (.ok (channelName, channel), xbpx) := by
  rw [findChannel, loaded]

/-- A channel asked for the first time is read from its files and kept from then on. -/
theorem findChannel_missing {xbpx : EsconfBackendPerchannelXml} {channelName : CString}
    {channel : EsconfChannel} (missing : xbpx.channels.lookup channelName = none)
    (loads : loadChannel host xbpx.disk channelName = some (.ok channel)) :
    findChannel host xbpx channelName = some (.ok (gAsciiStrdown channelName, channel),
      xbpx.store (gAsciiStrdown channelName) channel) := by
  rw [findChannel, missing]
  dsimp only
  rw [loads]

theorem onChannel_loaded {α : Type} {xbpx : EsconfBackendPerchannelXml} {channelName : CString}
    {channel : EsconfChannel} (loaded : xbpx.channels.lookup channelName = some channel)
    (operation : CString → EsconfChannel → EsconfBackendPerchannelXml →
      Except GError α × EsconfBackendPerchannelXml) :
    onChannel host xbpx channelName operation = some (operation channelName channel xbpx) := by
  rw [onChannel, findChannel_loaded host loaded]

theorem effectiveAt_slot {channel : EsconfChannel} {property : CString}
    (valid : propNameIsValid property = true) :
    effectiveAt channel property = (channel.properties.slot (nameParts property)).effective := by
  unfold effectiveAt
  cases looked : proptreeLookup channel.properties property with
  | some prop => rw [proptreeLookup_slot looked]
  | none => rw [proptreeLookup_none_slot valid looked]; rfl

end Esconf
