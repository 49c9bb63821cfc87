import Esconf.ReadPaths
import Esconf.StructValues
import Esconf.UntouchedSettings

/-! The GSettings backend, `gsettings-backend/esconf-gsettings-backend.c`: how a GVariant is
written to the channel "gsettings" and read from it. -/

namespace Esconf.Client

open NamedTree

inductive GVariantType where
  | byte | boolean | int16 | uint16 | int32 | uint32 | int64 | uint64 | double | string
  | strv | variants | variant | other (id : Nat)
  deriving DecidableEq

/-- The text format of GVariants: `g_variant_print` without annotations of types and
`g_variant_parse`; and the types of the GVariants without a case. -/
structure VariantText where
  otherType : Nat → Nat
  print : GVariant → CString
  parse : GVariantType → CString → Option GVariant

/-- `g_variant_get_type`. -/
def VariantText.typeOf (text : VariantText) : GVariant → GVariantType
  | .byte _ => .byte
  | .boolean _ => .boolean
  | .int16 _ => .int16
  | .uint16 _ => .uint16
  | .int32 _ => .int32
  | .uint32 _ => .uint32
  | .int64 _ => .int64
  | .uint64 _ => .uint64
  | .double _ => .double
  | .string _ => .string
  | .strv _ => .strv
  | .variants _ => .variants
  | .variant _ => .variant
  | .other id => .other (text.otherType id)

variable (text : VariantText) (host : Host) (daemon : Daemon) (channel : EsconfChannel)

/-- The check of `esconf_channel_set_property` for a GValue that holds a string. -/
def holdsValidString : GValue → Bool
  | .string (some string) => host.utf8Validate string
  | _ => true

/-- `esconf_channel_set_property`; `none` when the old item has been freed. -/
def esconfChannelSetProperty (property : CString) (value : GValue) : Option (Outcome Bool) :=
  if !value.isSet then some ⟨false, channel.cache, none⟩
  else if !holdsValidString host value then some ⟨false, channel.cache, none⟩
  else esconfChannelSetInternal host daemon channel property value

/-- `esconf_channel_get_property` for a GValue that has no type yet. -/
def esconfChannelGetProperty (property : CString) : Outcome (Option GValue) :=
  esconfChannelGetInternal (fun _ _ => none) daemon channel property none

def settingValue (variant : GVariant) : GValue :=
  match esconfGvariantToGvalue variant with
  | some value => value
  | none => .string (some (text.print variant))

/-- `esconf_gsettings_backend_write`, without the origin tags of the signals. -/
def esconfGsettingsBackendWrite (key : CString) (variant : GVariant) : Option (Outcome Bool) :=
  esconfChannelSetProperty host daemon channel key (settingValue text variant)

/-- `g_variant_parse` of `g_value_get_string`, which is NULL for a value that is no string. -/
def parsedSetting (expectedType : GVariantType) : GValue → Option GVariant
  | .string (some string) => text.parse expectedType string
  | _ => none

/-- The part of `esconf_gsettings_backend_read` after the property is found. -/
def settingVariant (expectedType : GVariantType) (value : GValue) : Option GVariant :=
  match esconfGvalueToGvariant host value with
  | some variant =>
    if text.typeOf variant = expectedType then some variant
    else parsedSetting text expectedType value
  | none => parsedSetting text expectedType value

/-- `esconf_gsettings_backend_read`. -/
def esconfGsettingsBackendRead (key : CString) (expectedType : GVariantType)
    (defaultValue : Bool) : Outcome (Option GVariant) :=
  if defaultValue then ⟨none, channel.cache, none⟩
  else
    let got := esconfChannelGetProperty daemon channel key
    { got with ret := got.ret.bind (settingVariant text host expectedType) }

def settingsName : CString := "gsettings".toList

def replyOnBus {S : Type} : Option (Except GError GVariant × S) → Except DBusError GVariant
  | some (.ok variant, _) => .ok variant
  | some (.error error, _) => .error ⟨none, error.message⟩
  | none => .error ⟨none, []⟩

def Daemon.serving (xbpx : EsconfBackendPerchannelXml) : Daemon :=
  { Daemon.ignorant with
    getProperty := fun channelName property => replyOnBus
      (Daemon.esconfGetProperty host (Daemon.perchannelXml host) [xbpx] channelName property) }

def restarted (xbpx : EsconfBackendPerchannelXml) : EsconfBackendPerchannelXml :=
  { xbpx with channels := ∅, saveId := false, notices := [] }

/-- The daemon has a value for a key of the channel when it saves the channel, whose other
values can be read again; the system files lock nothing, and none is saved over. -/
structure SavedSetting (key : CString) (value : GValue)
    (saving after : EsconfBackendPerchannelXml) (channel base : Esconf.EsconfChannel) : Prop where
  accepted : esconfPropertyIsValid key = none
  entry : saving.channels.lookup settingsName = some channel
  stored : (channel.properties.slot (nameParts key)).value = value
  tidy : Tidy channel.properties
  others : ∀ path, path ≠ [] → path ≠ nameParts key →
    rereads (channel.properties.slot path).value = true
  place : host.resourceSaveLocation (configFileStem settingsName) =
    some (userFileName saving settingsName)
  layers : mergeSystemFiles host saving.disk (systemFiles host saving.disk settingsName) .root =
    some base
  unlocked : Unlocked base
  apart : userFileName saving settingsName ++ ".new".toList ∉
    systemFiles host saving.disk settingsName
  markup : GMarkupNormalizes host (documentTags host settingsName channel.properties)
  flushed : ∃ schedule device left,
    flushChannel host schedule saving settingsName device = .returned none after left

/-- What the daemon has for a value of the cache. -/
def onDaemon (item : GValue) : Option GValue :=
  (esconfGvalueToGvariant host item).bind fun val => esconfGvariantToGvalue (.variant val)

/-- A GVariant that was written, given what was found for its key then, is read back at once,
and by a new client from a daemon that has saved the value and was restarted. -/
structure SettingTrips (key : CString) (variant : GVariant) (cache : EsconfCache)
    (after : EsconfBackendPerchannelXml) : Prop where
  immediately : ∀ (daemon : Daemon) (reader : EsconfChannel), reader.channelName = settingsName →
    reader.propertyBase = none → reader.cache = cache →
    (esconfGsettingsBackendRead text host daemon reader key (text.typeOf variant) false).ret =
      some variant
  restarted : (esconfGsettingsBackendRead text host (.serving host (restarted after))
    (.new settingsName) key (text.typeOf variant) false).ret = some variant

def fileVariant (expectedType : GVariantType) (value : GValue) : Option GVariant :=
  ((esconfGvalueToGvariant host (reread host value)).bind esconfGvariantToGvalue).bind
    (settingVariant text host expectedType)

def Reparses (variant : GVariant) (string : CString) : Prop :=
  host.utf8Validate (normalizeAttribute string) = true ∧
    text.parse (text.typeOf variant) (normalizeAttribute string) = some variant

def KeptElement : GVariant → Prop
  | .variant (.byte _) | .variant (.boolean _) | .variant (.int32 _) | .variant (.uint32 _)
  | .variant (.int64 _) | .variant (.uint64 _) => True
  | .variant (.double bits) => rereadScalar host (.double bits) = .double bits
  | .variant (.string string) =>
      host.utf8Validate string = true ∧ normalizeAttribute string = string
  | _ => False

/-- A GVariant that comes back from the cache, the bus and the file, given what was found for
its key before it was written. -/
def KeptSetting (found : Option GValue) (variant : GVariant) : Prop :=
  match variant with
  | .byte _ | .boolean _ | .int32 _ | .uint32 _ | .int64 _ | .uint64 _ => True
  | .int16 _ | .uint16 _ | .strv _ => False
  | .double bits => rereadScalar host (.double bits) = .double bits ∧
      ∀ other, found = some (.double other) → GValue.doubleEqual other bits = true → other = bits
  | .string string => normalizeAttribute string = string
  | .variants elements => ∀ element ∈ elements, KeptElement host element
  | .variant (.string string) =>
      text.parse .variant string = some variant ∧ Reparses text host variant string
  | .variant (.variant _) | .variant (.other _) | .other _ =>
      Reparses text host variant (text.print variant)
  | .variant _ => False

section File

variable {text host}

theorem rereadScalar_double (prints : PrintsDoubles host) (bits : UInt64) :
    ∃ back, rereadScalar host (.double bits) = .double back := by
  obtain ⟨type, written, spelled, parsed⟩ :=
    @scalarRereads_parsed host (.double bits) (fun _ => prints) rfl
  cases spelled
  have typed : gtypeFromString "double".toList = .double := by decide
  rw [typed] at parsed
  change handleFloating host (fun _ => false) .double _ = _ at parsed
  unfold handleFloating at parsed
  dsimp only at parsed
  split at parsed
  · cases parsed
  split at parsed
  · cases parsed
  split at parsed
  · cases parsed
  · exact ⟨_, (FromString.parsed.inj parsed).symm⟩

theorem reread_isSet (prints : PrintsDoubles host) {variant : GVariant} {value : GValue}
    (decoded : esconfGvariantToGvalue variant = some value) :
    (reread host value).isSet = true := by
  rw [esconfGvariantToGvalue_unboxed] at decoded
  cases inner : unboxed variant with
  | variants elements | strv list =>
      rw [inner] at decoded
      cases decoded
      rfl
  | double bits =>
      rw [inner] at decoded
      cases decoded
      obtain ⟨back, read⟩ := rereadScalar_double prints bits
      change (rereadScalar host (.double bits)).isSet = true
      rw [read]
      rfl
  | string string =>
      rw [inner] at decoded
      cases decoded
      change (rereadScalar host (.string (some string))).isSet = true
      rw [rereadScalar_string]
      rfl
  | variant | other =>
      rw [inner] at decoded
      cases decoded
  | byte n =>
      rw [inner] at decoded
      cases decoded
      exact congrArg GValue.isSet (rereadScalar_scalar (.uchar n))
  | boolean b =>
      rw [inner] at decoded
      cases decoded
      exact congrArg GValue.isSet (rereadScalar_scalar (.boolean b))
  | int16 | int32 =>
      rw [inner] at decoded
      cases decoded
      exact congrArg GValue.isSet (rereadScalar_scalar (.int _))
  | uint16 | uint32 =>
      rw [inner] at decoded
      cases decoded
      exact congrArg GValue.isSet (rereadScalar_scalar (.uint _))
  | int64 n =>
      rw [inner] at decoded
      cases decoded
      exact congrArg GValue.isSet (rereadScalar_scalar (.int64 n))
  | uint64 n =>
      rw [inner] at decoded
      cases decoded
      exact congrArg GValue.isSet (rereadScalar_scalar (.uint64 n))

variable {key : CString} {value : GValue} {saving after : EsconfBackendPerchannelXml}
  {channel base : Esconf.EsconfChannel}

theorem SavedSetting.systemFiles_after
    (saved : SavedSetting host key value saving after channel base)
    (moved : after.disk (userFileName saving settingsName ++ ".new".toList) = none)
    (elsewhere : ∀ place, place ≠ userFileName saving settingsName →
      place ≠ userFileName saving settingsName ++ ".new".toList →
        after.disk place = saving.disk place) :
    systemFiles host after.disk settingsName = systemFiles host saving.disk settingsName := by
  apply systemFiles_congr saved.place
  intro place listed other
  by_cases new : place = userFileName saving settingsName ++ ".new".toList
  · rw [new, moved]
    by_contra there
    refine saved.apart (List.mem_filter.mpr ⟨List.mem_reverse.mpr (List.mem_filter.mpr
      ⟨new ▸ listed, ?_⟩), ?_⟩)
    · exact Option.isSome_iff_ne_none.mpr fun missing => there missing.symm
    · rw [saved.place]
      simp
  · exact elsewhere place other new

theorem SavedSetting.loaded (prints : PrintsDoubles host)
    (saved : SavedSetting host key value saving after channel base) {variant : GVariant}
    (decoded : esconfGvariantToGvalue variant = some value) :
    ∃ again, loadChannel host after.disk settingsName = some (.ok again) ∧
      effectiveAt again key = reread host value := by
  have valid := propNameIsValid_of_property saved.accepted
  obtain ⟨schedule, device, left, flushed⟩ := saved.flushed
  have files := flushChannel_files host schedule saved.entry device
  rw [flushed] at files
  obtain ⟨written, done, published, moved, elsewhere⟩ := files
  have known : ∀ path, path ≠ [] → formattable (channel.properties.slot path).value = true := by
    apply saved.tidy.flushable_iff.mp
    rw [← flushText_isOk host settingsName, done]
    rfl
  have readable : ∀ path, path ≠ [] → rereads (channel.properties.slot path).value = true := by
    intro path full
    by_cases same : path = nameParts key
    · have here := known path full
      rw [same, saved.stored] at here ⊢
      exact decoded_rereads decoded here
    · exact saved.others path full same
  have layers : mergeSystemFiles host after.disk (systemFiles host after.disk settingsName) .root =
      some base := by
    rw [saved.systemFiles_after moved elsewhere, ← saved.layers]
    apply mergeSystemFiles_congr host
    intro filename member
    refine elsewhere filename ?_ fun same => saved.apart (same ▸ member)
    rintro rfl
    have differs := (List.mem_filter.mp member).2
    rw [saved.place] at differs
    simp at differs
  obtain ⟨layer, _⟩ := saved.tidy.written_layer prints readable (by decide) saved.markup done
    published
  obtain ⟨again, merged, _, slots⟩ := layer.merged saved.unlocked
  refine ⟨again, ?_, ?_⟩
  · rw [loadChannel_over saved.place layers saved.unlocked.whole, merged]
    rfl
  have set := reread_isSet prints decoded
  have given := document_gives prints saved.tidy readable settingsName (nameParts_ne_nil valid)
  rw [saved.stored] at given
  rw [effectiveAt_slot valid, EsconfProperty.effective, slots]
  cases outcome : (writtenDocument host settingsName channel.properties).gives host
      (nameParts key) with
  | none =>
      rw [outcome, Option.getD_none] at given
      rw [← given] at set
      cases set
  | some written =>
      rw [outcome, Option.getD_some] at given
      rw [Option.map_some, Option.getD_some, given]
      exact if_pos set

variable (text)

theorem SavedSetting.read (prints : PrintsDoubles host)
    (saved : SavedSetting host key value saving after channel base) {variant : GVariant}
    (decoded : esconfGvariantToGvalue variant = some value) (expectedType : GVariantType) :
    (esconfGsettingsBackendRead text host (.serving host (restarted after)) (.new settingsName) key
      expectedType false).ret = fileVariant text host expectedType value := by
  obtain ⟨again, loads, effective⟩ := saved.loaded prints decoded
  have lower : gAsciiStrdown settingsName = settingsName := by decide
  have found : perchannelXmlGet host (restarted after) settingsName key =
      some (.ok (reread host value), (restarted after).store settingsName again) := by
    have missing : (restarted after).channels.lookup settingsName = none := AList.lookup_empty _
    rw [perchannelXmlGet, onChannel, findChannel_missing host missing loads, lower]
    dsimp only
    rw [effective, if_pos (reread_isSet prints decoded)]
  have got : ∃ final, Daemon.esconfGetProperty host (Daemon.perchannelXml host) [restarted after]
      settingsName key = some (Daemon.replyValue host (reread host value), final) := by
    have guard : Daemon.esconfBackendGet (Daemon.perchannelXml host) (restarted after) settingsName
        key = perchannelXmlGet host (restarted after) settingsName key :=
      Daemon.guarded_names _ (by decide) saved.accepted _
    rw [Daemon.esconfGetProperty, Daemon.getFrom, guard, found]
    exact ⟨_, rfl⟩
  obtain ⟨final, answered⟩ := got
  rw [esconfGsettingsBackendRead, if_neg Bool.false_ne_true, fileVariant]
  change (((esconfCacheLookupLocked (EsconfCache.new settingsName) key (replyOnBus
    (Daemon.esconfGetProperty host (Daemon.perchannelXml host) [restarted after] settingsName
      key))).1.bind fun value => some value).bind (settingVariant text host expectedType)) = _
  rw [answered, Daemon.replyValue]
  cases sent : esconfGvalueToGvariant host (reread host value) with
  | none => rfl
  | some val =>
      simp only [esconfCacheLookupLocked, EsconfCache.new, lookupFetched, Option.bind_some,
        replyOnBus]
      cases esconfGvariantToGvalue val <;> rfl

end File

section Values

variable {text : VariantText} {host : Host}

theorem itemAfterSet_exact {found : Option GValue} {value : GValue}
    (only : ∀ item : GValue, item.isEqual value = true → item = value) :
    itemAfterSet found value = value := by
  cases found with
  | none => rfl
  | some item =>
      rw [itemAfterSet, esconfCacheItemUpdate]
      split
      · next equal => exact only item equal
      · rfl

def ComparedExactly : GValue → Prop
  | .uchar _ | .uint _ | .int _ | .uint64 _ | .int64 _ | .boolean _ | .string _ | .strv _ => True
  | _ => False

theorem isEqual_exact {item value : GValue} (plain : ComparedExactly value)
    (equal : item.isEqual value = true) : item = value := by
  have same := GValue.isEqual_gtype equal
  unfold GValue.isEqual at equal
  rw [if_neg (not_not.mpr same)] at equal
  cases value <;> first | (exact plain.elim) | skip
  all_goals cases item <;> first | (cases same; done) | skip
  all_goals first | exact congrArg _ (LawfulBEq.eq_of_beq equal) | cases equal

theorem settingVariant_string {expectedType : GVariantType} {string : CString}
    (apart : expectedType ≠ .string) :
    settingVariant text host expectedType (.string (some string)) =
      text.parse expectedType string := by
  have mismatch : text.typeOf (.string string) ≠ expectedType := Ne.symm apart
  simp only [settingVariant, esconfGvalueToGvariant, esconfBasicGvalueToGvariant, stringVariant,
    Option.getD_some]
  split
  · next variant sent =>
      split at sent
      · cases sent
        rw [if_neg mismatch]
        rfl
      · cases sent
  · rfl

theorem reread_string (host : Host) (string : CString) :
    reread host (.string (some string)) = .string (some (normalizeAttribute string)) := by
  rw [← @rereadScalar_string host]
  rfl

theorem fileVariant_string {expectedType : GVariantType} {string : CString} {variant : GVariant}
    (apart : expectedType ≠ .string) :
    fileVariant text host expectedType (.string (some string)) = some variant ↔
      host.utf8Validate (normalizeAttribute string) = true ∧
        text.parse expectedType (normalizeAttribute string) = some variant := by
  rw [fileVariant, reread_string]
  simp only [esconfGvalueToGvariant, esconfBasicGvalueToGvariant, stringVariant, Option.getD_some]
  by_cases valid : host.utf8Validate (normalizeAttribute string) = true
  · rw [if_pos valid, ← @settingVariant_string text host _ _ apart]
    simp [valid, esconfGvariantToGvalue, esconfBasicGvariantToGvalue]
  · rw [if_neg valid]
    simp [valid]

theorem settingVariant_ptrArray {expectedType : GVariantType} {arr : List GValue}
    {variant : GVariant} :
    settingVariant text host expectedType (.ptrArray arr) = some variant ↔
      expectedType = .variants ∧ esconfGvalueToGvariant host (.ptrArray arr) = some variant := by
  rw [settingVariant]
  cases sent : esconfGvalueToGvariant host (.ptrArray arr) with
  | none => simp [parsedSetting]
  | some val =>
      have typed : text.typeOf val = .variants := by
        rw [ptrArray_variants sent]
        rfl
      dsimp only
      rw [typed]
      by_cases same : expectedType = .variants
      · simp [same]
      · simp [same, Ne.symm same, parsedSetting]

/-- A list keeps its elements in a `filterMap` exactly if each is kept. -/
theorem filterMap_eq_self_iff {α : Type} {f : α → Option α} {list : List α} :
    list.filterMap f = list ↔ ∀ a ∈ list, f a = some a := by
  induction list with
  | nil => simp
  | cons a rest ih =>
      rw [List.forall_mem_cons, ← ih]
      cases kept : f a with
      | none =>
          rw [List.filterMap_cons_none kept]
          have short := List.length_filterMap_le f rest
          constructor
          · intro same
            have long := congrArg List.length same
            rw [List.length_cons] at long
            omega
          · rintro ⟨same, _⟩
            cases same
      | some b =>
          rw [List.filterMap_cons_some kept]
          simp

def elementAtOnce (host : Host) (element : GVariant) : Option GVariant :=
  (esconfBasicGvalueToGvariant host (elementValue element)).map .variant

def elementOfFile (host : Host) (element : GVariant) : Option GVariant :=
  ((((travelled host (elementValue element)).map (rereadScalar host)).bind (travelled host)).bind
    (esconfBasicGvalueToGvariant host)).map .variant

theorem sent_elements {arr : List GValue} {elements : List GVariant}
    (left : ((arr.filterMap (esconfBasicGvalueToGvariant host)).map .variant) = elements)
    (empty : elements = [] → arr = []) :
    esconfGvalueToGvariant host (.ptrArray arr) = some (.variants elements) := by
  rw [← left]
  apply ptrArray_sent
  by_cases none : arr.filterMap (esconfBasicGvalueToGvariant host) = []
  · left
    apply empty
    rw [← left, none]
    rfl
  · exact Or.inr none

theorem arrayAtOnce_iff {elements : List GVariant} :
    settingVariant text host .variants (.ptrArray (elements.map elementValue)) =
        some (.variants elements) ↔
      ∀ element ∈ elements, elementAtOnce host element = some element := by
  rw [settingVariant_ptrArray, ← filterMap_eq_self_iff]
  have whole : ((elements.map elementValue).filterMap (esconfBasicGvalueToGvariant host)).map
      .variant = elements.filterMap (elementAtOnce host) := by
    rw [List.filterMap_map, List.map_filterMap]
    rfl
  constructor
  · rintro ⟨_, sent⟩
    have same := ptrArray_variants sent
    rw [whole, GVariant.variants.injEq] at same
    exact same.symm
  · intro same
    refine ⟨rfl, sent_elements (whole.trans same) ?_⟩
    rintro rfl
    rfl

theorem arrayOfFile_iff {elements : List GVariant} :
    fileVariant text host .variants
        (.ptrArray ((elements.map elementValue).filterMap (travelled host))) =
          some (.variants elements) ↔
      ∀ element ∈ elements, elementOfFile host element = some element := by
  rw [← filterMap_eq_self_iff, fileVariant]
  change ((esconfGvalueToGvariant host (.ptrArray (((elements.map elementValue).filterMap
    (travelled host)).map (rereadScalar host)))).bind _).bind _ = _ ↔ _
  have whole : (((((elements.map elementValue).filterMap (travelled host)).map
      (rereadScalar host)).filterMap (travelled host)).filterMap
        (esconfBasicGvalueToGvariant host)).map .variant = elements.filterMap (elementOfFile host) := by
    simp only [List.filterMap_map, List.map_filterMap, List.filterMap_filterMap]
    rfl
  generalize loaded : ((elements.map elementValue).filterMap (travelled host)).map
    (rereadScalar host) = arr at whole ⊢
  constructor
  · intro read
    obtain ⟨value, received, last⟩ := Option.bind_eq_some_iff.mp read
    obtain ⟨val, sent, decoded⟩ := Option.bind_eq_some_iff.mp received
    rw [(esconfGvalueToGvariant_ptrArray sent).1] at decoded
    cases decoded
    have same := ptrArray_variants (settingVariant_ptrArray.mp last).2
    rw [whole, GVariant.variants.injEq] at same
    exact same.symm
  · intro same
    have none : elements = [] → arr = [] := by
      rintro rfl
      rw [← loaded]
      rfl
    have sendable : arr = [] ∨ arr.filterMap (esconfBasicGvalueToGvariant host) ≠ [] := by
      by_cases empty : arr.filterMap (esconfBasicGvalueToGvariant host) = []
      · left
        apply none
        rw [← same, ← whole, ← map_elementValue, empty]
        rfl
      · exact Or.inr empty
    have sent := ptrArray_sent sendable
    rw [sent, Option.bind_some, (esconfGvalueToGvariant_ptrArray sent).1, Option.bind_some,
      settingVariant_ptrArray]
    refine ⟨rfl, sent_elements (whole.trans same) ?_⟩
    intro empty
    rw [none empty]
    rfl

theorem elementOfFile_scalar {content : GVariant} {value : GValue} (scalar : ScalarValue value)
    (taken : elementValue (.variant content) = value)
    (sent : esconfBasicGvalueToGvariant host value = some content) :
    elementOfFile host (.variant content) = some (.variant content) := by
  have travels : travelled host value = some value := by
    rw [travelled, sent, Option.map_some, taken]
  simp [elementOfFile, taken, travels, rereadScalar_scalar scalar, sent]

theorem keptElement_string (string : CString) :
    elementAtOnce host (.variant (.string string)) = some (.variant (.string string)) ∧
      elementOfFile host (.variant (.string string)) = some (.variant (.string string)) ↔
        KeptElement host (.variant (.string string)) := by
  have value : elementValue (.variant (.string string)) = .string (some string) := rfl
  have sends : ∀ other, esconfBasicGvalueToGvariant host (.string (some other)) =
      if host.utf8Validate other then some (.string other) else none := fun _ => rfl
  have travels : ∀ other, travelled host (.string (some other)) =
      if host.utf8Validate other then some (.string (some other)) else none := by
    intro other
    rw [travelled, sends]
    split <;> rfl
  rw [KeptElement, elementAtOnce, elementOfFile, value, sends, travels]
  by_cases valid : host.utf8Validate string = true
  · rw [if_pos valid, if_pos valid, Option.map_some, Option.map_some, rereadScalar_string,
      Option.bind_some, travels]
    by_cases again : host.utf8Validate (normalizeAttribute string) = true
    · rw [if_pos again, Option.bind_some, sends, if_pos again]
      simp [valid]
    · rw [if_neg again]
      simp only [Option.bind_none, Option.map_none, reduceCtorEq, and_false, valid, true_and,
        false_iff]
      intro same
      rw [same] at again
      exact again valid
  · simp [valid]

theorem keptElement_double (prints : PrintsDoubles host) (bits : UInt64) :
    elementAtOnce host (.variant (.double bits)) = some (.variant (.double bits)) ∧
      elementOfFile host (.variant (.double bits)) = some (.variant (.double bits)) ↔
        KeptElement host (.variant (.double bits)) := by
  obtain ⟨back, read⟩ := rereadScalar_double prints bits
  have travels : ∀ other, travelled host (.double other) = some (.double other) := fun _ => rfl
  have value : elementValue (.variant (.double bits)) = .double bits := rfl
  simp [KeptElement, elementAtOnce, elementOfFile, value, travels, read, esconfBasicGvalueToGvariant]

theorem keptElement_iff (prints : PrintsDoubles host) (element : GVariant) :
    elementAtOnce host element = some element ∧ elementOfFile host element = some element ↔
      KeptElement host element := by
  have boxed : (∃ content, element = .variant content) ∨ KeptElement host element = False ∧
      elementAtOnce host element ≠ some element := by
    cases element with
    | variant content => exact Or.inl ⟨content, rfl⟩
    | _ =>
        refine Or.inr ⟨rfl, ?_⟩
        intro same
        obtain ⟨inner, _, whole⟩ := Option.map_eq_some_iff.mp same
        cases whole
  rcases boxed with ⟨content, rfl⟩ | ⟨lost, apart⟩
  · cases content with
    | string string => exact keptElement_string string
    | double bits => exact keptElement_double prints bits
    | byte n => exact iff_of_true ⟨rfl, elementOfFile_scalar (.uchar n) rfl rfl⟩ trivial
    | boolean b => exact iff_of_true ⟨rfl, elementOfFile_scalar (.boolean b) rfl rfl⟩ trivial
    | int32 n => exact iff_of_true ⟨rfl, elementOfFile_scalar (.int n) rfl rfl⟩ trivial
    | uint32 n => exact iff_of_true ⟨rfl, elementOfFile_scalar (.uint n) rfl rfl⟩ trivial
    | int64 n => exact iff_of_true ⟨rfl, elementOfFile_scalar (.int64 n) rfl rfl⟩ trivial
    | uint64 n => exact iff_of_true ⟨rfl, elementOfFile_scalar (.uint64 n) rfl rfl⟩ trivial
    | int16 | uint16 | strv | variants | variant | other =>
        exact iff_of_false (fun both => by cases both.1) id
  · rw [lost]
    exact iff_of_false (fun both => apart both.1) id

def ReadsSetting (text : VariantText) (host : Host) (variant : GVariant) (item value : GValue) :
    Prop :=
  settingVariant text host (text.typeOf variant) item = some variant ∧
    fileVariant text host (text.typeOf variant) value = some variant

theorem readsSetting_scalar {variant : GVariant} {value : GValue} (scalar : ScalarValue value)
    (single : isArray value = false)
    (sent : esconfGvalueToGvariant host value = some variant)
    (back : esconfGvariantToGvalue variant = some value) :
    ReadsSetting text host variant value value := by
  have read : settingVariant text host (text.typeOf variant) value = some variant := by
    rw [settingVariant, sent]
    exact if_pos rfl
  have kept : reread host value = value := by
    rw [reread, single, if_neg Bool.false_ne_true, rereadScalar_scalar scalar]
  refine ⟨read, ?_⟩
  rw [fileVariant, kept, sent, Option.bind_some, back, Option.bind_some, read]

theorem onDaemon_string {string : CString} {value : GValue}
    (has : onDaemon host (.string (some string)) = some value) :
    host.utf8Validate string = true ∧ value = .string (some string) := by
  obtain ⟨val, sent, decoded⟩ := Option.bind_eq_some_iff.mp has
  change stringVariant host (some string) = some val at sent
  rw [stringVariant, Option.getD_some] at sent
  split at sent
  · next valid =>
      cases sent
      cases decoded
      exact ⟨valid, rfl⟩
  · cases sent

theorem readsSetting_text {variant : GVariant} {string : CString} {value : GValue}
    (apart : text.typeOf variant ≠ .string)
    (has : onDaemon host (.string (some string)) = some value) :
    ReadsSetting text host variant (.string (some string)) value ↔
      text.parse (text.typeOf variant) string = some variant ∧
        Reparses text host variant string := by
  obtain ⟨_, rfl⟩ := onDaemon_string has
  rw [ReadsSetting, settingVariant_string apart, fileVariant_string apart]
  rfl

theorem readsSetting_string {string : CString} {value : GValue}
    (has : onDaemon host (.string (some string)) = some value) :
    ReadsSetting text host (.string string) (.string (some string)) value ↔
      normalizeAttribute string = string := by
  obtain ⟨valid, rfl⟩ := onDaemon_string has
  have sends : ∀ other, esconfGvalueToGvariant host (.string (some other)) =
      if host.utf8Validate other then some (.string other) else none := fun _ => rfl
  have read : ∀ other, host.utf8Validate other = true →
      settingVariant text host .string (.string (some other)) = some (.string other) := by
    intro other accepted
    rw [settingVariant, sends, if_pos accepted]
    exact if_pos rfl
  change settingVariant text host .string _ = _ ∧ fileVariant text host .string _ = _ ↔ _
  rw [read string valid, fileVariant, reread_string, sends]
  by_cases again : host.utf8Validate (normalizeAttribute string) = true
  · rw [if_pos again, Option.bind_some]
    change _ ∧ settingVariant text host .string (.string (some (normalizeAttribute string))) = _ ↔ _
    rw [read _ again]
    simp
  · rw [if_neg again]
    simp only [Option.bind_none, reduceCtorEq, and_false, false_iff]
    intro same
    rw [same] at again
    exact again valid

theorem itemAfterSet_double (found : Option GValue) (bits : UInt64) :
    ∃ other, itemAfterSet found (.double bits) = .double other ∧ (other = bits ↔
      ∀ old, found = some (.double old) → GValue.doubleEqual old bits = true → old = bits) := by
  have equals : ∀ old, GValue.isEqual (.double old) (.double bits) =
      GValue.doubleEqual old bits := by
    intro old
    unfold GValue.isEqual
    exact if_neg (not_not.mpr rfl)
  cases differs : found.any (GValue.isEqual · (.double bits)) with
  | false =>
      refine ⟨bits, itemAfterSet_differs differs, iff_of_true rfl ?_⟩
      rintro old rfl same
      rw [Option.any_some, equals, same] at differs
      cases differs
  | true =>
      obtain ⟨item, rfl, equal⟩ := (Option.any_eq_true _ found).mp differs
      have kept : itemAfterSet (some item) (.double bits) = item := by
        simp [itemAfterSet, esconfCacheItemUpdate, equal]
      have same := GValue.isEqual_gtype equal
      cases item <;> first | (cases same; done) | skip
      next old =>
        refine ⟨old, kept, ?_⟩
        rw [equals] at equal
        constructor
        · rintro rfl other there _
          cases there
          rfl
        · exact fun only => only old rfl equal

theorem readsSetting_double (prints : PrintsDoubles host) {found : Option GValue} {bits : UInt64}
    {value : GValue} (has : onDaemon host (itemAfterSet found (.double bits)) = some value) :
    ReadsSetting text host (.double bits) (itemAfterSet found (.double bits)) value ↔
      KeptSetting text host found (.double bits) := by
  obtain ⟨other, cached, same⟩ := itemAfterSet_double found bits
  rw [cached] at has ⊢
  cases has
  obtain ⟨back, read⟩ := rereadScalar_double prints other
  have atOnce : ∀ number, settingVariant text host .double (.double number) =
      some (.double number) := fun _ => rfl
  have ofFile : fileVariant text host .double (.double other) = some (.double back) := by
    rw [fileVariant, reread]
    change (((esconfGvalueToGvariant host (rereadScalar host (.double other))).bind _).bind _) = _
    rw [read]
    rfl
  change settingVariant text host .double _ = _ ∧ fileVariant text host .double _ = _ ↔ _
  rw [atOnce, ofFile, KeptSetting, ← same]
  simp only [Option.some.injEq, GVariant.double.injEq]
  constructor
  · rintro ⟨rfl, rfl⟩
    exact ⟨read, rfl⟩
  · rintro ⟨kept, rfl⟩
    rw [kept] at read
    cases read
    exact ⟨rfl, rfl⟩

theorem readsSetting_array (prints : PrintsDoubles host) {found : Option GValue}
    {elements : List GVariant} {value : GValue}
    (has : onDaemon host (.ptrArray (elements.map elementValue)) = some value) :
    ReadsSetting text host (.variants elements) (.ptrArray (elements.map elementValue)) value ↔
      KeptSetting text host found (.variants elements) := by
  obtain ⟨val, sent, decoded⟩ := Option.bind_eq_some_iff.mp has
  rw [(esconfGvalueToGvariant_ptrArray sent).2] at decoded
  cases decoded
  change settingVariant text host .variants _ = _ ∧ fileVariant text host .variants _ = _ ↔ _
  rw [arrayAtOnce_iff, arrayOfFile_iff, KeptSetting]
  constructor
  · exact fun both element member => (keptElement_iff prints element).mp
      ⟨both.1 element member, both.2 element member⟩
  · exact fun kept => ⟨fun element member => ((keptElement_iff prints element).mpr
      (kept element member)).1, fun element member => ((keptElement_iff prints element).mpr
        (kept element member)).2⟩

/-- What is read is what was written exactly if the setting is kept. -/
theorem readsSetting_iff (prints : PrintsDoubles host) {found : Option GValue}
    {variant : GVariant} {value : GValue}
    (inverts : text.parse (text.typeOf variant) (text.print variant) = some variant)
    (has : onDaemon host (itemAfterSet found (settingValue text variant)) = some value) :
    ReadsSetting text host variant (itemAfterSet found (settingValue text variant)) value ↔
      KeptSetting text host found variant := by
  have exactly : ComparedExactly (settingValue text variant) →
      itemAfterSet found (settingValue text variant) = settingValue text variant :=
    fun plain => itemAfterSet_exact fun _ => isEqual_exact plain
  have array : ∀ arr, itemAfterSet found (.ptrArray arr) = .ptrArray arr :=
    fun arr => itemAfterSet_differs (isEqual_ptrArray_any arr found)
  cases variant with
  | byte n =>
      rw [exactly trivial] at has ⊢
      cases has
      exact iff_of_true (readsSetting_scalar (.uchar n) rfl rfl rfl) trivial
  | boolean b =>
      rw [exactly trivial] at has ⊢
      cases has
      exact iff_of_true (readsSetting_scalar (.boolean b) rfl rfl rfl) trivial
  | int32 n =>
      rw [exactly trivial] at has ⊢
      cases has
      exact iff_of_true (readsSetting_scalar (.int n) rfl rfl rfl) trivial
  | uint32 n =>
      rw [exactly trivial] at has ⊢
      cases has
      exact iff_of_true (readsSetting_scalar (.uint n) rfl rfl rfl) trivial
  | int64 n =>
      rw [exactly trivial] at has ⊢
      cases has
      exact iff_of_true (readsSetting_scalar (.int64 n) rfl rfl rfl) trivial
  | uint64 n =>
      rw [exactly trivial] at has ⊢
      cases has
      exact iff_of_true (readsSetting_scalar (.uint64 n) rfl rfl rfl) trivial
  | double bits => exact readsSetting_double prints has
  | string string =>
      rw [exactly trivial] at has ⊢
      exact readsSetting_string has
  | int16 | uint16 =>
      rw [exactly trivial]
      exact iff_of_false (fun both => by cases both.1) id
  | strv list =>
      rw [exactly trivial] at has ⊢
      cases has
      refine iff_of_false ?_ id
      rintro ⟨_, read⟩
      obtain ⟨value, received, last⟩ := Option.bind_eq_some_iff.mp read
      obtain ⟨val, sent, decoded⟩ := Option.bind_eq_some_iff.mp received
      rw [(esconfGvalueToGvariant_ptrArray sent).1] at decoded
      cases decoded
      cases (settingVariant_ptrArray.mp last).1
  | variants elements =>
      change onDaemon host (itemAfterSet found (.ptrArray (elements.map elementValue))) = _ at has
      change ReadsSetting text host _
        (itemAfterSet found (.ptrArray (elements.map elementValue))) value ↔ _
      rw [array] at has ⊢
      exact readsSetting_array prints has
  | other id =>
      rw [exactly trivial] at has ⊢
      change ReadsSetting text host _ (.string (some (text.print _))) value ↔ _
      rw [readsSetting_text (by simp [VariantText.typeOf]) has]
      simp [inverts, KeptSetting]
  | variant inner =>
      cases inner with
      | string string =>
          rw [exactly trivial] at has ⊢
          exact readsSetting_text (by simp [VariantText.typeOf]) has
      | variant | other =>
          rw [exactly trivial] at has ⊢
          change ReadsSetting text host _ (.string (some (text.print _))) value ↔ _
          rw [readsSetting_text (by simp [VariantText.typeOf]) has]
          simp [inverts, KeptSetting]
      | byte | boolean | int16 | uint16 | int32 | uint32 | int64 | uint64 | strv =>
          rw [exactly trivial]
          exact iff_of_false (fun both => by cases both.1) id
      | double bits =>
          obtain ⟨other, cached, _⟩ := itemAfterSet_double found bits
          change ReadsSetting text host _ (itemAfterSet found (.double bits)) value ↔ _
          rw [cached]
          exact iff_of_false (fun both => by cases both.1) id
      | variants elements =>
          change ReadsSetting text host _
            (itemAfterSet found (.ptrArray (elements.map elementValue))) value ↔ _
          rw [array]
          refine iff_of_false ?_ id
          rintro ⟨read, _⟩
          cases (settingVariant_ptrArray.mp read).1

end Values

section Written

variable {text : VariantText} {host : Host} {daemon : Daemon} {channel : EsconfChannel}
  {key : CString} {variant : GVariant}

theorem cached_read {cache : EsconfCache} {item : GValue}
    (cached : cache.properties key = some item) (daemon : Daemon) {reader : EsconfChannel}
    (plain : reader.propertyBase = none) (same : reader.cache = cache)
    (expectedType : GVariantType) :
    (esconfGsettingsBackendRead text host daemon reader key expectedType false).ret =
      settingVariant text host expectedType item := by
  have name : reader.realProp key = key := by rw [EsconfChannel.realProp, plain]
  rw [esconfGsettingsBackendRead, if_neg Bool.false_ne_true, esconfChannelGetProperty,
    esconfChannelGetInternal]
  simp only [lookupIn, esconfCacheLookupLocked, name, same, cached, Option.bind_some]

theorem write_cached {outcome : Outcome Bool} (named : channel.channelName = settingsName)
    (plain : channel.propertyBase = none)
    (wrote : esconfGsettingsBackendWrite text host daemon channel key variant = some outcome)
    (returned : outcome.ret = true) :
    outcome.cache.channelName = settingsName ∧ outcome.cache.properties key =
      some (itemAfterSet (esconfCacheLookupLocked channel.cache key
        (daemon.getProperty settingsName key)).1 (settingValue text variant)) := by
  have name : channel.realProp key = key := by rw [EsconfChannel.realProp, plain]
  have own : channel.cache.channelName = settingsName := channel.own.trans named
  rw [esconfGsettingsBackendWrite, esconfChannelSetProperty] at wrote
  split at wrote
  · cases wrote
    cases returned
  split at wrote
  · cases wrote
    cases returned
  rw [esconfChannelSetInternal] at wrote
  obtain ⟨done, performed, same⟩ := Option.map_eq_some_iff.mp wrote
  cases same
  rw [name, own] at performed
  have set := esconfCacheSet_cached performed returned
  exact ⟨set.named.trans own, set.cached⟩

/-- A GVariant that was written is read back, at once and from a daemon that has saved it and
was restarted, exactly if it has a value that the bus and the file keep, or a text that the
file keeps. -/
theorem setting_trips_iff {outcome : Outcome Bool} {item value : GValue}
    {saving after : EsconfBackendPerchannelXml} {saved base : Esconf.EsconfChannel}
    (inverts : text.parse (text.typeOf variant) (text.print variant) = some variant)
    (prints : PrintsDoubles host) (named : channel.channelName = settingsName)
    (plain : channel.propertyBase = none)
    (wrote : esconfGsettingsBackendWrite text host daemon channel key variant = some outcome)
    (returned : outcome.ret = true) (cached : outcome.cache.properties key = some item)
    (has : onDaemon host item = some value)
    (saves : SavedSetting host key value saving after saved base) :
    SettingTrips text host key variant outcome.cache after ↔
      KeptSetting text host (esconfCacheLookupLocked channel.cache key
        (daemon.getProperty settingsName key)).1 variant := by
  obtain ⟨own, stays⟩ := write_cached named plain wrote returned
  rw [cached, Option.some.injEq] at stays
  obtain ⟨val, _, decoded⟩ := Option.bind_eq_some_iff.mp has
  have fromFile := saves.read text prints decoded (text.typeOf variant)
  have reads : SettingTrips text host key variant outcome.cache after ↔
      ReadsSetting text host variant item value := by
    constructor
    · rintro ⟨immediately, restarted⟩
      have now := immediately .ignorant ⟨settingsName, none, outcome.cache, own⟩ rfl rfl rfl
      rw [cached_read cached _ rfl rfl] at now
      rw [fromFile] at restarted
      exact ⟨now, restarted⟩
    · rintro ⟨now, later⟩
      refine ⟨?_, fromFile.trans later⟩
      intro daemon reader _ based same
      rw [cached_read cached daemon based same]
      exact now
  rw [reads]
  rw [stays] at has ⊢
  exact readsSetting_iff prints inverts has

end Written

section Examples

def VariantText.single (printed : CString) (variant : GVariant) : VariantText where
  otherType := id
  print := fun _ => printed
  parse := fun _ string => if string = printed then some variant else none

/-- A 16-bit number is written, and nothing is read. -/
theorem short_setting_lost :
    ∃ outcome, esconfGsettingsBackendWrite (.single "5".toList (.int16 5)) (Host.bare []) .ignorant
        (.new settingsName) "/a".toList (.int16 5) = some outcome ∧ outcome.ret = true ∧
      ∀ reader : EsconfChannel, reader.propertyBase = none → reader.cache = outcome.cache →
        (esconfGsettingsBackendRead (.single "5".toList (.int16 5)) (Host.bare []) .ignorant reader
          "/a".toList .int16 false).ret = none := by
  have ran : ∃ outcome, esconfGsettingsBackendWrite (.single "5".toList (.int16 5)) (Host.bare [])
      .ignorant (.new settingsName) "/a".toList (.int16 5) = some outcome ∧ outcome.ret = true ∧
        outcome.cache.properties "/a".toList = some (.int (5 : Int16).toInt32) := ⟨_, rfl, rfl, rfl⟩
  obtain ⟨outcome, wrote, returned, cached⟩ := ran
  refine ⟨outcome, wrote, returned, ?_⟩
  intro reader plain same
  exact cached_read cached .ignorant plain same .int16

def defaultSetting (prop : EsconfProperty) : PropTree := .node "b".toList prop []

def settingsBase : Esconf.EsconfChannel :=
  ⟨.node "/".toList .blank [defaultSetting { EsconfProperty.blank with systemValue := .int 3 }],
    false, false⟩

def settingsTree : PropTree :=
  .node "/".toList .blank [.node "a".toList (EsconfProperty.blank.withValue (.boolean true)) [],
    defaultSetting { EsconfProperty.blank with systemValue := .int 3 }]

def settingsHost : Host :=
  { Host.bare [("defaults".toList, deliveredEvents (documentTags (.bare []) settingsName
        (.node "/".toList .blank [defaultSetting (EsconfProperty.blank.withValue (.int 3))]))),
      (tagsText (.bare []) (documentTags (.bare []) settingsName settingsTree),
        deliveredEvents (documentTags (.bare []) settingsName settingsTree))] with
    resourcePlaces := fun stem => ["/home/".toList ++ stem, "/etc/".toList ++ stem]
    resourceSaveLocation := fun stem => some ("/home/".toList ++ stem)
    strtod := fun _ => (0, [], false) }

def settingsBackend : EsconfBackendPerchannelXml :=
  { homeBackend with
    channels := AList.singleton settingsName ⟨settingsTree, false, true⟩
    disk := fun place => if place = "/etc/".toList ++ configFileStem settingsName then
      some "defaults".toList else none }

theorem settingsHost_prints : PrintsDoubles settingsHost :=
  ⟨fun _ => (by decide : PlainText "0.000000".toList),
    fun _ => (by decide : CleanText "0.000000".toList), fun _ => ⟨.double 0, rfl⟩⟩

theorem settingsTree_tidy : Tidy settingsTree := by
  apply tidy_of_names
  · refine .node (by decide) ?_
    intro child member
    rcases List.mem_pair.mp member with rfl | rfl <;> exact .node (by decide) nofun
  · decide

set_option maxRecDepth 8000 in
theorem settingsBackend_saved : ∃ after, SavedSetting settingsHost "/a".toList (.boolean true)
    settingsBackend after ⟨settingsTree, false, true⟩ settingsBase := by
  have flushes : ∃ after left, flushChannel settingsHost allDone settingsBackend settingsName
      atStart = .returned none after left := ⟨_, _, rfl⟩
  obtain ⟨after, left, flushed⟩ := flushes
  have free : All (fun prop => prop.locked = false) settingsBase.properties := by
    refine .node rfl fun child member => ?_
    rw [List.mem_singleton.mp member]
    exact .node rfl nofun
  refine ⟨after, by decide, rfl, rfl, settingsTree_tidy, ?_, rfl, rfl, ⟨rfl, free.lookup rfl⟩,
    by decide, ?_, ⟨allDone, atStart, left, flushed⟩⟩
  · intro path full apart
    cases found : descend settingsTree path with
    | none =>
        have blank : settingsTree.slot path = .blank := lookup_of_missing found
        rw [blank]
        rfl
    | some node =>
        have slot : settingsTree.slot path = node.data := lookup_of_descend found
        have visited : (path, node.data) ∈ preorder [] settingsTree :=
          (mem_preorder settingsTree_tidy.distinct).mpr ⟨path, node, rfl, found, rfl⟩
        have each : ∀ entry ∈ preorder [] settingsTree, rereads entry.2.value = true := by decide
        rw [slot]
        exact each _ visited
  · intro _ _
    rfl

theorem boolean_setting_kept : ∃ outcome after saved value,
    esconfGsettingsBackendWrite (.single "true".toList (.boolean true)) settingsHost .ignorant
        (.new settingsName) "/a".toList (.boolean true) = some outcome ∧ outcome.ret = true ∧
      SavedSetting settingsHost "/a".toList value settingsBackend after saved settingsBase ∧
      SettingTrips (.single "true".toList (.boolean true)) settingsHost "/a".toList (.boolean true)
        outcome.cache after := by
  have ran : ∃ outcome, esconfGsettingsBackendWrite (.single "true".toList (.boolean true))
      settingsHost .ignorant (.new settingsName) "/a".toList (.boolean true) = some outcome ∧
        outcome.ret = true ∧ outcome.cache.properties "/a".toList = some (.boolean true) :=
    ⟨_, rfl, rfl, rfl⟩
  obtain ⟨outcome, wrote, returned, cached⟩ := ran
  obtain ⟨after, saved⟩ := settingsBackend_saved
  refine ⟨outcome, after, _, _, wrote, returned, saved, ?_⟩
  exact (setting_trips_iff (by simp [VariantText.single]) settingsHost_prints rfl rfl wrote
    returned cached rfl saved).mpr trivial

end Examples

end Esconf.Client
