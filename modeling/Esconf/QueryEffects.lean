import Esconf.QueryTool
import Esconf.ServedCalls
import Mathlib.Data.List.Dedup

/-! What a run of the command line tool does to a channel: all that its options ask for, or
nothing. -/

namespace Esconf.Client.Query

inductive Request where
  | version
  | channels
  | list (propertyBase : CString)
  | reset (property : CString)
  | read (property : CString)
  | write (property : CString) (texts : List CString)

def Options.asks (options : Options) : Option Request :=
  if options.version then some .version
  else if (options.propertyName.isNone && !options.list) || (options.create && options.reset) ||
      ((options.create || options.reset) && options.list) then none
  else match options.channelName, options.propertyName, options.list with
    | none, _, _ => some .channels
    | some _, propertyBase, true => some (.list (propertyBase.getD "/".toList))
    | some _, none, false => none
    | some _, some property, false =>
      if options.reset then some (.reset property)
      else match options.setValue with
        | some (text :: texts) => some (.write property (text :: texts))
        | _ => some (.read property)

variable (surroundings : Surroundings) (host : Host) (options : Options)

/-- A text that stands for a value of a type. -/
def Denotes (type : GType) (text : CString) (value : GValue) : Prop :=
  type ≠ .invalid ∧ type ≠ .none ∧ gvalueFromString host type (some text) = .parsed value

inductive Spells (old : Option GValue) : List CString → GValue → Prop where
  | single {type : GType} {text : CString} {value : GValue} (alone : options.forceArray = false)
      (typed : singleType options old = type) (plain : type ≠ .ptrArray)
      (denotes : Denotes host type text value) : Spells old [text] value
  | array {types : List GType} {texts : List CString} {values : List GValue}
      (many : options.forceArray = true ∨ texts.length ≠ 1) (typed : itemTypes options old = types)
      (each : types.length = texts.length)
      (denote : List.Forall₂ (fun spelled value => Denotes host spelled.1 spelled.2 value)
        (types.zip texts) values) :
      Spells old texts (.ptrArray values)

variable (maps : PropMaps)

/-- What a new client has for a property. -/
def shown (property : CString) : Option GValue :=
  if (maps.effective property).isSet then
    (Daemon.tableVariant host (maps.effective property)).bind esconfGvariantToGvalue
  else none

def Sets (property : CString) (value : GValue) : Prop :=
  (shown host maps property).any (GValue.isEqual · value) = true ∨
    ((shown host maps property).isSome = true ∨ (maps.effective property).isSet = false) ∧
      (onDaemon host value).isSome = true

def afterSet (property : CString) (value : GValue) : PropMaps :=
  if (shown host maps property).any (GValue.isEqual · value) then maps
  else ((onDaemon host value).map fun carried => maps.step (.set property carried)).getD maps

inductive Effect : Request → PropMaps → CString → Prop where
  | version : Effect .version maps surroundings.versionText
  | channels {names : List CString} (known : surroundings.channels = some names) :
      Effect .channels maps ("Channels:\n".toList ++ names.flatMap fun name =>
        "  ".toList ++ name ++ "\n".toList)
  | list {propertyBase : CString} {names : List CString} {text : CString}
      (once : names.Nodup)
      (complete : ∀ name, name ∈ names ↔ Covers propertyBase name ∧ propNameIsValid name = true ∧
        (shown host maps name).isSome = true)
      (ordered : names.Pairwise fun one other => surroundings.collate one other ≤ 0)
      (lines : esconfQueryListContents host options.verbose names (shown host maps)
        (names.foldl esconfQueryGetPropnameSize 0) = some text) :
      Effect (.list propertyBase) maps text
  | nothing {propertyBase channelName : CString}
      (bare : ∀ name, Covers propertyBase name → propNameIsValid name = true →
        (maps.effective name).isSet = false) (named : options.channelName = some channelName) :
      Effect (.list propertyBase) maps
        ("Channel \"".toList ++ channelName ++ "\" contains no properties.\n".toList)
  | reset {property : CString} :
      Effect (.reset property) (maps.step
        (if options.recursive then .resetRecursive property else .reset property)) []
  | read {property : CString} {value : GValue} {text : CString} (plain : options.toggle = false)
      (found : shown host maps property = some value) (printed : valueText host value = some text) :
      Effect (.read property) maps text
  | toggle {property : CString} {flag : Bool} (asked : options.toggle = true)
      (found : shown host maps property = some (.boolean flag)) :
      Effect (.read property) (afterSet host maps property (.boolean !flag)) []
  | write {property : CString} {texts : List CString} {value : GValue}
      (may : (shown host maps property).isSome = true ∨ options.create = true)
      (spells : Spells host options (shown host maps property) texts value)
      (text : holdsValidString host value = true) (sets : Sets host maps property value) :
      Effect (.write property texts) (afterSet host maps property value) []

section Values

variable {host} {maps}

theorem basic_decodes {value : GValue} {variant : GVariant}
    (sent : esconfBasicGvalueToGvariant host value = some variant) :
    (esconfGvariantToGvalue variant).isSome = true ∧
      (esconfGvariantToGvalue (.variant variant)).isSome = true := by
  cases value with
  | string text =>
      change stringVariant host text = _ at sent
      rw [stringVariant] at sent
      split at sent
      · cases sent
        exact ⟨rfl, rfl⟩
      · cases sent
  | _ => first | (cases sent; exact ⟨rfl, rfl⟩) | cases sent

theorem tabled_decodes {value : GValue} {variant : GVariant}
    (tabled : Daemon.tableVariant host value = some variant) :
    (esconfGvariantToGvalue variant).isSome = true := by
  have cases : (∃ elements, variant = .variants elements) ∨ (∃ list, variant = .strv list) ∨
      esconfBasicGvalueToGvariant host value = some variant := by
    cases value with
    | ptrArray elements =>
        cases tabled
        exact Or.inl ⟨_, rfl⟩
    | strv list =>
        cases tabled
        exact Or.inr (Or.inl ⟨_, rfl⟩)
    | _ => exact Or.inr (Or.inr tabled)
  rcases cases with ⟨elements, rfl⟩ | ⟨list, rfl⟩ | basic
  · rfl
  · rfl
  · exact (basic_decodes basic).1

theorem sent_decodes {value : GValue} {variant : GVariant}
    (sent : esconfGvalueToGvariant host value = some variant) :
    (onDaemon host value).isSome = true := by
  have cases : (∃ elements, variant = .variants elements) ∨ (∃ list, variant = .strv list) ∨
      esconfBasicGvalueToGvariant host value = some variant := by
    cases value with
    | ptrArray elements =>
        cases elements with
        | nil =>
            cases sent
            exact Or.inl ⟨_, rfl⟩
        | cons first rest =>
            rw [esconfGvalueToGvariant] at sent
            split at sent
            · cases sent
            · cases sent
              exact Or.inl ⟨_, rfl⟩
            · exact fun same => by cases same
    | strv list =>
        cases sent
        exact Or.inr (Or.inl ⟨_, rfl⟩)
    | ptrArrayNull => cases sent
    | _ => exact Or.inr (Or.inr sent)
  rw [onDaemon, sent, Option.bind_some]
  rcases cases with ⟨elements, rfl⟩ | ⟨list, rfl⟩ | basic
  · rfl
  · rfl
  · exact (basic_decodes basic).2

theorem decoded_whole {variant : GVariant} {value : GValue}
    (decodes : esconfGvariantToGvalue variant = some value) : value ≠ .ptrArrayNull := by
  rintro rfl
  rw [esconfGvariantToGvalue_unboxed] at decodes
  cases shape : unboxed variant <;> rw [shape] at decodes <;> cases decodes

theorem sent_tabled {value : GValue} {variant : GVariant}
    (sent : esconfGvalueToGvariant host value = some variant) :
    (Daemon.tableVariant host value).isSome = true := by
  cases value with
  | ptrArray elements => rfl
  | strv list => rfl
  | ptrArrayNull => cases sent
  | _ => exact Option.isSome_of_eq_some sent

theorem shown_isSome {property : CString} : (shown host maps property).isSome = true ↔
    (maps.effective property).isSet = true ∧
      (Daemon.tableVariant host (maps.effective property)).isSome = true := by
  rw [shown]
  by_cases set : (maps.effective property).isSet = true
  · rw [if_pos set]
    cases tabled : Daemon.tableVariant host (maps.effective property) with
    | none => simp
    | some variant => simp [set, tabled_decodes tabled]
  · simp [set]

theorem shown_printed {property : CString} {value : GValue}
    (found : shown host maps property = some value) :
    ∃ text, valueText host value = some text := by
  rw [shown] at found
  split at found
  · obtain ⟨variant, _, decodes⟩ := Option.bind_eq_some_iff.mp found
    have whole := decoded_whole decodes
    cases value with
    | ptrArrayNull => exact absurd rfl whole
    | _ => exact ⟨_, rfl⟩
  · cases found

theorem parsed_gtype {type : GType} {text : CString} {value : GValue}
    (parsed : gvalueFromString host type (some text) = .parsed value) : value.gtype = type := by
  have made : ∀ {convert : CString → Conversion} {minval maxval : Int} {make : Int → GValue},
      realHandleInt convert minval maxval make text = .parsed value → ∃ n, value = make n := by
    intro convert minval maxval make done
    unfold realHandleInt at done
    dsimp only at done
    split at done
    · cases done
    split at done
    · cases done
    split at done <;> cases done
    exact ⟨_, rfl⟩
  have wide : ∀ {convert : CString → Conversion} {make : Int → GValue},
      handleInt64 convert make text = .parsed value → ∃ n, value = make n := by
    intro convert make done
    unfold handleInt64 at done
    dsimp only at done
    split at done
    · cases done
    split at done <;> cases done
    exact ⟨_, rfl⟩
  have floating : ∀ {check : UInt64 → Bool} {make : UInt64 → GValue},
      handleFloating host check make text = .parsed value → ∃ bits, value = make bits := by
    intro check make done
    unfold handleFloating at done
    dsimp only at done
    split at done
    · cases done
    split at done
    · cases done
    split at done <;> cases done
    exact ⟨_, rfl⟩
  cases type with
  | uchar | char | uint | int | uint16 | int16 =>
      simp only [gvalueFromString, onString] at parsed
      obtain ⟨n, rfl⟩ := made parsed
      rfl
  | uint64 | int64 =>
      simp only [gvalueFromString, onString] at parsed
      obtain ⟨n, rfl⟩ := wide parsed
      rfl
  | float | double =>
      simp only [gvalueFromString, onString] at parsed
      obtain ⟨bits, rfl⟩ := floating parsed
      rfl
  | boolean =>
      change handleBoolean text = _ at parsed
      unfold handleBoolean at parsed
      split at parsed
      · cases parsed
        rfl
      · split at parsed <;> cases parsed
        rfl
  | string | ptrArray =>
      cases parsed
      rfl
  | _ => cases parsed

theorem denotes_iff {type : GType} {text : CString} {value : GValue} :
    Denotes host type text value ↔ ¬(type = .invalid ∨ type = .none) ∧
      gvalueFromString host type (some text) = .parsed value := by
  rw [Denotes, not_or, and_assoc]

theorem parseScalar_ok {type : GType} {text : CString} {value : GValue} :
    parseScalar host type text = .ok value ↔ type ≠ .ptrArray ∧ Denotes host type text value := by
  rw [denotes_iff, parseScalar]
  by_cases unknown : type = .invalid ∨ type = .none
  · simp [unknown]
  · rw [if_neg unknown]
    by_cases array : type = .ptrArray
    · simp [array]
    · rw [if_neg array]
      cases gvalueFromString host type (some text) <;> simp [unknown, array]

theorem parseItems_ok {index : Nat} {types : List GType} {texts : List CString}
    {values : List GValue} (each : types.length = texts.length) :
    parseItems host index types texts = .ok values ↔
      List.Forall₂ (fun spelled value => Denotes host spelled.1 spelled.2 value)
        (types.zip texts) values := by
  induction types generalizing index texts values with
  | nil =>
      cases texts with
      | nil =>
          rw [parseItems, List.zip_nil_left, List.forall₂_nil_left_iff]
          · exact ⟨fun same => (Except.ok.inj same).symm, fun same => congrArg Except.ok same.symm⟩
          · nofun
      | cons text texts => cases each
  | cons type types ih =>
      cases texts with
      | nil => cases each
      | cons text texts =>
          have rest := fun values => @ih (index + 1) texts values (Nat.succ.inj each)
          rw [parseItems, List.zip_cons_cons, List.forall₂_cons_left_iff]
          simp only [denotes_iff] at rest ⊢
          by_cases unknown : type = .invalid ∨ type = .none
          · simp [unknown]
          · rw [if_neg unknown]
            cases gvalueFromString host type (some text) with
            | parsed value =>
                cases parsed : parseItems host (index + 1) types texts with
                | ok items =>
                    have same := (rest items).mp parsed
                    constructor
                    · intro made
                      cases made
                      exact ⟨value, items, ⟨unknown, rfl⟩, same, rfl⟩
                    · rintro ⟨value', items', ⟨_, read⟩, others, rfl⟩
                      cases read
                      have again := (rest items').mpr others
                      rw [parsed] at again
                      cases again
                      rfl
                | error message =>
                    constructor
                    · intro made
                      cases made
                    · rintro ⟨_, items', _, others, _⟩
                      have again := (rest items').mpr others
                      rw [parsed] at again
                      cases again
            | refused => simp
            | fault => simp

theorem parseArray_ok {types : List GType} {texts : List CString} {value : GValue} :
    parseArray host types texts = .ok value ↔ types.length = texts.length ∧ ∃ values,
      value = .ptrArray values ∧
        List.Forall₂ (fun spelled value => Denotes host spelled.1 spelled.2 value)
          (types.zip texts) values := by
  rw [parseArray]
  by_cases each : types.length = texts.length
  · rw [if_neg (not_not.mpr each.symm), and_iff_right each]
    constructor
    · intro made
      cases parsed : parseItems host 0 types texts with
      | ok items =>
          rw [parsed] at made
          cases made
          exact ⟨items, rfl, (parseItems_ok each).mp parsed⟩
      | error message =>
          rw [parsed] at made
          cases made
    · rintro ⟨values, rfl, denote⟩
      rw [(@parseItems_ok host 0 types texts values each).mpr denote]
      rfl
  · rw [if_pos (Ne.symm each)]
    simp [each]

theorem newValue_ok {options : Options} {old : Option GValue} {text : CString}
    {texts : List CString} {value : GValue} :
    newValue host options old (text :: texts) = .ok value ↔
      Spells host options old (text :: texts) value := by
  by_cases many : options.forceArray = true ∨ (text :: texts).length ≠ 1
  · have branch : newValue host options old (text :: texts) =
        parseArray host (itemTypes options old) (text :: texts) := by
      unfold newValue
      split
      · next single alone =>
          rw [alone, single] at many
          simp at many
      · rfl
    rw [branch, parseArray_ok]
    constructor
    · rintro ⟨each, values, rfl, denote⟩
      exact .array many rfl each denote
    · intro spells
      cases spells with
      | single alone => simp [alone] at many
      | array _ typed each denote =>
          rw [typed]
          exact ⟨each, _, rfl, denote⟩
  · rw [not_or, not_not, Bool.not_eq_true, List.length_cons] at many
    obtain ⟨alone, one⟩ := many
    obtain rfl := List.length_eq_zero_iff.mp (Nat.succ.inj one)
    have branch : newValue host options old [text] =
        parseScalar host (singleType options old) text := by
      rw [newValue]
      exact alone
    rw [branch, parseScalar_ok]
    constructor
    · exact fun made => .single alone rfl made.1 made.2
    · intro spells
      cases spells with
      | single _ typed plain denotes =>
          rw [typed]
          exact ⟨plain, denotes⟩
      | array many => simp [alone] at many

end Values

theorem saysNotFound_error (code : EsconfError) (message : CString) :
    saysNotFound (some (remoteError ⟨.esconf code, message⟩)) =
      decide (code = .propertyNotFound ∨ code = .channelNotFound) := by
  cases code <;> rfl

variable {surroundings} {host} {maps} {channelName : CString} {backend : EsconfBackendPerchannelXml}

structure Shows (host : Host) (channelName : CString) (maps : PropMaps) (process : Process) :
    Prop where
  served : Served channelName maps process.backend
  named : process.cache.channelName = channelName
  cached : ∀ property, propNameIsValid property = true →
    process.cache.properties property = shown host maps property
  quiet : ∀ property, process.cache.oldProperties property = none

theorem opened (served : Served channelName maps backend) (sendable : Sendable maps) (host : Host)
    (valid : esconfChannelIsValid channelName = none) :
    ∃ process, Process.esconfChannelNew host backend channelName = some process ∧
      process.backend = backend ∧ Shows host channelName maps process := by
  obtain ⟨reply, inserted, rest, got, _, failed, listed⟩ :=
    served.getAllProperties host valid sendable (show baseIsValid "/".toList = none from rfl)
  have covers : ∀ property, Covers "/".toList property := fun _ => Or.inr (Or.inl rfl)
  rw [Process.esconfChannelNew, got]
  refine ⟨_, rfl, rfl, served, ?_, ?_, ?_⟩
  · cases reply <;> rfl
  · intro property fine
    cases reply with
    | error error =>
        have unset := failed ⟨error, rfl⟩ property (covers property) fine
        rw [shown, if_neg (by simp [unset])]
        rfl
    | ok table =>
        change ((table property).bind esconfGvariantToGvalue).or none = _
        rw [Option.or_none, shown]
        have entry := (listed table rfl property).1
        by_cases set : (maps.effective property).isSet = true
        · rw [if_pos set]
          congr 1
          apply Option.ext
          intro variant
          rw [entry]
          exact ⟨fun held => held.2.2.2, fun sent => ⟨covers property, fine, set, sent⟩⟩
        · rw [if_neg set]
          have missing : table property = none := by
            apply Option.eq_none_iff_forall_ne_some.mpr
            intro variant held
            exact set ((entry variant).mp held).2.2.1
          rw [missing]
          rfl
  · intro property
    cases reply <;> rfl

namespace Shows

variable {process : Process} {property : CString}

theorem missing (shows : Shows host channelName maps process)
    (valid : esconfChannelIsValid channelName = none)
    (accepted : esconfPropertyIsValid property = none)
    (absent : shown host maps property = none) :
    ∃ error, Daemon.esconfGetProperty host (Daemon.perchannelXml host) [process.backend]
        process.cache.channelName property = some (.error error, [process.backend]) ∧
      (saysNotFound (some (remoteError error)) = true ↔
        (maps.effective property).isSet = false) := by
  have got := shows.served.getProperty host valid accepted
  rw [shows.named, got]
  by_cases set : (maps.effective property).isSet = true
  · have unsent : esconfGvalueToGvariant host (maps.effective property) = none := by
      by_contra some_variant
      obtain ⟨variant, sent⟩ := Option.ne_none_iff_exists'.mp some_variant
      have there := shown_isSome.mpr ⟨set, sent_tabled sent⟩
      rw [absent] at there
      cases there
    rw [if_pos set, Daemon.replyValue, unsent]
    refine ⟨_, rfl, ?_⟩
    rw [saysNotFound_error, set]
    decide
  · rw [if_neg set]
    refine ⟨_, rfl, ?_⟩
    rw [propertyNotFound, saysNotFound_error, eq_false_of_ne_true set]
    decide

theorem looked (shows : Shows host channelName maps process)
    (valid : esconfChannelIsValid channelName = none)
    (accepted : esconfPropertyIsValid property = none) :
    (∃ error, esconfCacheLookupLocked process.cache property
        ((answers surroundings host process.backend).getProperty process.cache.channelName
          property) = (shown host maps property, error, process.cache) ∧
      (shown host maps property = none →
        (saysNotFound error = true ↔ (maps.effective property).isSet = false))) ∧
      process.lookedUp host property = some process.backend := by
  have cached := shows.cached property (propNameIsValid_of_property accepted)
  rw [esconfCacheLookupLocked, Process.lookedUp, cached]
  cases there : shown host maps property with
  | some item => exact ⟨⟨none, rfl, fun absent => by cases absent⟩, rfl⟩
  | none =>
      obtain ⟨error, got, unset⟩ := shows.missing valid accepted there
      have reply : (answers surroundings host process.backend).getProperty
          process.cache.channelName property = .error (remoteError error) := by
        change received (Daemon.esconfGetProperty _ _ _ _ _) = _
        rw [got]
        rfl
      rw [got]
      dsimp only
      rw [reply]
      exact ⟨⟨_, rfl, fun _ => unset⟩, rfl⟩

theorem realProp (process : Process) (property : CString) :
    process.channel.realProp property = property := rfl

/-- `esconf_channel_get_property` gives what is shown. -/
theorem getProperty (shows : Shows host channelName maps process)
    (valid : esconfChannelIsValid channelName = none)
    (accepted : esconfPropertyIsValid property = none) :
    process.call surroundings host (fun daemon channel =>
      esconfChannelGetProperty daemon channel property) =
        some (shown host maps property, process) := by
  obtain ⟨⟨error, found, _⟩, backend⟩ := @looked surroundings _ _ _ _ _ shows valid accepted
  rw [Process.call]
  simp only [esconfChannelGetProperty, esconfChannelGetInternal, lookupIn, realProp]
  rw [show process.channel.cache = process.cache from rfl, found]
  dsimp only [Process.carryOut]
  rw [backend]
  simp

/-- `esconf_channel_has_property` tells whether anything is shown. -/
theorem hasProperty (shows : Shows host channelName maps process)
    (valid : esconfChannelIsValid channelName = none)
    (accepted : esconfPropertyIsValid property = none) :
    process.call surroundings host (fun daemon channel =>
      esconfChannelHasProperty daemon channel property) =
        some ((shown host maps property).isSome, process) := by
  obtain ⟨⟨error, found, _⟩, backend⟩ := @looked surroundings _ _ _ _ _ shows valid accepted
  rw [Process.call]
  simp only [esconfChannelHasProperty, lookupIn, realProp]
  rw [show process.channel.cache = process.cache from rfl, found]
  dsimp only [Process.carryOut]
  rw [backend]
  rfl

/-- What `esconf_cache_set` does with a value, given what it has found. -/
theorem looked_set {cache : EsconfCache} {value : GValue} {item : Option GValue}
    (quiet : cache.oldProperties property = none) :
    ∃ outcome, setLookedUp host cache property value item = some outcome ∧
      (outcome.ret = true ↔ item.any (GValue.isEqual · value) = true ∨
        (onDaemon host value).isSome = true) ∧
      ((item.any (GValue.isEqual · value) = true ∨ onDaemon host value = none) ∧
          outcome.call = none ∨
        item.any (GValue.isEqual · value) = false ∧ ∃ call, outcome.call = some call ∧
          call.property = property ∧ esconfGvariantToGvalue call.variant = onDaemon host value ∧
          (onDaemon host value).isSome = true) := by
  cases equal : item.any (GValue.isEqual · value) with
  | true => exact ⟨_, setLookedUp_equal equal, by simp, Or.inl ⟨Or.inl rfl, rfl⟩⟩
  | false =>
      cases sent : esconfGvalueToGvariant host value with
      | none =>
          have unsent : onDaemon host value = none := by rw [onDaemon, sent]; rfl
          rw [setLookedUp, equal, if_neg Bool.false_ne_true, quiet]
          refine ⟨_, rfl, ?_, Or.inl ⟨Or.inr unsent, ?_⟩⟩
          · simp [callSetProperty, sent, unsent]
          · simp [callSetProperty, sent]
      | some variant =>
          have decodes := sent_decodes sent
          refine ⟨_, setLookedUp_first equal quiet sent, by simp [decodes],
            Or.inr ⟨rfl, _, rfl, rfl, ?_, decodes⟩⟩
          rw [onDaemon, sent]
          rfl

/-- What `esconf_cache_set` does with a value. -/
theorem cache_set (shows : Shows host channelName maps process)
    (valid : esconfChannelIsValid channelName = none)
    (accepted : esconfPropertyIsValid property = none) (value : GValue) :
    ∃ outcome, esconfCacheSet host process.cache property value
        ((answers surroundings host process.backend).getProperty process.cache.channelName
          property) = some outcome ∧
      (outcome.ret = true ↔ Sets host maps property value) ∧
      ((outcome.ret = false ∨ afterSet host maps property value = maps) ∧ outcome.call = none ∨
        ∃ call carried, outcome.call = some call ∧ outcome.ret = true ∧ call.property = property ∧
          esconfGvariantToGvalue call.variant = some carried ∧
          afterSet host maps property value = maps.step (.set property carried)) := by
  obtain ⟨⟨error, found, unset⟩, _⟩ := @looked surroundings _ _ _ _ _ shows valid accepted
  have made : ∀ item, item = shown host maps property →
      ((shown host maps property).isSome = true ∨ (maps.effective property).isSet = false) →
      ∃ outcome, setLookedUp host process.cache property value item = some outcome ∧
        (outcome.ret = true ↔ Sets host maps property value) ∧
        ((outcome.ret = false ∨ afterSet host maps property value = maps) ∧ outcome.call = none ∨
          ∃ call carried, outcome.call = some call ∧ outcome.ret = true ∧
            call.property = property ∧ esconfGvariantToGvalue call.variant = some carried ∧
            afterSet host maps property value = maps.step (.set property carried)) := by
    rintro item rfl known
    obtain ⟨outcome, returned, success, calls⟩ :=
      @looked_set host property process.cache value (shown host maps property)
        (shows.quiet property)
    refine ⟨outcome, returned, success.trans ?_, ?_⟩
    · rw [Sets, and_iff_right known]
    · rw [afterSet]
      rcases calls with ⟨silent, none⟩ | ⟨differs, call, sent, named, decodes, there⟩
      · refine Or.inl ⟨?_, none⟩
        rcases silent with equal | unsent
        · exact Or.inr (if_pos equal)
        · rw [unsent]
          exact Or.inr (ite_self _)
      · obtain ⟨carried, on⟩ := Option.isSome_iff_exists.mp there
        refine Or.inr ⟨call, carried, sent, success.mpr (Or.inr there), named,
          decodes.trans on, ?_⟩
        rw [differs, if_neg Bool.false_ne_true, on]
        rfl
  rw [esconfCacheSet, found]
  cases there : shown host maps property with
  | some item => exact made (some item) there.symm (Or.inl (Option.isSome_of_eq_some there))
  | none =>
      rw [setAfterLookup]
      split
      · next missing =>
          exact made none there.symm (Or.inr ((unset there).mp missing))
      · next broken =>
          have held := mt (unset there).mpr broken
          refine ⟨_, rfl, ?_, Or.inl ⟨Or.inl rfl, rfl⟩⟩
          rw [Sets, there]
          simp [held]

theorem setting (shows : Shows host channelName maps process)
    (valid : esconfChannelIsValid channelName = none)
    (accepted : esconfPropertyIsValid property = none) (short : property.length < maxPropPath)
    (value : GValue) :
    ∃ done cache after, esconfChannelSetInternal host
        (answers surroundings host process.backend) process.channel property value =
          some ⟨done, cache, some (.cacheSet property value)⟩ ∧
      process.carryOut surroundings host (some (.cacheSet property value)) = some after ∧
      (done = true ↔ Sets host maps property value) ∧
      (done = true → Served channelName (afterSet host maps property value) after) ∧
      (done = false → after = process.backend) := by
  obtain ⟨_, backend⟩ := @looked surroundings _ _ _ _ _ shows valid accepted
  obtain ⟨outcome, returned, success, calls⟩ :=
    @cache_set surroundings _ _ _ _ _ shows valid accepted value
  rw [esconfChannelSetInternal]
  simp only [realProp]
  rw [show process.channel.cache = process.cache from rfl, returned]
  dsimp only [Process.carryOut]
  rw [backend, Option.bind_some, Process.sentCall, returned, Option.bind_some]
  rcases calls with ⟨silent, none⟩ | ⟨call, carried, sent, set, named, decodes, stored⟩
  · rw [none]
    refine ⟨_, _, _, rfl, rfl, success, ?_, fun _ => rfl⟩
    intro set
    rcases silent with failed | same
    · rw [failed] at set
      cases set
    · rw [same]
      exact shows.served
  · obtain ⟨handled, after, made, backends, served⟩ :=
      shows.served.setProperty host valid accepted short decodes
    rw [sent]
    dsimp only
    rw [named, shows.named, made]
    refine ⟨_, _, _, rfl, rfl, success, ?_, ?_⟩
    · intro _
      rw [stored]
      dsimp only
      rw [backends]
      exact served
    · intro failed
      rw [set] at failed
      cases failed

/-- `esconf_channel_set_bool` sets a value, or changes nothing. -/
theorem setBool (shows : Shows host channelName maps process)
    (valid : esconfChannelIsValid channelName = none)
    (accepted : esconfPropertyIsValid property = none) (short : property.length < maxPropPath)
    (flag : Bool) :
    ∃ done after, process.setBool surroundings host property flag = some (done, after) ∧
      (done = true ↔ Sets host maps property (.boolean flag)) ∧
      (done = true → Served channelName (afterSet host maps property (.boolean flag))
        after.backend) ∧
      (done = false → after.backend = process.backend) := by
  obtain ⟨done, cache, after, returned, carried, outcome⟩ :=
    @setting surroundings _ _ _ _ _ shows valid accepted short (.boolean flag)
  refine ⟨done, ⟨cache, after⟩, ?_, outcome⟩
  rw [Process.setBool, returned]
  dsimp only [Option.bind_some]
  rw [carried]
  rfl

/-- `esconf_channel_set_property` sets a value, or changes nothing. -/
theorem setProperty (shows : Shows host channelName maps process)
    (valid : esconfChannelIsValid channelName = none)
    (accepted : esconfPropertyIsValid property = none) (short : property.length < maxPropPath)
    {value : GValue} (set : value.isSet = true) :
    ∃ done after, process.setProperty surroundings host property value = some (done, after) ∧
      (done = true ↔ holdsValidString host value = true ∧ Sets host maps property value) ∧
      (done = true → Served channelName (afterSet host maps property value) after.backend) ∧
      (done = false → after.backend = process.backend) := by
  rw [Process.setProperty, esconfChannelSetProperty, set]
  cases text : holdsValidString host value with
  | false => exact ⟨false, process, rfl, by simp, Bool.noConfusion, fun _ => rfl⟩
  | true =>
      obtain ⟨done, cache, after, returned, carried, success, outcome⟩ :=
        @setting surroundings _ _ _ _ _ shows valid accepted short value
      refine ⟨done, ⟨cache, after⟩, ?_, by rw [success, and_iff_right rfl], outcome⟩
      rw [Bool.not_true, if_neg Bool.false_ne_true, if_neg Bool.false_ne_true, returned,
        Option.bind_some, carried]
      rfl

/-- `esconf_channel_reset_property`. -/
theorem resetProperty (shows : Shows host channelName maps process)
    (valid : esconfChannelIsValid channelName = none)
    (accepted : esconfPropertyIsValid property = none) (recursive : Bool) :
    ∃ after, process.call surroundings host (fun daemon channel =>
        esconfChannelResetProperty daemon channel property recursive) = some ((), after) ∧
      Served channelName
        (maps.step (if recursive then .resetRecursive property else .reset property))
        after.backend := by
  have long : 2 ≤ property.length := by
    obtain ⟨c, rest, rfl, _⟩ :=
      propNameIsValid_iff.mp (propNameIsValid_of_property accepted)
    simp
  obtain ⟨reply, after, done, later⟩ :=
    @Served.resetProperty channelName maps process.backend shows.served host valid property
      recursive accepted
  refine ⟨⟨(esconfChannelResetProperty (answers surroundings host process.backend)
    process.channel property recursive).cache, after⟩, ?_, later⟩
  rw [Process.call, esconfChannelResetProperty, if_pos (Or.inl long)]
  dsimp only [Process.carryOut]
  rw [realProp, shows.named, done]
  rfl

end Shows

theorem sorted_names (surroundings : Surroundings) (names : List CString) :
    (names.foldl (esconfQueryListSorted surroundings) []).Perm names ∧
      (names.foldl (esconfQueryListSorted surroundings) []).Pairwise
        fun one other => surroundings.collate one other ≤ 0 := by
  have order : names.foldl (esconfQueryListSorted surroundings) [] =
      names.reverse.insertionSort fun one other => surroundings.collate one other ≤ 0 := by
    rw [List.insertionSort, List.foldr_reverse]
    rfl
  have total : Std.Total fun one other => surroundings.collate one other ≤ 0 :=
    ⟨surroundings.collate_total⟩
  have trans : IsTrans CString fun one other => surroundings.collate one other ≤ 0 :=
    ⟨surroundings.collate_trans⟩
  rw [order]
  exact ⟨(List.perm_insertionSort _ _).trans (List.reverse_perm _), List.pairwise_insertionSort _ _⟩

theorem size_perm {one other : List CString} (same : one.Perm other) :
    one.foldl esconfQueryGetPropnameSize 0 = other.foldl esconfQueryGetPropnameSize 0 := by
  have longest : ∀ size (name : CString),
      esconfQueryGetPropnameSize size name = max size name.length := by
    intro size name
    unfold esconfQueryGetPropnameSize
    split <;> omega
  apply same.foldl_eq'
  intro name _ name' _ size
  simp only [longest]
  omega

theorem contents_listed {verbose : Bool} {size : Nat} {names : List CString}
    {contents : CString → Option GValue}
    (each : ∀ name ∈ names, (contents name).isSome = true) :
    ∃ text, esconfQueryListContents host verbose names contents size = some text := by
  induction names with
  | nil => exact ⟨[], rfl⟩
  | cons name rest ih =>
      obtain ⟨text, listed⟩ := ih fun other member => each other (List.mem_cons_of_mem _ member)
      obtain ⟨value, there⟩ := Option.isSome_iff_exists.mp (each name List.mem_cons_self)
      have line : ∃ line, listLine host verbose size name (some value) = some line := by
        cases verbose <;> exact ⟨_, rfl⟩
      obtain ⟨line, made⟩ := line
      rw [esconfQueryListContents, there, made, Option.bind_some, listed]
      exact ⟨_, rfl⟩

theorem contents_congr {verbose : Bool} {size : Nat} {names : List CString}
    {contents contents' : CString → Option GValue}
    (same : ∀ name ∈ names, contents name = contents' name) :
    esconfQueryListContents host verbose names contents size =
      esconfQueryListContents host verbose names contents' size := by
  induction names with
  | nil => rfl
  | cons name rest ih =>
      rw [esconfQueryListContents, esconfQueryListContents, same name List.mem_cons_self,
        ih fun other member => same other (List.mem_cons_of_mem _ member)]

theorem getProperties (process : Process) (propertyBase : CString) :
    process.call surroundings host (fun daemon channel =>
      esconfChannelGetProperties daemon channel propertyBase) =
        (Daemon.esconfGetAllProperties host (Daemon.perchannelXml host) [process.backend]
          process.cache.channelName propertyBase).map fun reply =>
            ((((received (some reply)).map (dictionary surroundings (insertedNames host
              process.backend process.cache.channelName propertyBase))).toOption.map
                esconfGvariantToHash), ⟨process.cache, reply.2.headD process.backend⟩) := by
  have base : (if propertyBase = "/".toList then process.channel.propertyBase
      else some (process.channel.realProp propertyBase)).getD "/".toList = propertyBase := by
    split
    · next whole => exact whole.symm
    · rfl
  rw [Process.call]
  dsimp only [esconfChannelGetProperties]
  rw [base]
  dsimp only [Process.carryOut]
  rw [show process.channel.channelName = process.cache.channelName from rfl, Option.map_map]
  cases got : Daemon.esconfGetAllProperties host (Daemon.perchannelXml host) [process.backend]
      process.cache.channelName propertyBase with
  | none => rfl
  | some reply =>
      simp only [answers, got]
      rfl

theorem mem_dictionary {names : List CString} {table : CString → Option GVariant}
    (complete : ∀ name, (table name).isSome = true → name ∈ names) {entry : CString × GVariant} :
    entry ∈ dictionary surroundings names table ↔ table entry.1 = some entry.2 := by
  rw [dictionary, List.mem_filterMap]
  constructor
  · rintro ⟨name, _, made⟩
    obtain ⟨variant, held, rfl⟩ := Option.map_eq_some_iff.mp made
    exact held
  · intro held
    refine ⟨entry.1, (surroundings.visit_perm _).mem_iff.mpr (List.mem_dedup.mpr
      (complete _ (Option.isSome_of_eq_some held))), ?_⟩
    rw [held]
    rfl

theorem listed {process : Process} {options : Options} {propertyBase : CString}
    (shows : Shows host channelName maps process) (sendable : Sendable maps)
    (valid : esconfChannelIsValid channelName = none) (asked : baseIsValid propertyBase = none)
    (named : options.channelName = some channelName) :
    ∃ text, listProperties surroundings host options process propertyBase =
        some (.exits .success text [], process.backend) ∧
      Effect surroundings host options maps (.list propertyBase) maps text := by
  obtain ⟨reply, inserted, rest, got, put, failed, entries⟩ :=
    shows.served.getAllProperties host valid sendable asked
  have keys : insertedNames host process.backend process.cache.channelName propertyBase =
      inserted.map Prod.fst := by
    rw [insertedNames, shows.named, put]
  rw [listProperties, getProperties, keys, shows.named, got]
  cases reply with
  | error error =>
      refine ⟨_, rfl, ?_⟩
      change Effect surroundings host options maps (.list propertyBase) maps
        ("Channel \"".toList ++ process.cache.channelName ++ _)
      rw [shows.named]
      exact .nothing (failed ⟨error, rfl⟩) named
  | ok table =>
      have member := fun {entry} =>
        @mem_dictionary surroundings _ table (fun name => ((entries table rfl name).2)) entry
      have stored : ∀ name value,
          (name, value) ∈ esconfGvariantToHash (dictionary surroundings (inserted.map Prod.fst)
            table) ↔ ∃ variant, table name = some variant ∧
              value = esconfGvariantToGvalue variant := by
        intro name value
        rw [esconfGvariantToHash, List.mem_map]
        constructor
        · rintro ⟨⟨name', variant⟩, held, same⟩
          cases same
          exact ⟨variant, member.mp held, rfl⟩
        · rintro ⟨variant, held, rfl⟩
          exact ⟨(name, variant), member.mpr held, rfl⟩
      have shownBelow : ∀ name, (table name).isSome = true ↔ Covers propertyBase name ∧
          propNameIsValid name = true ∧ (shown host maps name).isSome = true := by
        intro name
        rw [Option.isSome_iff_exists]
        simp only [(entries table rfl name).1, exists_and_left, ← Option.isSome_iff_exists]
        rw [shown_isSome]
      generalize contents : esconfGvariantToHash (dictionary surroundings
        (inserted.map Prod.fst) table) = hash at stored
      obtain ⟨perm, ordered⟩ :=
        sorted_names surroundings (surroundings.visit (hash.map Prod.fst).dedup)
      have visited := perm.trans (surroundings.visit_perm _)
      have complete : ∀ name, name ∈ (surroundings.visit (hash.map Prod.fst).dedup).foldl
          (esconfQueryListSorted surroundings) [] ↔ (table name).isSome = true := by
        intro name
        rw [visited.mem_iff, List.mem_dedup, List.mem_map, Option.isSome_iff_exists]
        constructor
        · rintro ⟨⟨_, value⟩, held, rfl⟩
          obtain ⟨variant, there, _⟩ := (stored _ value).mp held
          exact ⟨variant, there⟩
        · rintro ⟨variant, there⟩
          exact ⟨_, (stored name _).mpr ⟨variant, there, rfl⟩, rfl⟩
      have same : ∀ name, (table name).isSome = true →
          (Assignments.last hash name).bind id = shown host maps name := by
        intro name there
        obtain ⟨variant, held⟩ := Option.isSome_iff_exists.mp there
        obtain ⟨_, _, set, tabled⟩ := ((entries table rfl name).1 variant).mp held
        have single : ∀ key first second, (key, first) ∈ hash → (key, second) ∈ hash →
            first = second := by
          intro key first second one other
          obtain ⟨variant, there, rfl⟩ := (stored key first).mp one
          obtain ⟨variant', there', rfl⟩ := (stored key second).mp other
          rw [there] at there'
          cases there'
          rfl
        rw [(Assignments.last_eq_some single).mpr ((stored name _).mpr ⟨variant, held, rfl⟩),
          shown, if_pos set, tabled]
        rfl
      obtain ⟨text, lines⟩ := @contents_listed host options.verbose
        ((surroundings.visit (hash.map Prod.fst).dedup).foldl esconfQueryGetPropnameSize 0)
        ((surroundings.visit (hash.map Prod.fst).dedup).foldl
          (esconfQueryListSorted surroundings) []) (shown host maps)
        fun name member => ((shownBelow name).mp ((complete name).mp member)).2.2
      refine ⟨text, ?_, .list (visited.nodup_iff.mpr (List.nodup_dedup _))
        (fun name => (complete name).trans (shownBelow name)) ordered ?_⟩
      · simp only [received, Option.map_some, Except.mapError, Except.map, Except.toOption,
          Option.bind_some, contents]
        rw [contents_congr fun name member => same name ((complete name).mp member), lines]
        rfl
      · rw [size_perm perm]
        exact lines

variable {options : Options} {property : CString} {process : Process}

/-- A run has done what was asked for and nothing else, or it has failed, has done nothing and
could not have done what was asked for. -/
def Answers (surroundings : Surroundings) (host : Host) (options : Options)
    (channelName : CString) (maps : PropMaps) (request : Option Request)
    (result : Option (Run × EsconfBackendPerchannelXml)) : Prop :=
  ∃ status out err after maps', result = some (.exits status out err, after) ∧
    Served channelName maps' after ∧ Sendable maps' ∧
    (status = .success → err = [] ∧ ∃ asked, request = some asked ∧
      Effect surroundings host options maps asked maps' out) ∧
    (status = .failure → maps' = maps ∧ ∀ asked, request = some asked → ∀ maps'' out',
      ¬Effect surroundings host options maps asked maps'' out')

theorem Answers.failed {request : Option Request} {message : CString}
    (served : Served channelName maps backend) (sendable : Sendable maps)
    (impossible : ∀ asked, request = some asked → ∀ maps'' out',
      ¬Effect surroundings host options maps asked maps'' out') :
    Answers surroundings host options channelName maps request (fails message backend) :=
  ⟨_, _, _, _, maps, rfl, served, sendable, nofun, fun _ => ⟨rfl, impossible⟩⟩

theorem Answers.done {asked : Request} {maps' : PropMaps} {out : CString}
    (served : Served channelName maps' backend) (sendable : Sendable maps')
    (effect : Effect surroundings host options maps asked maps' out) :
    Answers surroundings host options channelName maps (some asked) (succeeds out backend) :=
  ⟨_, _, _, _, maps', rfl, served, sendable, fun _ => ⟨rfl, asked, rfl, effect⟩, nofun⟩

theorem sendable_afterSet (sendable : Sendable maps) (property : CString) (value : GValue) :
    Sendable (afterSet host maps property value) := by
  rw [afterSet]
  split
  · exact sendable
  · cases sent : onDaemon host value with
    | none => exact sendable
    | some carried =>
        change Sendable (maps.step (.set property carried))
        apply sendable.step
        rintro property' value' same rfl
        cases same
        obtain ⟨variant, _, decodes⟩ := Option.bind_eq_some_iff.mp sent
        exact decoded_whole decodes rfl

theorem readProperty_answers (shows : Shows host channelName maps process)
    (sendable : Sendable maps) (valid : esconfChannelIsValid channelName = none)
    (accepted : esconfPropertyIsValid property = none) (short : property.length < maxPropPath) :
    Answers surroundings host options channelName maps (some (.read property))
      (readProperty surroundings host options process property) := by
  rw [readProperty, shows.getProperty valid accepted, Option.bind_some]
  cases found : shown host maps property with
  | none =>
      refine .failed shows.served sendable ?_
      rintro _ ⟨⟩ maps' out effect
      cases effect with
      | read _ there => rw [found] at there; cases there
      | toggle _ there => rw [found] at there; cases there
  | some value =>
      dsimp only
      cases toggle : options.toggle with
      | false =>
          obtain ⟨text, printed⟩ := shown_printed found
          rw [if_neg Bool.false_ne_true, printed, Option.bind_some]
          exact .done shows.served sendable (.read toggle found printed)
      | true =>
          rw [if_pos rfl]
          have other : (∀ flag, value ≠ .boolean flag) → Answers surroundings host options
              channelName maps (some (.read property))
              (fails "--toggle only works with boolean values".toList process.backend) := by
            intro apart
            refine .failed shows.served sendable ?_
            rintro _ ⟨⟩ maps' out effect
            cases effect with
            | read plain => rw [toggle] at plain; cases plain
            | toggle _ there =>
                rw [found] at there
                cases there
                exact apart _ rfl
          cases value with
          | boolean flag =>
              obtain ⟨done, after, set, success, kept, _⟩ :=
                @Shows.setBool surroundings _ _ _ _ _ shows valid accepted short (!flag)
              have sets : Sets host maps property (.boolean !flag) :=
                Or.inr ⟨Or.inl (Option.isSome_of_eq_some found), rfl⟩
              dsimp only
              rw [set, Option.bind_some]
              dsimp only
              rw [if_pos (success.mpr sets)]
              exact .done (kept (success.mpr sets)) (sendable_afterSet sendable _ _)
                (.toggle toggle found)
          | _ => exact other nofun

theorem Spells.isSet {old : Option GValue} {texts : List CString} {value : GValue}
    (spells : Spells host options old texts value) : value.isSet = true := by
  cases spells with
  | single _ _ _ denotes =>
      obtain ⟨known, _, parsed⟩ := denotes
      rw [GValue.isSet, parsed_gtype parsed]
      simpa using known
  | array => rfl

theorem newValue_given (given : givenTypes options ≠ []) (old : Option GValue)
    (texts : List CString) :
    newValue host options none texts = newValue host options old texts := by
  cases types : givenTypes options with
  | nil => exact absurd types given
  | cons name names =>
      have single : singleType options none = singleType options old := by
        rw [singleType, singleType, types]
      have items : itemTypes options none = itemTypes options old := by
        unfold itemTypes
        rw [types]
      unfold newValue
      rw [single, items]

theorem setNewValue_answers (shows : Shows host channelName maps process)
    (sendable : Sendable maps) (valid : esconfChannelIsValid channelName = none)
    (accepted : esconfPropertyIsValid property = none) (short : property.length < maxPropPath)
    (may : (shown host maps property).isSome = true ∨ options.create = true)
    {old : Option GValue} {text : CString} {texts : List CString}
    (same : newValue host options old (text :: texts) =
      newValue host options (shown host maps property) (text :: texts)) :
    Answers surroundings host options channelName maps (some (.write property (text :: texts)))
      (setNewValue surroundings host options process property old (text :: texts)) := by
  rw [setNewValue, same]
  cases made : newValue host options (shown host maps property) (text :: texts) with
  | error message =>
      refine .failed shows.served sendable ?_
      rintro _ ⟨⟩ maps' out effect
      cases effect with
      | write _ spells =>
          rw [newValue_ok.mpr spells] at made
          cases made
  | ok value =>
      have spells := newValue_ok.mp made
      obtain ⟨done, after, set, success, kept, lost⟩ :=
        @Shows.setProperty surroundings _ _ _ _ _ shows valid accepted short value spells.isSet
      dsimp only
      rw [set, Option.bind_some]
      dsimp only
      cases done with
      | true =>
          obtain ⟨string, sets⟩ := success.mp rfl
          exact .done (kept rfl) (sendable_afterSet sendable _ _) (.write may spells string sets)
      | false =>
          rw [if_neg Bool.false_ne_true, lost rfl]
          refine .failed shows.served sendable ?_
          rintro _ ⟨⟩ maps' out effect
          cases effect with
          | write _ spells' string sets =>
              have again := newValue_ok.mpr spells'
              rw [made] at again
              cases again
              cases success.mpr ⟨string, sets⟩

theorem writeProperty_answers (shows : Shows host channelName maps process)
    (sendable : Sendable maps) (valid : esconfChannelIsValid channelName = none)
    (accepted : esconfPropertyIsValid property = none) (short : property.length < maxPropPath)
    (text : CString) (texts : List CString) :
    Answers surroundings host options channelName maps (some (.write property (text :: texts)))
      (writeProperty surroundings host options process property (text :: texts)) := by
  rw [writeProperty, shows.hasProperty valid accepted, Option.bind_some]
  dsimp only
  by_cases may : (shown host maps property).isSome = true ∨ options.create = true
  · rw [if_neg (by simpa using fun missing => may.resolve_left (by simp [missing]))]
    by_cases given : givenTypes options ≠ []
    · rw [if_pos given]
      exact setNewValue_answers shows sendable valid accepted short may
        (newValue_given given _ _)
    · rw [if_neg given]
      have bare := not_not.mp given
      cases found : shown host maps property with
      | none =>
          refine .failed shows.served sendable ?_
          rintro _ ⟨⟩ maps' out effect
          cases effect with
          | write _ spells =>
              rw [found] at spells
              cases spells with
              | single _ typed _ denotes =>
                  rw [singleType, bare] at typed
                  exact denotes.1 typed.symm
              | array _ typed each =>
                  unfold itemTypes at typed
                  rw [bare] at typed
                  rw [← typed] at each
                  cases each
      | some value =>
          rw [if_neg (by simp), shows.getProperty valid accepted, Option.bind_some, found]
          dsimp only
          exact setNewValue_answers shows sendable valid accepted short may (by rw [found])
  · rw [not_or] at may
    rw [if_pos (by simpa using may)]
    refine .failed shows.served sendable ?_
    rintro _ ⟨⟩ maps' out effect
    cases effect with
    | write may' => exact may'.elim may.1 may.2

/-- A command about a channel, with names that the daemon accepts, that comes to an end. -/
structure Fits (options : Options) (channelName : CString) : Prop where
  unwatched : options.monitor = false
  named : ∀ name, options.channelName = some name → name = channelName
  base : options.list = true → baseIsValid (options.propertyName.getD "/".toList) = none
  accepted : options.list = false → ∀ property, options.propertyName = some property →
    esconfPropertyIsValid property = none ∧ property.length < maxPropPath

/-- A run of the tool does all that its options ask for, or nothing. -/
theorem main_answers (connected : surroundings.bus = .ok ())
    (served : Served channelName maps backend) (sendable : Sendable maps)
    (valid : esconfChannelIsValid channelName = none) (fits : Fits options channelName) :
    Answers surroundings host options channelName maps options.asks
      (main surroundings host (.ok options) backend) := by
  have refused : ∀ {message}, options.asks = none → Answers surroundings host options channelName
      maps options.asks (fails message backend) := by
    intro message nothing
    rw [nothing]
    exact .failed served sendable nofun
  rw [main]
  dsimp only
  cases version : options.version with
  | true =>
      rw [if_pos rfl]
      rw [show options.asks = some .version by rw [Options.asks, version]; rfl]
      exact .done served sendable .version
  | false =>
      rw [if_neg Bool.false_ne_true, fits.unwatched, connected]
      have unclear : ((options.propertyName.isNone && !options.list) ||
          (options.create && options.reset) ||
          ((options.create || options.reset) && options.list)) = true → options.asks = none := by
        intro unclear
        rw [Options.asks, version, if_neg Bool.false_ne_true, if_pos unclear]
      split
      · next bare => exact refused (unclear (by simp_all))
      split
      · next both => exact refused (unclear (by simp_all))
      split
      · next listed => exact refused (unclear (by simp_all))
      next bare both apart =>
        have clear : options.asks = match options.channelName, options.propertyName,
            options.list with
          | none, _, _ => some .channels
          | some _, propertyBase, true => some (.list (propertyBase.getD "/".toList))
          | some _, none, false => none
          | some _, some property, false =>
            if options.reset then some (.reset property)
            else match options.setValue with
              | some (text :: texts) => some (.write property (text :: texts))
              | _ => some (.read property) := by
          rw [Options.asks, version, if_neg Bool.false_ne_true, if_neg]
          simp_all
        rw [clear]
        cases named : options.channelName with
        | none =>
            dsimp only
            cases known : surroundings.channels with
            | some names => exact .done served sendable (.channels known)
            | none =>
                refine ⟨_, _, _, _, maps, rfl, served, sendable, nofun, fun _ => ⟨rfl, ?_⟩⟩
                rintro _ ⟨⟩ maps' out effect
                cases effect with
                | channels there => rw [known] at there; cases there
        | some name =>
            obtain rfl := fits.named name named
            obtain ⟨process, opens, _, shows⟩ := opened served sendable host valid
            dsimp only
            rw [opens, Option.bind_some, if_neg Bool.false_ne_true]
            cases listing : options.list with
            | true =>
                obtain ⟨text, printed, effect⟩ :=
                  @listed surroundings host maps name process options _ shows sendable valid
                    (fits.base listing) named
                have result : Answers surroundings host options name maps
                    (some (.list (options.propertyName.getD "/".toList)))
                    (listProperties surroundings host options process
                      (options.propertyName.getD "/".toList)) := by
                  rw [printed]
                  exact .done shows.served sendable effect
                cases about : options.propertyName <;> rw [about] at result <;> exact result
            | false =>
                cases about : options.propertyName with
                | none => simp [about, listing] at bare
                | some property =>
                    obtain ⟨accepted, short⟩ := fits.accepted listing property about
                    dsimp only
                    cases reset : options.reset with
                    | true =>
                        obtain ⟨after, done, later⟩ := @Shows.resetProperty surroundings _ _ _ _
                          _ shows valid accepted options.recursive
                        rw [if_pos rfl, if_pos rfl, done]
                        refine .done later (sendable.step ?_) .reset
                        intro property' value same
                        split at same <;> cases same
                    | false =>
                        rw [if_neg Bool.false_ne_true, if_neg Bool.false_ne_true]
                        cases given : options.setValue with
                        | none => exact readProperty_answers shows sendable valid accepted short
                        | some texts =>
                            cases texts with
                            | nil => exact readProperty_answers shows sendable valid accepted short
                            | cons text texts =>
                                exact writeProperty_answers shows sendable valid accepted short
                                  text texts

end Esconf.Client.Query
