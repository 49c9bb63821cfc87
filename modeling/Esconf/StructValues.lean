import Esconf.CacheProtocol
import Esconf.ChannelObjects
import Esconf.Library.RecordFields

/-! Structs stored as arrays: `esconf_channel_set_structv` and `esconf_channel_get_structv` of
`esconf/esconf-channel.c`. -/

namespace Esconf.Client

open RecordFields

abbrev CType : GType → Type
  | .string => Option CString
  | .uchar => UInt8
  | .char => Int8
  | .uint => UInt32
  | .int => Int32
  | .uint64 => UInt64
  | .int64 => Int64
  | .float => UInt32
  | .double => UInt64
  | .boolean => Bool
  | .uint16 => UInt16
  | .int16 => Int16
  | _ => Unit

/-- What loads at offsets into a struct give. -/
abbrev ValueStruct := Memory CType

/-- `ALIGN_VAL`. -/
def alignVal (val align : Nat) : Nat := (val + (align - 1)) - ((val + (align - 1)) &&& (align - 1))

/-- The sizes and alignments of the C types, which the configuration of the build finds out. -/
structure Platform where
  sizeOf : GType → Nat
  alignOf : GType → Nat
  sized : ∀ type, 0 < sizeOf type

theorem le_alignVal (val align : Nat) : val ≤ alignVal val align := by
  have masked : (val + (align - 1)) &&& (align - 1) ≤ align - 1 := Nat.and_le_right
  unfold alignVal
  omega

def Platform.layout (platform : Platform) : Layout GType where
  place := fun offset type => alignVal offset (platform.alignOf type)
  size := platform.sizeOf
  forward := fun offset type => le_alignVal offset (platform.alignOf type)
  sized := platform.sized

variable (platform : Platform) (host : Host) (daemon : Daemon) (channel : EsconfChannel)
  (property : CString)

/-- `GET_STRUCT_VAL`: the GValue made of a member. -/
def getStructVal : (type : GType) → CType type → Option GValue
  | .string, text => some (.string text)
  | .uchar, n => some (.uchar n)
  | .char, n => some (.char n)
  | .uint, n => some (.uint n)
  | .int, n => some (.int n)
  | .uint64, n => some (.uint64 n)
  | .int64, n => some (.int64 n)
  | .float, bits => some (.float bits)
  | .double, bits => some (.double bits)
  | .boolean, b => some (.boolean b)
  | .uint16, n => some (.uint16 n)
  | .int16, n => some (.int16 n)
  | _, _ => none

/-- `SET_STRUCT_VAL`: the member made of a GValue, whose type is checked; the 16-bit types
are expected as a guint and a gint. -/
def setStructVal : (type : GType) → GValue → Option (CType type)
  | .string, .string text => some text
  | .uchar, .uchar n => some n
  | .char, .char n => some n
  | .uint, .uint n => some n
  | .int, .int n => some n
  | .uint64, .uint64 n => some n
  | .int64, .int64 n => some n
  | .float, .float bits => some bits
  | .double, .double bits => some bits
  | .boolean, .boolean b => some b
  | .uint16, .uint n => some n.toUInt16
  | .int16, .int n => some n.toInt16
  | _, _ => none

/-- The loop of `esconf_channel_set_structv`. -/
def structValues (valueStruct : ValueStruct) : Nat → List GType → Option (List GValue)
  | _, [] => some []
  | curOffset, type :: rest =>
    let curOffset := alignVal curOffset (platform.alignOf type)
    match getStructVal type (valueStruct curOffset type) with
    | none => none
    | some val =>
      (structValues valueStruct (curOffset + platform.sizeOf type) rest).map (val :: ·)

/-- `esconf_channel_set_arrayv`. -/
def esconfChannelSetArrayv (values : List GValue) : Option (Outcome Bool) :=
  -- The values go into the array as they are, also 16-bit ones.
  esconfChannelSetInternal host daemon channel property (.ptrArray values)

/-- `esconf_channel_set_structv`; `none` when the old item has been freed. -/
def esconfChannelSetStructv (valueStruct : ValueStruct) (memberTypes : List GType) :
    Option (Outcome Bool) :=
  if memberTypes = [] then some ⟨false, channel.cache, none⟩
  else match structValues platform valueStruct 0 memberTypes with
    | none => some ⟨false, channel.cache, none⟩
    | some arr => esconfChannelSetArrayv host daemon channel property arr

/-- `esconf_channel_get_arrayv`, with a GValue that has no type yet. -/
def esconfChannelGetArrayv : Outcome (Option (List GValue)) :=
  let looked := esconfChannelGetInternal (fun _ _ => none) daemon channel property none
  { looked with
    ret := match looked.ret with
      | some (.ptrArray (first :: rest)) => some (first :: rest)
      | _ => none }

/-- The loop of `esconf_channel_get_structv`: whether it comes to its end, and the struct. -/
def storeMembers : Nat → List GType → List GValue → ValueStruct → Bool × ValueStruct
  | curOffset, type :: types, val :: vals, valueStruct =>
    match setStructVal type val with
    | none => (false, valueStruct)
    | some member =>
      let curOffset := alignVal curOffset (platform.alignOf type)
      storeMembers (curOffset + platform.sizeOf type) types vals
        (store valueStruct curOffset member)
  | _, _, _, valueStruct => (true, valueStruct)

/-- `esconf_channel_get_structv`, which fills a struct. -/
def esconfChannelGetStructv (valueStruct : ValueStruct) (memberTypes : List GType) :
    Outcome (Bool × ValueStruct) :=
  if memberTypes = [] then ⟨(false, valueStruct), channel.cache, none⟩
  else
    let got := esconfChannelGetArrayv daemon channel property
    { got with
      ret := match got.ret with
        | none => (false, valueStruct)
        | some arr =>
          if arr.length ≠ memberTypes.length then (false, valueStruct)
          else storeMembers platform 0 memberTypes arr valueStruct }

def echoes (value : GValue) : List BusMessage :=
  match (esconfGvalueToGvariant host value).bind fun val =>
    esconfGvariantToGvalue (.variant val) with
  | some stored => esconfDaemonEmitPropertyChangedIdled host (some stored)
  | none => []

def ReadsBack (cache : EsconfCache) (valueStruct : ValueStruct) (memberTypes : List GType) :
    Prop :=
  ∀ (reader : EsconfChannel) (target : ValueStruct), reader.channelName = channel.channelName →
    reader.propertyBase = channel.propertyBase → reader.cache = cache →
    ∃ filled, (esconfChannelGetStructv platform daemon reader property target memberTypes).ret =
        (true, filled) ∧ SameFields platform.layout memberTypes filled valueStruct

/-- A struct is read back from the cache a set leaves, and from any later cache that the
echo of the value it has sent is applied to. -/
structure RoundTrips (valueStruct : ValueStruct) (memberTypes : List GType)
    (set : Outcome Bool) : Prop where
  immediately : ReadsBack platform daemon channel property set.cache valueStruct memberTypes
  echoed : ∀ (later : EsconfCache) (name : CString) (value : GValue) (echo : GVariant),
    later.channelName = channel.channelName → set.request = some (.cacheSet name value) →
    later.oldProperties name = none → echoes host value = [.propertyChanged echo] →
    ReadsBack platform daemon channel property
      (esconfCacheHandlePropertyChanged later channel.channelName name echo).1 valueStruct
      memberTypes

/-- A member that the bus and the types of the reader leave as it is. -/
def KeptMember : (type : GType) → CType type → Prop
  | .string, some text => host.utf8Validate text = true
  | .string, none => False
  | .char, _ | .float, _ | .uint16, _ | .int16, _ => False
  | _, _ => True

variable {platform host daemon channel property}

def travelled (host : Host) (value : GValue) : Option GValue :=
  (esconfBasicGvalueToGvariant host value).map fun sent => elementValue (.variant sent)

theorem kept_value {type : GType} {member : CType type} {value : GValue}
    (taken : getStructVal type member = some value) (kept : KeptMember host type member) :
    travelled host value = some value ∧ setStructVal type value = some member := by
  cases type with
  | string =>
      cases taken
      cases member with
      | none => exact kept.elim
      | some text =>
          have valid : host.utf8Validate text = true := kept
          simp [travelled, esconfBasicGvalueToGvariant, stringVariant, valid, elementValue,
            esconfBasicGvariantToGvalue, setStructVal]
  | char => exact kept.elim
  | float => exact kept.elim
  | uint16 => exact kept.elim
  | int16 => exact kept.elim
  | uchar | uint | int | uint64 | int64 | double | boolean =>
      cases taken
      exact ⟨rfl, rfl⟩
  | _ => cases taken

theorem kept_of_value {type : GType} {member : CType type} {value later : GValue}
    (taken : getStructVal type member = some value)
    (atOnce : setStructVal type value = some member) (sent : travelled host value = some later)
    (echoed : setStructVal type later = some member) : KeptMember host type member := by
  cases type with
  | string =>
      cases taken
      cases member with
      | none =>
          simp only [travelled, esconfBasicGvalueToGvariant, stringVariant] at sent
          split at sent
          · cases sent
            cases echoed
          · cases sent
      | some text =>
          simp only [travelled, esconfBasicGvalueToGvariant, stringVariant] at sent
          split at sent
          · next valid => exact valid
          · cases sent
  | char =>
      cases taken
      cases sent
      cases echoed
  | float =>
      cases taken
      cases sent
  | uint16 =>
      cases taken
      cases atOnce
  | int16 =>
      cases taken
      cases atOnce
  | uchar | uint | int | uint64 | int64 | double | boolean => exact trivial
  | _ => cases taken

theorem travelled_again {value later : GValue} (sent : travelled host value = some later) :
    travelled host later = some later := by
  cases value with
  | string text =>
      simp only [travelled, esconfBasicGvalueToGvariant, stringVariant] at sent
      split at sent
      · next valid =>
          cases sent
          simp [travelled, esconfBasicGvalueToGvariant, stringVariant, valid, elementValue,
            esconfBasicGvariantToGvalue]
      · cases sent
  | uint | int | boolean | uchar | int64 | uint64 | double | int16 | uint16 | char =>
      cases sent
      rfl
  | _ => cases sent

theorem map_elementValue (arr : List GValue) :
    ((arr.filterMap (esconfBasicGvalueToGvariant host)).map .variant).map elementValue =
      arr.filterMap (travelled host) := by
  rw [List.map_map, List.map_filterMap]
  rfl

theorem ptrArray_variants {arr : List GValue} {val : GVariant}
    (converted : esconfGvalueToGvariant host (.ptrArray arr) = some val) :
    val = .variants ((arr.filterMap (esconfBasicGvalueToGvariant host)).map .variant) := by
  cases arr with
  | nil =>
      cases converted
      rfl
  | cons first rest =>
      rw [esconfGvalueToGvariant] at converted
      · split at converted
        · cases converted
        · cases converted
          rfl
      · exact List.cons_ne_nil first rest

theorem esconfGvalueToGvariant_ptrArray {arr : List GValue} {val : GVariant}
    (converted : esconfGvalueToGvariant host (.ptrArray arr) = some val) :
    esconfGvariantToGvalue val = some (.ptrArray (arr.filterMap (travelled host))) ∧
      esconfGvariantToGvalue (.variant val) =
        some (.ptrArray (arr.filterMap (travelled host))) := by
  rw [ptrArray_variants converted, ← map_elementValue]
  exact ⟨rfl, rfl⟩

theorem ptrArray_sent {arr : List GValue}
    (sendable : arr = [] ∨ arr.filterMap (esconfBasicGvalueToGvariant host) ≠ []) :
    esconfGvalueToGvariant host (.ptrArray arr) =
      some (.variants ((arr.filterMap (esconfBasicGvalueToGvariant host)).map .variant)) := by
  cases arr with
  | nil => rfl
  | cons first rest =>
      have full := sendable.resolve_left (List.cons_ne_nil first rest)
      rw [esconfGvalueToGvariant]
      · split
        · next empty => exact absurd empty full
        · rfl
      · exact List.cons_ne_nil first rest

theorem travelled_sent (arr : List GValue) :
    ∃ val, esconfGvalueToGvariant host (.ptrArray (arr.filterMap (travelled host))) = some val ∧
      esconfGvariantToGvalue val = some (.ptrArray (arr.filterMap (travelled host))) := by
  have again : (arr.filterMap (travelled host)).filterMap (travelled host) =
      arr.filterMap (travelled host) := by
    rw [List.filterMap_filterMap]
    apply List.filterMap_congr
    intro value _
    cases sent : travelled host value with
    | none => rfl
    | some later => exact travelled_again sent
  have sendable : arr.filterMap (travelled host) = [] ∨
      (arr.filterMap (travelled host)).filterMap (esconfBasicGvalueToGvariant host) ≠ [] := by
    by_cases empty : arr.filterMap (travelled host) = []
    · exact Or.inl empty
    · right
      intro none
      rw [← again, ← map_elementValue, none] at empty
      exact empty rfl
  have sent := ptrArray_sent sendable
  refine ⟨_, sent, ?_⟩
  rw [(esconfGvalueToGvariant_ptrArray sent).1, again]

theorem echoes_ptrArray {arr : List GValue} {val : GVariant}
    (converted : esconfGvalueToGvariant host (.ptrArray arr) = some val) :
    ∃ echo, echoes host (.ptrArray arr) = [.propertyChanged echo] ∧
      esconfGvariantToGvalue echo = some (.ptrArray (arr.filterMap (travelled host))) := by
  have stored := (esconfGvalueToGvariant_ptrArray converted).2
  obtain ⟨echo, resent, decoded⟩ := @travelled_sent host arr
  refine ⟨echo, ?_, decoded⟩
  simp [echoes, converted, stored, esconfDaemonEmitPropertyChangedIdled, resent]

theorem storeMembers_front {types : List GType} : ∀ {vals : List GValue} {offset front : Nat}
    {target : ValueStruct}, front < offset →
    (storeMembers platform offset types vals target).2 front = target front := by
  induction types with
  | nil =>
      intro vals offset front target _
      rfl
  | cons type rest ih =>
      intro vals offset front target before
      cases vals with
      | nil => rfl
      | cons val vals =>
          rw [storeMembers]
          split
          · rfl
          · have forward := le_alignVal offset (platform.alignOf type)
            rw [ih (by omega), store_apart _ _ (by omega)]

theorem storeMembers_cons {type : GType} {rest : List GType} {val : GValue} {vals : List GValue}
    {offset : Nat} {target : ValueStruct} {member : CType type}
    (fits : setStructVal type val = some member) :
    storeMembers platform offset (type :: rest) (val :: vals) target =
      storeMembers platform (alignVal offset (platform.alignOf type) + platform.sizeOf type) rest
        vals (store target (alignVal offset (platform.alignOf type)) member) := by
  rw [storeMembers, fits]

theorem storeMembers_first (platform : Platform) (types : List GType) (vals : List GValue)
    (offset : Nat) {type : GType} (target : ValueStruct) (member : CType type) :
    (storeMembers platform (offset + platform.sizeOf type) types vals
      (store target offset member)).2 offset type = member := by
  have sized := platform.sized type
  rw [storeMembers_front (by omega), store_same]

theorem storeMembers_fits {types : List GType} : ∀ {vals : List GValue} {offset : Nat}
    {target before : ValueStruct}, vals.length = types.length →
    ((∃ filled, storeMembers platform offset types vals target = (true, filled) ∧
        ∀ field ∈ fields platform.layout offset types,
          filled field.1 field.2 = before field.1 field.2) ↔
      List.Forall₂ (fun field value => setStructVal field.2 value =
        some (before field.1 field.2)) (fields platform.layout offset types) vals) := by
  induction types with
  | nil =>
      intro vals offset target before length
      cases List.length_eq_zero_iff.mp length
      exact iff_of_true ⟨target, rfl, by simp [fields]⟩ List.Forall₂.nil
  | cons type rest ih =>
      intro vals offset target before length
      cases vals with
      | nil => cases length
      | cons val vals =>
          have shorter : vals.length = rest.length := Nat.succ_inj.mp length
          rw [fields, List.forall₂_cons]
          constructor
          · rintro ⟨filled, run, same⟩
            cases fits : setStructVal type val with
            | none =>
                rw [storeMembers, fits] at run
                cases run
            | some member =>
                rw [storeMembers_cons fits] at run
                have first := same _ List.mem_cons_self
                have here := storeMembers_first platform rest vals
                  (alignVal offset (platform.alignOf type)) target member
                rw [run] at here
                refine ⟨?_, (ih shorter).mp ⟨filled, run, ?_⟩⟩
                · exact congrArg some (here.symm.trans first)
                · exact fun field later => same field (List.mem_cons_of_mem _ later)
          · rintro ⟨fits, later⟩
            have here := storeMembers_first platform rest vals
              (alignVal offset (platform.alignOf type)) target
              (before (alignVal offset (platform.alignOf type)) type)
            have run := @storeMembers_cons platform type rest val vals offset target _ fits
            obtain ⟨filled, finished, same⟩ := (ih shorter).mpr later
            refine ⟨filled, run.trans finished, ?_⟩
            intro field member
            rcases List.mem_cons.mp member with first | other
            · rw [first]
              have final := congrArg Prod.snd finished
              exact (congrFun (congrFun final _) _).symm.trans here
            · exact same field other

theorem structValues_takes {valueStruct : ValueStruct} {types : List GType} :
    ∀ {offset : Nat} {arr : List GValue}, structValues platform valueStruct offset types = some arr →
      List.Forall₂ (fun field value => getStructVal field.2 (valueStruct field.1 field.2) =
        some value) (fields platform.layout offset types) arr := by
  induction types with
  | nil =>
      intro offset arr taken
      cases taken
      exact List.Forall₂.nil
  | cons type rest ih =>
      intro offset arr taken
      rw [structValues] at taken
      split at taken
      · cases taken
      · next val first =>
          obtain ⟨vals, later, whole⟩ := Option.map_eq_some_iff.mp taken
          rw [← whole]
          exact List.Forall₂.cons first (ih later)

theorem isEqual_ptrArray (item : GValue) (arr : List GValue) :
    item.isEqual (.ptrArray arr) = false := by
  by_contra equal
  have same := GValue.isEqual_gtype (by simpa using equal)
  cases item <;> cases same <;> exact equal rfl

theorem isEqual_ptrArray_any (arr : List GValue) (item : Option GValue) :
    item.any (GValue.isEqual · (.ptrArray arr)) = false := by
  cases item <;> simp [isEqual_ptrArray]

theorem readsBack_iff {cache : EsconfCache} {valueStruct : ValueStruct}
    {memberTypes : List GType} {arr : List GValue} (named : cache.channelName = channel.channelName)
    (cached : cache.properties (channel.realProp property) = some (.ptrArray arr))
    (some_member : memberTypes ≠ []) :
    ReadsBack platform daemon channel property cache valueStruct memberTypes ↔
      List.Forall₂ (fun field value => setStructVal field.2 value =
        some (valueStruct field.1 field.2)) (fields platform.layout 0 memberTypes) arr := by
  have got : ∀ (reader : EsconfChannel) (target : ValueStruct),
      reader.channelName = channel.channelName → reader.propertyBase = channel.propertyBase →
      reader.cache = cache →
      (esconfChannelGetStructv platform daemon reader property target memberTypes).ret =
        if arr.length = memberTypes.length then storeMembers platform 0 memberTypes arr target
        else (false, target) := by
    intro reader target _ based same
    have name : reader.realProp property = channel.realProp property := by
      rw [EsconfChannel.realProp, EsconfChannel.realProp, based]
    have found : (lookupIn daemon reader.cache (reader.realProp property)).ret =
        some (.ptrArray arr) := by
      rw [lookupIn, esconfCacheLookupLocked, same, name, cached]
    rw [esconfChannelGetStructv, if_neg some_member, esconfChannelGetArrayv,
      esconfChannelGetInternal]
    simp only [found, Option.bind_some]
    cases arr with
    | nil =>
        rw [if_neg]
        intro same
        exact some_member (List.length_eq_zero_iff.mp same.symm)
    | cons first rest => simp only [ne_eq, ite_not]
  constructor
  · intro reads
    let reader : EsconfChannel := ⟨channel.channelName, channel.propertyBase, cache, named⟩
    obtain ⟨filled, ret, same⟩ := reads reader valueStruct rfl rfl rfl
    rw [got reader valueStruct rfl rfl rfl] at ret
    by_cases length : arr.length = memberTypes.length
    · rw [if_pos length] at ret
      exact (storeMembers_fits length).mp ⟨filled, ret, same⟩
    · rw [if_neg length] at ret
      cases ret
  · intro fits reader target same based kept
    have length : arr.length = memberTypes.length := by
      rw [← fits.length_eq, fields_length]
    rw [got reader target same based kept, if_pos length]
    exact (storeMembers_fits length).mpr fits

theorem setStructv_cached {valueStruct : ValueStruct} {memberTypes : List GType}
    {outcome : Outcome Bool}
    (set : esconfChannelSetStructv platform host daemon channel property valueStruct memberTypes =
      some outcome) (returned : outcome.ret = true) :
    memberTypes ≠ [] ∧ outcome.cache.channelName = channel.channelName ∧ ∃ arr,
      List.Forall₂ (fun field value => getStructVal field.2 (valueStruct field.1 field.2) =
        some value) (fields platform.layout 0 memberTypes) arr ∧
      (∃ val, esconfGvalueToGvariant host (.ptrArray arr) = some val) ∧
      outcome.cache.properties (channel.realProp property) = some (.ptrArray arr) ∧
      outcome.request = some (.cacheSet (channel.realProp property) (.ptrArray arr)) := by
  rw [esconfChannelSetStructv] at set
  split at set
  · cases set
    cases returned
  · next some_member =>
      split at set
      · cases set
        cases returned
      · next arr taken =>
          rw [esconfChannelSetArrayv, esconfChannelSetInternal] at set
          obtain ⟨done, performed, same⟩ := Option.map_eq_some_iff.mp set
          cases same
          obtain ⟨named, cached, sent⟩ := esconfCacheSet_cached performed returned
          have differs := isEqual_ptrArray_any arr
            (esconfCacheLookupLocked channel.cache (channel.realProp property)
              (daemon.getProperty channel.cache.channelName (channel.realProp property))).1
          rw [itemAfterSet_differs differs] at cached
          exact ⟨some_member, named.trans channel.own, arr, structValues_takes taken, sent differs,
            cached, rfl⟩

theorem propertyChanged_ptrArray {later : EsconfCache} {name : CString} {echo : GVariant}
    {arr : List GValue} (settled : later.oldProperties name = none)
    (decoded : esconfGvariantToGvalue echo = some (.ptrArray arr)) :
    (esconfCacheHandlePropertyChanged later later.channelName name echo).1.properties name =
        some (.ptrArray arr) ∧
      (esconfCacheHandlePropertyChanged later later.channelName name echo).1.channelName =
        later.channelName := by
  rw [esconfCacheHandlePropertyChanged, if_neg (not_not.mpr rfl), settled, decoded]
  cases later.properties name with
  | none => simp [EsconfCache.insertProperty]
  | some item => simp [EsconfCache.insertProperty, esconfCacheItemUpdate, isEqual_ptrArray]

theorem kept_members {valueStruct : ValueStruct} {members : List (Nat × GType)}
    {arr : List GValue}
    (taken : List.Forall₂ (fun field value => getStructVal field.2
      (valueStruct field.1 field.2) = some value) members arr) :
    (List.Forall₂ (fun field value => setStructVal field.2 value =
        some (valueStruct field.1 field.2)) members arr ∧
      List.Forall₂ (fun field value => setStructVal field.2 value =
        some (valueStruct field.1 field.2)) members (arr.filterMap (travelled host))) ↔
      ∀ field ∈ members, KeptMember host field.2 (valueStruct field.1 field.2) := by
  induction taken with
  | nil => exact iff_of_true ⟨.nil, .nil⟩ (by simp)
  | @cons field value members arr first later ih =>
      rw [List.forall_mem_cons]
      constructor
      · rintro ⟨now, echoed⟩
        rw [List.forall₂_cons] at now
        cases sent : travelled host value with
        | none =>
            rw [List.filterMap_cons_none sent] at echoed
            have long := echoed.length_eq
            have short := List.length_filterMap_le (travelled host) arr
            have same := later.length_eq
            rw [List.length_cons] at long
            omega
        | some received =>
            rw [List.filterMap_cons_some sent, List.forall₂_cons] at echoed
            exact ⟨kept_of_value first now.1 sent echoed.1, ih.mp ⟨now.2, echoed.2⟩⟩
      · rintro ⟨kept, others⟩
        obtain ⟨now, echoed⟩ := ih.mpr others
        obtain ⟨sent, fits⟩ := kept_value first kept
        refine ⟨List.Forall₂.cons fits now, ?_⟩
        rw [List.filterMap_cons_some sent]
        exact List.Forall₂.cons fits echoed

/-- A struct that was set is read back, at once and after the echo, exactly if it has no
member of type char, float or a 16-bit type and its strings are valid. -/
theorem struct_round_trips_iff {valueStruct : ValueStruct} {memberTypes : List GType}
    {outcome : Outcome Bool}
    (set : esconfChannelSetStructv platform host daemon channel property valueStruct memberTypes =
      some outcome) (returned : outcome.ret = true) :
    RoundTrips platform host daemon channel property valueStruct memberTypes outcome ↔
      ∀ field ∈ fields platform.layout 0 memberTypes,
        KeptMember host field.2 (valueStruct field.1 field.2) := by
  obtain ⟨some_member, named, arr, taken, ⟨val, converted⟩, cached, request⟩ :=
    setStructv_cached set returned
  obtain ⟨echo, sent, decoded⟩ := echoes_ptrArray converted
  rw [← @kept_members host _ _ _ taken]
  constructor
  · rintro ⟨immediately, echoed⟩
    have heard := @propertyChanged_ptrArray (EsconfCache.new channel.channelName)
      (channel.realProp property) echo _ rfl decoded
    exact ⟨(readsBack_iff named cached some_member).mp immediately,
      (readsBack_iff heard.2 heard.1 some_member).mp (echoed _ _ _ echo rfl request rfl sent)⟩
  · rintro ⟨now, afterwards⟩
    constructor
    · exact (readsBack_iff named cached some_member).mpr now
    · intro later name value other same asked settled emitted
      rw [request] at asked
      cases asked
      rw [sent] at emitted
      cases emitted
      rw [← same]
      have heard := propertyChanged_ptrArray settled decoded
      exact (readsBack_iff (heard.2.trans same) heard.1 some_member).mpr afterwards

def Platform.packed : Platform := ⟨fun _ => 1, fun _ => 1, fun _ => Nat.one_pos⟩

def zeroMember : (type : GType) → CType type
  | .string => none
  | .uchar => (0 : UInt8)
  | .char => (0 : Int8)
  | .uint => (0 : UInt32)
  | .int => (0 : Int32)
  | .uint64 => (0 : UInt64)
  | .int64 => (0 : Int64)
  | .float => (0 : UInt32)
  | .double => (0 : UInt64)
  | .boolean => false
  | .uint16 => (0 : UInt16)
  | .int16 => (0 : Int16)
  | .invalid | .none | .strv | .ptrArray | .other _ => ()

def structOf (type : GType) (member : CType type) : ValueStruct :=
  store (fun _ => zeroMember) 0 member

/-- A struct with one 16-bit member is set but not read back. -/
theorem short_struct_lost :
    ∃ outcome, esconfChannelSetStructv .packed (Host.bare []) .ignorant (.new "c".toList)
        "/a".toList (structOf .uint16 7) [.uint16] = some outcome ∧ outcome.ret = true ∧
      ¬RoundTrips .packed (Host.bare []) .ignorant (.new "c".toList) "/a".toList
        (structOf .uint16 7) [.uint16] outcome := by
  refine ⟨_, rfl, rfl, ?_⟩
  intro trips
  have read := fun cache named (same : cache = _) =>
    trips.immediately ⟨"c".toList, none, cache, named⟩ (structOf .uint16 7) rfl rfl same
  obtain ⟨filled, ret, _⟩ := read _ rfl rfl
  cases ret

theorem plain_struct_kept :
    ∃ outcome, esconfChannelSetStructv .packed (Host.bare []) .ignorant (.new "c".toList)
        "/a".toList (structOf .uint 7) [.uint, .boolean] = some outcome ∧ outcome.ret = true ∧
      RoundTrips .packed (Host.bare []) .ignorant (.new "c".toList) "/a".toList
        (structOf .uint 7) [.uint, .boolean] outcome := by
  refine ⟨_, rfl, rfl, (struct_round_trips_iff rfl rfl).mpr ?_⟩
  intro field member
  simp only [fields, List.mem_cons, List.not_mem_nil, or_false] at member
  rcases member with first | second
  · rw [first]
    trivial
  · rw [second]
    trivial

end Esconf.Client
