import Esconf.Cache

/-! The channel objects of the client library, `esconf/esconf-channel.c`: the names they
pass on to the cache and the daemon, and the names they announce. -/

namespace Esconf.Client

/-- How the daemon answers the calls the library waits for. -/
structure Daemon where
  getProperty : CString → CString → Except DBusError GVariant
  getAllProperties : CString → CString → Except DBusError (List (CString × GVariant))
  resetProperty : CString → CString → Bool → Except DBusError Unit
  isPropertyLocked : CString → CString → Except DBusError Bool

inductive ChannelRequest where
  | cacheLookup (property : CString)
  | cacheSet (property : CString) (value : GValue)
  | cacheReset (propertyBase : CString) (recursive : Bool)
  | getAllProperties (channelName propertyBase : CString)
  | isPropertyLocked (channelName property : CString)

/-- An `EsconfChannel` of the library, whose cache was made with its name. -/
structure EsconfChannel where
  channelName : CString
  propertyBase : Option CString
  cache : EsconfCache
  own : cache.channelName = channelName

/-- What an operation returns, the cache after it and the request it made. -/
structure Outcome (α : Type) where
  ret : α
  cache : EsconfCache
  request : Option ChannelRequest

namespace EsconfChannel

/-- `esconf_channel_new`, before anything is fetched. -/
def new (channelName : CString) : EsconfChannel :=
  ⟨channelName, none, EsconfCache.new channelName, rfl⟩

def withBase (channel : EsconfChannel) (propertyBase : CString) : EsconfChannel :=
  { channel with propertyBase := some propertyBase }

def plain (channel : EsconfChannel) : EsconfChannel := { channel with propertyBase := none }

/-- `REAL_PROP`. -/
def realProp (channel : EsconfChannel) (property : CString) : CString :=
  match channel.propertyBase with
  | some propertyBase => propertyBase ++ property
  | none => property

end EsconfChannel

/-- `esconf_cache_lookup` for a channel, the daemon answering. -/
def lookupIn (daemon : Daemon) (cache : EsconfCache) (property : CString) :
    Outcome (Option GValue) :=
  let looked := esconfCacheLookupLocked cache property
    (daemon.getProperty cache.channelName property)
  ⟨looked.1, looked.2.2, some (.cacheLookup property)⟩

/-- `esconf_channel_set_internal`; `none` when the old item has been freed. -/
def esconfChannelSetInternal (host : Host) (daemon : Daemon) (channel : EsconfChannel)
    (property : CString) (value : GValue) : Option (Outcome Bool) :=
  let realProperty := channel.realProp property
  (esconfCacheSet host channel.cache realProperty value
    (daemon.getProperty channel.cache.channelName realProperty)).map fun done =>
      ⟨done.ret, done.cache, some (.cacheSet realProperty value)⟩

/-- `esconf_channel_get_internal`, `transform` being `g_value_transform` and `wanted` the
type of the GValue to fill, if it has one. -/
def esconfChannelGetInternal (transform : GValue → GType → Option GValue) (daemon : Daemon)
    (channel : EsconfChannel) (property : CString) (wanted : Option GType) :
    Outcome (Option GValue) :=
  let looked := lookupIn daemon channel.cache (channel.realProp property)
  { looked with
    ret := looked.ret.bind fun value =>
      match wanted with
      | none => some value
      | some type => transform value type }

/-- `esconf_channel_has_property`. -/
def esconfChannelHasProperty (daemon : Daemon) (channel : EsconfChannel) (property : CString) :
    Outcome Bool :=
  let looked := lookupIn daemon channel.cache (channel.realProp property)
  ⟨looked.ret.isSome, looked.cache, looked.request⟩

/-- `esconf_channel_is_property_locked`. -/
def esconfChannelIsPropertyLocked (daemon : Daemon) (channel : EsconfChannel)
    (property : CString) : Outcome Bool :=
  -- The property base is not put in front here.
  let locked := match daemon.isPropertyLocked channel.channelName property with
    | .ok locked => locked
    | .error _ => false
  ⟨locked, channel.cache, some (.isPropertyLocked channel.channelName property)⟩

/-- `esconf_channel_reset_property`. -/
def esconfChannelResetProperty (daemon : Daemon) (channel : EsconfChannel)
    (propertyBase : CString) (recursive : Bool) : Outcome Unit :=
  let realPropertyBase := channel.realProp propertyBase
  -- The check looks at the name as it was given, without the base.
  if 2 ≤ propertyBase.length ∨ recursive = true then
    let reset := esconfCacheReset channel.cache realPropertyBase recursive
      (daemon.resetProperty channel.cache.channelName realPropertyBase recursive)
    ⟨(), reset.2.2, some (.cacheReset realPropertyBase recursive)⟩
  else ⟨(), channel.cache, none⟩

/-- `esconf_gvariant_to_hash`, the entries in the order they are inserted. -/
def esconfGvariantToHash (entries : List (CString × GVariant)) :
    List (CString × Option GValue) :=
  entries.map fun entry => (entry.1, esconfGvariantToGvalue entry.2)

/-- `esconf_channel_get_properties`. -/
def esconfChannelGetProperties (daemon : Daemon) (channel : EsconfChannel)
    (propertyBase : CString) : Outcome (Option (List (CString × Option GValue))) :=
  let realPropertyBase :=
    if propertyBase = "/".toList then channel.propertyBase
    else some (channel.realProp propertyBase)
  let asked := realPropertyBase.getD "/".toList
  ⟨(daemon.getAllProperties channel.channelName asked).toOption.map esconfGvariantToHash,
    channel.cache, some (.getAllProperties channel.channelName asked)⟩

/-- `esconf_channel_property_changed`: the signal of the channel, if it is emitted. -/
def esconfChannelPropertyChanged (channel : EsconfChannel) (channelName property : CString)
    (value : GValue) : Announced :=
  if channelName ≠ channel.channelName then none
  else match channel.propertyBase with
    | none => some (property, value)
    | some propertyBase =>
      if propertyBase.isPrefixOf property then
        -- A name that only starts like the base is cut like one below it.
        let rest := property.drop propertyBase.length
        some (if rest = [] then "/".toList else rest, value)
      else none

/-- The signal of a channel for one of its cache. -/
def EsconfChannel.announce (channel : EsconfChannel) (announced : Announced) : Announced :=
  announced.bind fun signal =>
    esconfChannelPropertyChanged channel channel.cache.channelName signal.1 signal.2

/-- A channel with a base announces the changes at and below its base, by their names
relative to it. -/
structure AnnouncesBelow (propertyBase : CString) (announced : CString × GValue)
    (emitted : Announced) : Prop where
  emits : emitted.isSome = true ↔
    announced.1 = propertyBase ∨ propertyBase ++ "/".toList <+: announced.1
  base : announced.1 = propertyBase → emitted = some ("/".toList, announced.2)
  below : announced.1 ≠ propertyBase → ∀ signal, emitted = some signal →
    signal.2 = announced.2 ∧ (∃ rest, signal.1 = '/' :: rest) ∧
      announced.1 = propertyBase ++ signal.1

theorem announce_withBase (channel : EsconfChannel) (propertyBase : CString)
    (announced : CString × GValue) :
    (channel.withBase propertyBase).announce (some announced) =
      if propertyBase <+: announced.1 then
        some (if announced.1 = propertyBase then "/".toList
          else announced.1.drop propertyBase.length, announced.2)
      else none := by
  have own : ¬channel.cache.channelName ≠ (channel.withBase propertyBase).channelName :=
    not_not.mpr channel.own
  change esconfChannelPropertyChanged _ channel.cache.channelName _ _ = _
  rw [esconfChannelPropertyChanged, if_neg own]
  change (if propertyBase.isPrefixOf announced.1 = true then _ else _) = _
  by_cases below : propertyBase <+: announced.1
  · rw [if_pos (List.isPrefixOf_iff_prefix.mpr below), if_pos below]
    obtain ⟨rest, whole⟩ := below
    rw [← whole, List.drop_left]
    cases rest with
    | nil => simp
    | cons c rest => simp
  · rw [if_neg (fun same => below (List.isPrefixOf_iff_prefix.mp same)), if_neg below]

/-- The announcement is as it should be exactly if the name does not go on, after the
base, with something else than a slash. -/
theorem announces_below_iff (channel : EsconfChannel) (propertyBase : CString)
    (announced : CString × GValue) :
    AnnouncesBelow propertyBase announced
        ((channel.withBase propertyBase).announce (some announced)) ↔
      ∀ c rest, announced.1 = propertyBase ++ c :: rest → c = '/' := by
  obtain ⟨name, value⟩ := announced
  rw [announce_withBase]
  constructor
  · intro right c rest split
    have below : propertyBase <+: name := ⟨c :: rest, split.symm⟩
    have apart : name ≠ propertyBase := by
      intro same
      have none : propertyBase ++ c :: rest = propertyBase ++ [] := by
        rw [List.append_nil]
        exact split.symm.trans same
      cases List.append_cancel_left none
    have emitted := right.emits.mp (by rw [if_pos below]; rfl)
    obtain ⟨later, whole⟩ := emitted.resolve_left apart
    have both : propertyBase ++ '/' :: later = propertyBase ++ c :: rest := by
      rw [← split, ← whole, List.append_assoc]
      rfl
    cases List.append_cancel_left both
    rfl
  · intro slash
    constructor
    · constructor
      · intro emitted
        by_cases below : propertyBase <+: name
        · obtain ⟨rest, whole⟩ := below
          cases rest with
          | nil =>
              left
              simpa using whole.symm
          | cons c rest =>
              right
              have isSlash := slash c rest whole.symm
              exact ⟨rest, by rw [← whole, isSlash]; simp⟩
        · rw [if_neg below] at emitted
          cases emitted
      · intro covered
        rw [if_pos]
        · rfl
        · rcases covered with same | inside
          · exact ⟨[], by rw [List.append_nil]; exact same.symm⟩
          · exact (List.prefix_append _ _).trans inside
    · intro same
      have here : name = propertyBase := same
      rw [here, if_pos (List.prefix_refl _), if_pos rfl]
    · intro apart signal emitted
      by_cases below : propertyBase <+: name
      · rw [if_pos below, if_neg apart] at emitted
        cases emitted
        obtain ⟨rest, whole⟩ := below
        have tail : name.drop propertyBase.length = rest := by rw [← whole, List.drop_left]
        change _ ∧ (∃ _, name.drop _ = _) ∧ name = _ ++ name.drop _
        rw [tail]
        refine ⟨rfl, ?_, whole.symm⟩
        cases rest with
        | nil =>
            exfalso
            apply apart
            simpa using whole.symm
        | cons c rest => exact ⟨rest, by rw [slash c rest whole.symm]⟩
      · rw [if_neg below] at emitted
        cases emitted

/-- A channel for "/panel" takes a change of "/panels" for one of its own. -/
theorem sibling_announced :
    ((EsconfChannel.new "c".toList).withBase "/panel".toList).announce
        (some ("/panels".toList, .int 1)) = some ("s".toList, .int 1) ∧
      ¬AnnouncesBelow "/panel".toList ("/panels".toList, .int 1)
        (((EsconfChannel.new "c".toList).withBase "/panel".toList).announce
          (some ("/panels".toList, .int 1))) := by
  refine ⟨by decide, ?_⟩
  intro right
  have covered := right.emits.mp (by decide)
  revert covered
  decide

inductive Operation where
  | set (value : GValue)
  | get (wanted : Option GType)
  | hasProperty
  | resetProperty (recursive : Bool)
  | getProperties
  | isPropertyLocked

inductive Returned where
  | boolean (b : Bool)
  | value (value : Option GValue)
  | table (entries : Option (List (CString × Option GValue)))
  | nothing

def Outcome.map {α β : Type} (f : α → β) (outcome : Outcome α) : Outcome β :=
  ⟨f outcome.ret, outcome.cache, outcome.request⟩

/-- An operation on a property; `none` when the library does not survive it. -/
def Operation.perform (host : Host) (transform : GValue → GType → Option GValue)
    (daemon : Daemon) (channel : EsconfChannel) (property : CString) :
    Operation → Option (Outcome Returned)
  | set value =>
      (esconfChannelSetInternal host daemon channel property value).map (Outcome.map .boolean)
  | get wanted =>
      some ((esconfChannelGetInternal transform daemon channel property wanted).map .value)
  | hasProperty => some ((esconfChannelHasProperty daemon channel property).map .boolean)
  | resetProperty recursive =>
      some ((esconfChannelResetProperty daemon channel property recursive).map fun _ => .nothing)
  | getProperties => some ((esconfChannelGetProperties daemon channel property).map .table)
  | isPropertyLocked =>
      some ((esconfChannelIsPropertyLocked daemon channel property).map .boolean)

/-- On the channel with the base the operation does, with a property, what it does on the
plain channel with the base and the property. -/
def Operation.Views (channel : EsconfChannel) (propertyBase property : CString)
    (operation : Operation) : Prop :=
  ∀ host transform daemon,
    operation.perform host transform daemon (channel.withBase propertyBase) property =
      operation.perform host transform daemon channel.plain (propertyBase ++ property)

/-- The base is empty, or the operation is no lock query and, where it is the reset of a
single property, its name has more than one character. -/
def Operation.KeepsName (propertyBase property : CString) (operation : Operation) : Prop :=
  propertyBase = [] ∨ match operation with
    | isPropertyLocked => False
    | resetProperty false => 2 ≤ property.length
    | _ => True

def Daemon.ignorant : Daemon where
  getProperty := fun _ _ => .error propertyNotFoundReply
  getAllProperties := fun _ _ => .ok []
  resetProperty := fun _ _ _ => .ok ()
  isPropertyLocked := fun _ _ => .ok false

theorem views_get (channel : EsconfChannel) (propertyBase property : CString)
    (wanted : Option GType) : (Operation.get wanted).Views channel propertyBase property := by
  intro host transform daemon
  rfl

theorem views_getProperties (channel : EsconfChannel) (propertyBase property : CString)
    (whole : property ≠ "/".toList) :
    Operation.getProperties.Views channel propertyBase property := by
  intro host transform daemon
  have asked : (if property = "/".toList then (channel.withBase propertyBase).propertyBase
      else some ((channel.withBase propertyBase).realProp property)).getD "/".toList =
      (if propertyBase ++ property = "/".toList then channel.plain.propertyBase
        else some (channel.plain.realProp (propertyBase ++ property))).getD "/".toList := by
    rw [if_neg whole]
    split
    · next root => exact root
    · rfl
  change some (Outcome.map _ ⟨_, _, _⟩) = some (Outcome.map _ ⟨_, _, _⟩)
  rw [asked]
  rfl

/-- An operation on a channel with a base is the operation on the plain channel exactly
if the base is empty, or it is no lock query and no single reset of a one-letter name. -/
theorem views_iff (channel : EsconfChannel) (propertyBase property : CString)
    (operation : Operation) (full : property ≠ []) (whole : property ≠ "/".toList) :
    operation.Views channel propertyBase property ↔
      operation.KeepsName propertyBase property := by
  have length : 0 < property.length := List.length_pos_iff.mpr full
  cases operation with
  | set value => exact iff_of_true (fun _ _ _ => rfl) (Or.inr trivial)
  | get wanted => exact iff_of_true (views_get channel propertyBase property wanted) (Or.inr trivial)
  | hasProperty => exact iff_of_true (fun _ _ _ => rfl) (Or.inr trivial)
  | getProperties =>
      exact iff_of_true (views_getProperties channel propertyBase property whole) (Or.inr trivial)
  | isPropertyLocked =>
      constructor
      · intro views
        -- The request has no base in front of the name.
        have same := congrArg (Option.map Outcome.request)
          (views (Host.bare []) (fun value _ => some value) .ignorant)
        left
        simpa [Operation.perform, esconfChannelIsPropertyLocked, Outcome.map,
          EsconfChannel.withBase, EsconfChannel.plain] using same
      · intro keeps host transform daemon
        have empty := keeps.resolve_right id
        rw [empty]
        rfl
  | resetProperty recursive =>
      constructor
      · intro views
        have same := congrArg (Option.map Outcome.request)
          (views (Host.bare []) (fun value _ => some value) .ignorant)
        cases recursive with
        | true => exact Or.inr trivial
        | false =>
            -- A name of one character is refused, and with the base in front it is not.
            by_contra keeps
            obtain ⟨based, short⟩ := not_or.mp keeps
            have one : property.length < 2 := Nat.lt_of_not_le short
            have two : 2 ≤ (propertyBase ++ property).length := by
              have more := List.length_pos_iff.mpr based
              rw [List.length_append]
              omega
            have refused : ¬(2 ≤ property.length ∨ false = true) := by
              simp only [Bool.false_eq_true, or_false]
              omega
            rw [Operation.perform, Operation.perform, esconfChannelResetProperty,
              esconfChannelResetProperty, if_neg refused, if_pos (Or.inl two)] at same
            cases same
      · intro keeps host transform daemon
        rcases keeps with empty | allowed
        · rw [empty]
          rfl
        · have first : 2 ≤ property.length ∨ recursive = true := by
            cases recursive with
            | true => exact Or.inr rfl
            | false => exact Or.inl allowed
          have second : 2 ≤ (propertyBase ++ property).length ∨ recursive = true := by
            rcases first with long | all
            · left
              rw [List.length_append]
              omega
            · exact Or.inr all
          rw [Operation.perform, Operation.perform, esconfChannelResetProperty,
            esconfChannelResetProperty, if_pos first, if_pos second]
          rfl

/-- The lock of "/panel/size" is asked for by the name "/size". -/
theorem lock_query_not_view :
    ¬Operation.isPropertyLocked.Views (.new "c".toList) "/panel".toList "/size".toList := by
  intro views
  have same := congrArg (Option.map Outcome.request)
    (views (Host.bare []) (fun value _ => some value) .ignorant)
  simp [Operation.perform, esconfChannelIsPropertyLocked, Outcome.map,
    EsconfChannel.withBase, EsconfChannel.plain] at same

theorem reset_views_panel :
    (Operation.resetProperty false).Views (.new "c".toList) "/panel".toList "/size".toList :=
  (views_iff (.new "c".toList) "/panel".toList "/size".toList (.resetProperty false)
    (by decide) (by decide)).mpr (Or.inr (by decide))

end Esconf.Client
