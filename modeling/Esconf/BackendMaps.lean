import Esconf.Backend
import Esconf.XmlPolicy

/-! The property tree of a channel without locks is a pair of maps from names to
values, and the backend operations are operations on the maps. -/

namespace Esconf

open NamedTree

/-- The user and the system values of a channel; `invalid` where there is none. -/
structure PropMaps where
  user : CString → GValue
  system : CString → GValue

inductive PropRequest where
  | set (property : CString) (value : GValue)
  | reset (property : CString)
  | resetRecursive (property : CString)

namespace PropRequest

def property : PropRequest → CString
  | set property _ => property
  | reset property => property
  | resetRecursive property => property

end PropRequest

namespace PropMaps

def effective (maps : PropMaps) (name : CString) : GValue :=
  if (maps.user name).isSet then maps.user name else maps.system name

def step (maps : PropMaps) : PropRequest → PropMaps
  | .set property value =>
    if GValue.isEqual (maps.effective property) value then maps
    else { maps with user := fun name => if name = property then value else maps.user name }
  | .reset property =>
    { maps with user := fun name => if name = property then .invalid else maps.user name }
  | .resetRecursive property =>
    { maps with user := fun name =>
        if name = property ∨ (property ++ ['/']) <+: name then .invalid else maps.user name }

def succeeds (maps : PropMaps) : PropRequest → Option Bool
  | .set _ _ => some true
  | .reset property => some (maps.user property).isSet
  | .resetRecursive _ => none

end PropMaps

/-- A property tree holds what the maps say. -/
structure Represents (proptree : PropTree) (maps : PropMaps) : Prop where
  distinct : Distinct proptree
  unlocked : ∀ path, (proptree.slot path).locked = false
  user : ∀ name, propNameIsValid name = true →
    (proptree.slot (nameParts name)).value = maps.user name
  system : ∀ name, propNameIsValid name = true →
    (proptree.slot (nameParts name)).systemValue = maps.system name

namespace Represents

variable {proptree : PropTree} {maps : PropMaps}

theorem effective (represents : Represents proptree maps) {name : CString}
    (valid : propNameIsValid name = true) :
    (proptree.slot (nameParts name)).effective = maps.effective name := by
  rw [EsconfProperty.effective, PropMaps.effective, represents.user name valid,
    represents.system name valid]

theorem write (represents : Represents proptree maps) {after : PropTree} {property : CString}
    (valid : propNameIsValid property = true) (value : GValue) (distinct : Distinct after)
    (slots : ∀ path, after.slot path = if path = nameParts property then
      (proptree.slot path).withValue value else proptree.slot path) :
    Represents after
      { maps with user := fun name => if name = property then value else maps.user name } := by
  have other : ∀ name, propNameIsValid name = true → name ≠ property →
      nameParts name ≠ nameParts property :=
    fun name valid' apart same => apart (nameParts_inj valid' valid same)
  refine ⟨distinct, ?_, ?_, ?_⟩
  · intro path
    rw [slots]
    split <;> exact represents.unlocked path
  · intro name valid'
    rw [slots]
    by_cases same : name = property
    · rw [same, if_pos rfl]
      simp
    · rw [if_neg (other name valid' same)]
      simpa [same] using represents.user name valid'
  · intro name valid'
    rw [slots]
    split <;> exact represents.system name valid'

theorem keep (represents : Represents proptree maps) {after : PropTree} (distinct : Distinct after)
    (slots : ∀ path, after.slot path = proptree.slot path) : Represents after maps := by
  refine ⟨distinct, ?_, ?_, ?_⟩
  · intro path
    rw [slots]
    exact represents.unlocked path
  · intro name valid
    rw [slots]
    exact represents.user name valid
  · intro name valid
    rw [slots]
    exact represents.system name valid

theorem reset (represents : Represents proptree maps) {property : CString}
    (valid : propNameIsValid property = true) (set : (maps.user property).isSet = true) :
    ∃ after, proptreeReset proptree property = some after ∧
      Represents after (maps.step (.reset property)) := by
  rw [← represents.user property valid] at set
  obtain ⟨after, done, distinct, slots⟩ :=
    proptreeReset_spec valid represents.distinct represents.unlocked set
  exact ⟨after, done, represents.write valid .invalid distinct slots⟩

theorem reset_unset (represents : Represents proptree maps) {property : CString}
    (valid : propNameIsValid property = true) (unset : (maps.user property).isSet = false) :
    proptreeReset proptree property = none ∧ maps.step (.reset property) = maps := by
  refine ⟨proptreeReset_unset (by rw [represents.user property valid]; exact unset), ?_⟩
  rw [PropMaps.step]
  congr 1
  funext name
  split
  · next same => rw [same]; exact (GValue.isSet_eq_false.mp unset).symm
  · rfl

theorem resetBelow (represents : Represents proptree maps) {property : CString}
    (valid : propNameIsValid property = true) :
    Represents (Esconf.resetBelow proptree property) (maps.step (.resetRecursive property)) := by
  have slots := resetBelow_slot valid represents.distinct
  refine ⟨distinct_resetBelow property represents.distinct, ?_, ?_, ?_⟩
  · intro path
    rw [slots]
    split <;> exact represents.unlocked path
  · intro name valid'
    have order := below_iff_parts valid valid'
    rw [slots, PropMaps.step]
    by_cases below : nameParts property <+: nameParts name
    · rw [if_pos below]
      exact (if_pos (order.mpr below)).symm
    · rw [if_neg below]
      exact (represents.user name valid').trans (if_neg fun upper => below (order.mp upper)).symm
  · intro name valid'
    rw [slots]
    split <;> exact represents.system name valid'

theorem resetBelow_missing (represents : Represents proptree maps) {property : CString}
    (valid : propNameIsValid property = true)
    (missing : proptreeLookupNode proptree property = none) :
    Represents proptree (maps.step (.resetRecursive property)) := by
  have after := represents.resetBelow valid
  have absent : descend proptree (nameParts property) = none := by
    rwa [proptreeLookupNode, if_pos valid] at missing
  refine after.keep represents.distinct ?_
  intro path
  rw [resetBelow_slot valid represents.distinct]
  split
  · next inside =>
      obtain ⟨rest, rfl⟩ := inside
      have gone : descend proptree (nameParts property ++ rest) = none := by
        rw [descend_append, absent]
        rfl
      rw [PropTree.slot, lookup_of_missing gone]
      rfl
  · rfl

end Represents

variable (host : Host)

def PropRequest.perform (xbpx : EsconfBackendPerchannelXml) (channelName : CString) :
    PropRequest → Reply Unit
  | .set property value => perchannelXmlSet host xbpx channelName property value
  | .reset property => perchannelXmlReset host xbpx channelName property false
  | .resetRecursive property => perchannelXmlReset host xbpx channelName property true

def performAll (channelName : CString) : EsconfBackendPerchannelXml → List PropRequest →
    Option (List (Except GError Unit) × EsconfBackendPerchannelXml)
  | xbpx, [] => some ([], xbpx)
  | xbpx, request :: requests =>
    (request.perform host xbpx channelName).bind fun reply =>
      (performAll channelName reply.2 requests).map fun later => (reply.1 :: later.1, later.2)

def Holding (channelName : CString) (xbpx : EsconfBackendPerchannelXml) (maps : PropMaps) : Prop :=
  ∃ channel, xbpx.channels.lookup channelName = some channel ∧ Represents channel.properties maps

theorem holding_scheduleSave {channelName : CString} {xbpx : EsconfBackendPerchannelXml}
    {channel : EsconfChannel} {maps : PropMaps} (represents : Represents channel.properties maps) :
    Holding channelName (xbpx.scheduleSave channelName channel) maps :=
  ⟨_, AList.lookup_insert _, represents⟩

theorem perform_set {xbpx : EsconfBackendPerchannelXml} {channelName property : CString}
    {maps : PropMaps} (value : GValue) (holding : Holding channelName xbpx maps)
    (valid : propNameIsValid property = true) (short : property.length < maxPropPath) :
    ∃ after, (PropRequest.set property value).perform host xbpx channelName =
        some (.ok (), after) ∧
      Holding channelName after (maps.step (.set property value)) := by
  obtain ⟨channel, loaded, represents⟩ := holding
  rw [PropRequest.perform, perchannelXmlSet, findChannel_loaded host loaded]
  dsimp only
  rw [setIn, PropMaps.step, ← represents.effective valid]
  cases looked : proptreeLookup channel.properties property with
  | some prop =>
      have here := proptreeLookup_slot looked
      have unlocked : prop.locked = false := by rw [← here]; exact represents.unlocked _
      rw [here]
      dsimp only
      rw [unlocked, if_neg (by simp)]
      by_cases equal : GValue.isEqual prop.effective value = true
      · rw [if_pos equal, if_pos equal]
        exact ⟨xbpx, rfl, channel, loaded, represents⟩
      · rw [if_neg equal, if_neg equal]
        obtain ⟨_, node, found, _⟩ := proptreeLookup_some.mp looked
        refine ⟨_, rfl, holding_scheduleSave
          (represents.write valid value (distinct_update _ _ represents.distinct) ?_)⟩
        intro path
        rw [slot_update, found]
        by_cases same : path = nameParts property
        · rw [if_pos ⟨same, rfl⟩, if_pos same, same]
        · rw [if_neg fun clash => same clash.1, if_neg same]
  | none =>
      have blank := proptreeLookup_none_slot valid looked
      obtain ⟨grown, done, _, slots, distinct⟩ :=
        proptreeAddProperty_spec value false valid short looked
      have written : Represents grown { maps with
          user := fun name => if name = property then value else maps.user name } := by
        refine represents.write valid value (distinct represents.distinct) ?_
        intro path
        rw [slots]
        split
        · next same => rw [same, blank]; rfl
        · rfl
      dsimp only
      rw [done, blank]
      by_cases equal : GValue.isEqual EsconfProperty.blank.effective value = true
      · have unset : value = .invalid := by
          by_contra set
          have isSet : value.isSet = true := by simpa using mt GValue.isSet_eq_false.mp set
          change GValue.isEqual .invalid value = true at equal
          rw [GValue.isEqual_invalid_left isSet] at equal
          cases equal
        rw [if_pos equal]
        refine ⟨_, rfl, holding_scheduleSave (represents.keep written.distinct ?_)⟩
        intro path
        change grown.slot path = _
        rw [slots, unset]
        split
        · next same => rw [same, blank]; rfl
        · rfl
      · rw [if_neg equal]
        exact ⟨_, rfl, holding_scheduleSave written⟩

theorem perform_reset {xbpx : EsconfBackendPerchannelXml} {channelName property : CString}
    {maps : PropMaps} (holding : Holding channelName xbpx maps)
    (valid : propNameIsValid property = true) :
    ∃ reply after, (PropRequest.reset property).perform host xbpx channelName =
        some (reply, after) ∧ reply.isOk = (maps.user property).isSet ∧
      Holding channelName after (maps.step (.reset property)) := by
  obtain ⟨channel, loaded, represents⟩ := holding
  rw [PropRequest.perform, perchannelXmlReset, onChannel_loaded host loaded]
  cases set : (maps.user property).isSet with
  | true =>
      obtain ⟨after, done, represents'⟩ := represents.reset valid set
      dsimp only
      rw [done]
      exact ⟨_, _, rfl, rfl, holding_scheduleSave represents'⟩
  | false =>
      obtain ⟨refused, same⟩ := represents.reset_unset valid set
      dsimp only
      rw [refused, same]
      exact ⟨_, _, rfl, rfl, channel, loaded, represents⟩

theorem perform_resetRecursive {xbpx : EsconfBackendPerchannelXml}
    {channelName property : CString} {maps : PropMaps} (holding : Holding channelName xbpx maps)
    (valid : propNameIsValid property = true) :
    ∃ reply after, (PropRequest.resetRecursive property).perform host xbpx channelName =
        some (reply, after) ∧
      Holding channelName after (maps.step (.resetRecursive property)) := by
  obtain ⟨channel, loaded, represents⟩ := holding
  have long : 2 ≤ property.length := by
    obtain ⟨c, rest, rfl, _⟩ := propNameIsValid_iff.mp valid
    simp
  rw [PropRequest.perform, perchannelXmlReset, onChannel_loaded host loaded]
  simp only [Bool.not_true, Bool.false_eq_true, ↓reduceIte, long]
  cases looked : proptreeLookupNode channel.properties property with
  | none => exact ⟨_, _, rfl, channel, loaded, represents.resetBelow_missing valid looked⟩
  | some top => exact ⟨_, _, rfl, holding_scheduleSave (represents.resetBelow valid)⟩

/-- One request takes the backend from what the maps say to what the next maps
say, and is answered as they say. -/
theorem perform_refines {xbpx : EsconfBackendPerchannelXml} {channelName : CString}
    {maps : PropMaps} (holding : Holding channelName xbpx maps) (request : PropRequest)
    (valid : propNameIsValid request.property = true)
    (short : request.property.length < maxPropPath) :
    ∃ reply after, request.perform host xbpx channelName = some (reply, after) ∧
      (∀ success, maps.succeeds request = some success → reply.isOk = success) ∧
      Holding channelName after (maps.step request) := by
  cases request with
  | set property value =>
      obtain ⟨after, done, holding'⟩ := perform_set host value holding valid short
      refine ⟨_, after, done, ?_, holding'⟩
      intro success said
      cases said
      rfl
  | reset property =>
      obtain ⟨reply, after, done, answered, holding'⟩ := perform_reset host holding valid
      refine ⟨reply, after, done, ?_, holding'⟩
      intro success said
      cases said
      exact answered
  | resetRecursive property =>
      obtain ⟨reply, after, done, holding'⟩ := perform_resetRecursive host holding valid
      exact ⟨reply, after, done, nofun, holding'⟩

def PropMaps.foresee : PropMaps → List PropRequest → List (Option Bool)
  | _, [] => []
  | maps, request :: requests => maps.succeeds request :: foresee (maps.step request) requests

def AsForeseen (foreseen : Option Bool) (reply : Except GError Unit) : Prop :=
  ∀ success, foreseen = some success → reply.isOk = success

theorem performAll_refines {xbpx : EsconfBackendPerchannelXml} {channelName : CString}
    {maps : PropMaps} (holding : Holding channelName xbpx maps) (requests : List PropRequest)
    (valid : ∀ request ∈ requests, propNameIsValid request.property = true ∧
      request.property.length < maxPropPath) :
    ∃ replies after, performAll host channelName xbpx requests = some (replies, after) ∧
      List.Forall₂ AsForeseen (maps.foresee requests) replies ∧
      Holding channelName after (requests.foldl PropMaps.step maps) := by
  induction requests generalizing xbpx maps with
  | nil => exact ⟨[], xbpx, rfl, .nil, holding⟩
  | cons request requests ih =>
      obtain ⟨first, short⟩ := valid request (by simp)
      obtain ⟨reply, middle, done, answered, holding'⟩ :=
        perform_refines host holding request first short
      obtain ⟨replies, after, later, foreseen, holding''⟩ :=
        ih holding' fun next member => valid next (List.mem_cons_of_mem _ member)
      refine ⟨reply :: replies, after, ?_, .cons answered foreseen, holding''⟩
      rw [performAll, done, Option.bind_some, later]
      rfl

def initialMaps (proptree : PropTree) : PropMaps where
  user name := (proptree.slot (nameParts name)).value
  system name := (proptree.slot (nameParts name)).systemValue

/-- On a loaded channel without locks, every sequence of sets and resets of
accepted names is a sequence of operations on the two maps: the tree stays well
formed, the requests are answered as the maps say, and afterwards every getter
gives what the maps give. -/
theorem channel_refines_maps (xbpx : EsconfBackendPerchannelXml) (channelName : CString)
    (channel : EsconfChannel) (loaded : xbpx.channels.lookup channelName = some channel)
    (distinct : Distinct channel.properties)
    (unlocked : All (fun prop => prop.locked = false) channel.properties)
    (requests : List PropRequest)
    (accepted : ∀ request ∈ requests, esconfPropertyIsValid request.property = none ∧
      request.property.length < maxPropPath) :
    ∃ replies after channel',
      performAll host channelName xbpx requests = some (replies, after) ∧
      after.channels.lookup channelName = some channel' ∧ Distinct channel'.properties ∧
      List.Forall₂ AsForeseen ((initialMaps channel.properties).foresee requests) replies ∧
      ∀ name, esconfPropertyIsValid name = none →
        let value := (requests.foldl PropMaps.step (initialMaps channel.properties)).effective name
        perchannelXmlGet host after channelName name = some
            (if value.isSet then .ok value else .error (propertyNotFound name channelName), after) ∧
          perchannelXmlExists host after channelName name = some (.ok value.isSet, after) := by
  have start : Holding channelName xbpx (initialMaps channel.properties) :=
    ⟨channel, loaded, distinct, unlocked.lookup rfl, fun _ _ => rfl, fun _ _ => rfl⟩
  obtain ⟨replies, after, done, foreseen, channel', loaded', represents⟩ :=
    performAll_refines host start requests fun request member =>
      ⟨propNameIsValid_of_property (accepted request member).1, (accepted request member).2⟩
  refine ⟨replies, after, channel', done, loaded', represents.distinct, foreseen, ?_⟩
  intro name accepted'
  have valid := propNameIsValid_of_property accepted'
  have same : effectiveAt channel' name = PropMaps.effective _ name :=
    (effectiveAt_slot valid).trans (represents.effective valid)
  constructor
  · rw [perchannelXmlGet, onChannel_loaded host loaded', same]
    split <;> rfl
  · rw [perchannelXmlExists, findChannel_loaded host loaded', ← same]

/-- Setting a value below "/a" and taking it back leaves the other one. -/
theorem channel_refines_maps_siblings :
    ∃ replies after channel',
      performAll (.bare []) "c".toList (.idle (.singleton "c".toList .root))
          [.set "/a/b".toList (.int 1), .set "/a/c".toList (.int 2), .reset "/a/b".toList] =
        some (replies, after) ∧
      after.channels.lookup "c".toList = some channel' ∧ Distinct channel'.properties ∧
      perchannelXmlGet (.bare []) after "c".toList "/a/c".toList = some (.ok (.int 2), after) := by
  have root : Distinct EsconfChannel.root.properties := .node (by simp) nofun
  have unlocked : All (fun prop => prop.locked = false) EsconfChannel.root.properties :=
    .node rfl nofun
  obtain ⟨replies, after, channel', done, loaded, distinct, _, values⟩ :=
    channel_refines_maps (.bare []) (.idle (.singleton "c".toList .root)) "c".toList .root rfl root
      unlocked
      [.set "/a/b".toList (.int 1), .set "/a/c".toList (.int 2), .reset "/a/b".toList]
      (by decide)
  exact ⟨replies, after, channel', done, loaded, distinct, (values "/a/c".toList (by decide)).1⟩

end Esconf
