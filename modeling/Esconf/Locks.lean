import Esconf.BackendMaps
import Esconf.ChannelFrames
import Esconf.ChannelPolicy

/-! Locked properties: what the lock query promises of a set, and how long a
lock lasts. -/

namespace Esconf

open NamedTree

variable (host : Host)

theorem findChannel_again {xbpx middle : EsconfBackendPerchannelXml} {channelName key : CString}
    {channel : EsconfChannel}
    (found : findChannel host xbpx channelName = some (.ok (key, channel), middle)) :
    ∃ key' after, findChannel host middle channelName = some (.ok (key', channel), after) ∧
      after.notices = middle.notices ∧ after.disk = middle.disk ∧
      ∀ name, after.channels.lookup name = middle.channels.lookup name := by
  unfold findChannel at found
  split at found
  · next here =>
      cases found
      exact ⟨channelName, xbpx, findChannel_loaded host here, rfl, rfl, fun _ => rfl⟩
  · next missing =>
      split at found
      · cases found
      · cases found
      · next loaded =>
          cases found
          by_cases lower : channelName = gAsciiStrdown channelName
          · refine ⟨channelName, _, findChannel_loaded host ?_, rfl, rfl, fun _ => rfl⟩
            rw [EsconfBackendPerchannelXml.store_channels, ← lower]
            exact AList.lookup_insert _
          · refine ⟨gAsciiStrdown channelName, (xbpx.store (gAsciiStrdown channelName)
              channel).store (gAsciiStrdown channelName) channel, ?_, rfl, rfl, ?_⟩
            · unfold findChannel
              rw [EsconfBackendPerchannelXml.store_channels, AList.lookup_insert_ne lower, missing,
                EsconfBackendPerchannelXml.store_disk, loaded]
            · intro name
              by_cases same : name = gAsciiStrdown channelName
              · rw [same, EsconfBackendPerchannelXml.store_channels,
                  EsconfBackendPerchannelXml.store_channels, AList.lookup_insert,
                  AList.lookup_insert]
              · exact AList.lookup_insert_ne same

def LockedNode (channel : EsconfChannel) (property : CString) : Prop :=
  ∃ prop, proptreeLookup channel.properties property = some prop ∧ prop.locked = true

/-- The channel an operation on a name would work on. -/
def CurrentChannel (xbpx : EsconfBackendPerchannelXml) (channelName : CString)
    (channel : EsconfChannel) : Prop :=
  ∃ key after, findChannel host xbpx channelName = some (.ok (key, channel), after)

/-- A set that is refused for a lock, without a trace. -/
def RefusesSet (xbpx : EsconfBackendPerchannelXml) (channelName property : CString)
    (value : GValue) : Prop :=
  ∃ after error, esconfBackendSet host xbpx channelName property value =
      some (.error (some error), after) ∧
    error.code = .esconf .permissionDenied ∧ after.notices = xbpx.notices ∧
    ∀ other asked, (esconfBackendGet host after other asked).map Prod.fst =
      (esconfBackendGet host xbpx other asked).map Prod.fst

theorem setIn_locked {xbpx : EsconfBackendPerchannelXml} {key : CString} {channel : EsconfChannel}
    {channelName property : CString} (value : GValue) (locked : LockedNode channel property) :
    setIn xbpx key channel channelName property value =
      (.error (permissionDenied property channelName), xbpx) := by
  obtain ⟨prop, looked, lock⟩ := locked
  rw [setIn, looked]
  dsimp only
  rw [if_pos lock]

theorem setIn_open {xbpx : EsconfBackendPerchannelXml} {key : CString} {channel : EsconfChannel}
    {channelName property : CString} (value : GValue) (unlocked : ¬ LockedNode channel property) :
    (setIn xbpx key channel channelName property value).1 = .ok () := by
  unfold setIn
  split
  · next prop looked =>
      have free : prop.locked ≠ true := fun lock => unlocked ⟨prop, looked, lock⟩
      rw [if_neg free]
      split <;> rfl
  · rfl

theorem locked_query {xbpx middle : EsconfBackendPerchannelXml} {channelName property : CString}
    (asked : esconfBackendIsPropertyLocked host xbpx channelName property =
      some (.ok true, middle)) :
    esconfChannelIsValid channelName = none ∧ esconfPropertyIsValid property = none ∧
      ∃ key channel, findChannel host xbpx channelName = some (.ok (key, channel), middle) ∧
        (channel.locked = true ∨ LockedNode channel property) := by
  rcases checked_cases asked with ⟨error, refused⟩ | ⟨clear, inner, performed, outcome⟩
  · cases refused
  rw [List.findSome?_eq_none_iff] at clear
  refine ⟨clear _ List.mem_cons_self, clear _ (List.mem_cons_of_mem _ List.mem_cons_self), ?_⟩
  obtain ⟨reply, after⟩ := inner
  unfold perchannelXmlIsPropertyLocked onChannel at performed
  split at performed
  · cases performed
  · cases performed; cases outcome
  · next key channel reached found =>
      cases performed
      have state : middle = after := congrArg Prod.snd outcome
      subst state
      refine ⟨key, channel, found, ?_⟩
      have answer := congrArg Prod.fst outcome
      change Except.ok true = Except.ok _ at answer
      have locked := (Except.ok.inj answer).symm
      rw [Bool.or_eq_true] at locked
      rcases locked with whole | node
      · exact Or.inl whole
      · cases looked : proptreeLookup channel.properties property with
        | none => rw [looked] at node; cases node
        | some prop => rw [looked] at node; exact Or.inr ⟨prop, looked, node⟩

/-- When the query reports a lock, a set is refused exactly if the channel is not
locked as a whole or the property has a node that is locked. -/
theorem lock_query_enforced (xbpx middle : EsconfBackendPerchannelXml)
    (channelName property : CString) (value : GValue)
    (asked : esconfBackendIsPropertyLocked host xbpx channelName property =
      some (.ok true, middle)) :
    RefusesSet host middle channelName property value ↔
      ∃ channel, CurrentChannel host xbpx channelName channel ∧
        (channel.locked = false ∨ LockedNode channel property) := by
  obtain ⟨channelValid, propertyValid, key, channel, found, locked⟩ := locked_query host asked
  obtain ⟨key', after, again, notices, disk, entries⟩ := findChannel_again host found
  have set : esconfBackendSet host middle channelName property value =
      answer (some (setIn after key' channel channelName property value)) := by
    rw [esconfBackendSet, guarded_valid middle channelValid propertyValid, perchannelXmlSet, again]
  constructor
  · rintro ⟨last, error, refused, _⟩
    refine ⟨channel, ⟨key, middle, found⟩, Or.inr ?_⟩
    by_contra free
    rw [set] at refused
    have reply := congrArg Prod.fst (Option.some.inj refused)
    dsimp only at reply
    rw [setIn_open value free] at reply
    cases reply
  · rintro ⟨other, ⟨key₂, middle₂, found₂⟩, cause⟩
    rw [found] at found₂
    cases found₂
    have node : LockedNode channel property := by
      rcases cause with free | node
      · rcases locked with whole | node
        · rw [free] at whole; cases whole
        · exact node
      · exact node
    rw [setIn_locked value node] at set
    refine ⟨after, permissionDenied property channelName, set, rfl, notices, ?_⟩
    intro name asked'
    exact get_congr host (entries name) (fun _ _ => by rw [disk]) asked'

def kioskMachine : Host := { kioskHost with resourcePlaces := fun _ => [lockingName] }

def kioskBackend : EsconfBackendPerchannelXml := { fresh with disk := kioskDisk }

set_option maxRecDepth 4000 in
theorem lock_query_ignored :
    ∃ middle after,
      esconfBackendIsPropertyLocked kioskMachine kioskBackend "c".toList "/b".toList =
        some (.ok true, middle) ∧
      esconfBackendSet kioskMachine middle "c".toList "/b".toList (.int 5) = some (.ok (), after) ∧
      after.notices = [("c".toList, "/b".toList)] ∧
      esconfBackendGet kioskMachine after "c".toList "/b".toList = some (.ok (.int 5), after) :=
  ⟨_, _, rfl, rfl, rfl, rfl⟩

set_option maxRecDepth 4000 in
theorem lock_query_enforced_default :
    ∃ middle, esconfBackendIsPropertyLocked kioskMachine kioskBackend "c".toList "/a".toList =
        some (.ok true, middle) ∧
      RefusesSet kioskMachine middle "c".toList "/a".toList (.int 5) := by
  refine ⟨_, rfl, (lock_query_enforced kioskMachine kioskBackend _ "c".toList "/a".toList (.int 5)
    rfl).mpr ⟨_, ⟨_, _, rfl⟩, Or.inr ⟨_, rfl, rfl⟩⟩⟩

theorem mergeFile_user {disk : Disk} {filename : CString} {channel : EsconfChannel}
    {merged : Bool × EsconfChannel} (unlocked : channel.locked = false)
    (done : mergeFile host disk filename false channel = some merged) :
    UserOverlay channel.properties merged.2.properties := by
  cases here : disk filename with
  | none => rw [mergeFile, here] at done; cases done; exact .refl _
  | some contents =>
      rw [(mergeFile_read here done).2]
      exact (parseEvents_user host (userReading_start unlocked) _).overlay

theorem loadChannel_locked {disk : Disk} {channelName : CString} {channel : EsconfChannel}
    (done : loadChannel host disk channelName = some (.ok channel)) (path : List CString)
    (locked : (channel.properties.slot path).locked = true) :
    (channel.properties.slot path).value = .invalid := by
  unfold loadChannel at done
  dsimp only at done
  split at done
  · cases done
  obtain ⟨system, systemDone, userDone⟩ := Option.bind_eq_some_iff.mp done
  have clean := mergeSystemFiles_noUserValues (noUserValues_root false false) systemDone
  split at userDone
  · next filename _ =>
      split at userDone
      · cases userDone
        exact clean path
      · next unlocked =>
          obtain ⟨merged, mergedDone, same⟩ := Option.map_eq_some_iff.mp userDone
          cases same
          have overlay := mergeFile_user host (by simpa using unlocked) mergedDone
          rw [overlay.locked] at locked
          exact ((overlay.slots path).2.2 locked).trans (clean path)
  · cases userDone
    exact clean path

structure Pinned (channel : EsconfChannel) (path : List CString) (prop : EsconfProperty) : Prop where
  locked : prop.locked = true
  unset : prop.value = .invalid
  here : ∃ node, descend channel.properties path = some node ∧ node.data = prop

theorem loadChannel_pinned {disk : Disk} {channelName : CString} {channel : EsconfChannel}
    (done : loadChannel host disk channelName = some (.ok channel)) {path : List CString}
    (locked : (channel.properties.slot path).locked = true) :
    Pinned channel path (channel.properties.slot path) := by
  refine ⟨locked, loadChannel_locked host done path locked, ?_⟩
  cases found : descend channel.properties path with
  | none =>
      rw [PropTree.slot, lookup_of_missing found] at locked
      cases locked
  | some node => exact ⟨node, rfl, (lookup_of_descend found).symm⟩

variable {channel : EsconfChannel} {path : List CString} {prop : EsconfProperty}

theorem Pinned.of_kept (pinned : Pinned channel path prop) {after : EsconfChannel}
    (kept : ∀ node, descend channel.properties path = some node → node.data = prop →
      ∃ node', descend after.properties path = some node' ∧ node'.data = node.data) :
    Pinned after path prop := by
  obtain ⟨node, found, same⟩ := pinned.here
  obtain ⟨node', found', data⟩ := kept node found same
  exact ⟨pinned.locked, pinned.unset, node', found', data.trans same⟩

theorem Pinned.dirty (pinned : Pinned channel path prop) :
    Pinned { channel with dirty := true } path prop :=
  ⟨pinned.locked, pinned.unset, pinned.here⟩

theorem Pinned.lookup {property : CString} (valid : propNameIsValid property = true)
    (pinned : Pinned channel (nameParts property) prop) :
    proptreeLookup channel.properties property = some prop := by
  obtain ⟨node, found, same⟩ := pinned.here
  exact proptreeLookup_some.mpr ⟨valid, node, found, same⟩

theorem Pinned.resetBelow (pinned : Pinned channel path prop) (property : CString) :
    Pinned { channel with properties := Esconf.resetBelow channel.properties property } path
      prop := by
  refine pinned.of_kept ?_
  intro node found same
  by_cases inside : nameParts property <+: path
  · have unchanged : node.data.withValue .invalid = node.data :=
      EsconfProperty.withValue_unset (by rw [same]; exact pinned.unset)
    have alive : (node.data.withValue .invalid).dangling = false := by
      rw [unchanged, same, EsconfProperty.dangling, pinned.locked]
      simp
    obtain ⟨node', found', data⟩ := resetBelow_keeps inside found alive
    exact ⟨node', found', data.trans unchanged⟩
  · have aside : (descend (Esconf.resetBelow channel.properties property) path).map _ =
        (descend channel.properties path).map _ := resetBelow_aside inside
    rw [found] at aside
    exact Option.map_eq_some_iff.mp aside

/-- A non-recursive reset that does not find the locked property at the top of a
hollow chain down to the property it resets. -/
def Solid (xbpx : EsconfBackendPerchannelXml) (channelName : CString) (path : List CString) :
    PropRequest → Prop
  | .reset property => ∀ channel node rest, xbpx.channels.lookup channelName = some channel →
      descend channel.properties path = some node → nameParts property = path ++ rest →
      chainTo removableTip rest node = false
  | _ => True

def HoldsPinned (xbpx : EsconfBackendPerchannelXml) (channelName : CString) (path : List CString)
    (prop : EsconfProperty) : Prop :=
  ∃ channel, xbpx.channels.lookup channelName = some channel ∧ Pinned channel path prop

theorem HoldsPinned.save {xbpx : EsconfBackendPerchannelXml} {channelName : CString}
    (pinned : Pinned channel path prop) :
    HoldsPinned (xbpx.scheduleSave channelName channel) channelName path prop :=
  ⟨_, AList.lookup_insert _, pinned.dirty⟩

theorem perform_pinned {xbpx after : EsconfBackendPerchannelXml} {channelName : CString}
    {request : PropRequest} {reply : Except GError Unit}
    (holds : HoldsPinned xbpx channelName path prop)
    (long : 2 ≤ request.property.length)
    (solid : Solid xbpx channelName path request)
    (done : request.perform host xbpx channelName = some (reply, after)) :
    HoldsPinned after channelName path prop := by
  obtain ⟨channel, loaded, pinned⟩ := holds
  cases request with
  | set property value =>
      rw [PropRequest.perform, perchannelXmlSet, findChannel_loaded host loaded] at done
      have state := congrArg Prod.snd (Option.some.inj done)
      rw [← show _ = after from state, setIn]
      split
      · next found looked =>
          split
          · exact ⟨channel, loaded, pinned⟩
          · next unlocked =>
              split
              · exact ⟨channel, loaded, pinned⟩
              · refine .save (pinned.of_kept ?_)
                intro node here same
                refine descend_update_ne _ ?_ here
                rintro rfl
                obtain ⟨_, target, there, data⟩ := proptreeLookup_some.mp looked
                rw [here] at there
                cases there
                rw [← data, same] at unlocked
                exact unlocked pinned.locked
      · refine .save (pinned.of_kept ?_)
        intro node here _
        change ∃ node', descend ((proptreeAddProperty channel.properties property value
          false).getD _) path = _ ∧ _
        cases grown : proptreeAddProperty channel.properties property value false with
        | none => exact ⟨node, here, rfl⟩
        | some tree => exact proptreeAddProperty_extends grown path node here
  | reset property =>
      rw [PropRequest.perform, perchannelXmlReset, onChannel_loaded host loaded] at done
      have state := congrArg Prod.snd (Option.some.inj done)
      dsimp only at state
      rw [← state]
      simp only [Bool.not_false, ↓reduceIte]
      split
      · exact ⟨channel, loaded, pinned⟩
      · next tree reset =>
          refine .save (pinned.of_kept ?_)
          intro node here same
          refine proptreeReset_keeps here ?_ (fun rest => solid channel node rest loaded here) reset
          intro clash
          have slot : (channel.properties.slot (nameParts property)).value.isSet = false := by
            rw [← clash, PropTree.slot, lookup_of_descend here, same, pinned.unset]
            rfl
          rw [proptreeReset_unset slot] at reset
          cases reset
  | resetRecursive property =>
      rw [PropRequest.perform, perchannelXmlReset, onChannel_loaded host loaded] at done
      have state := congrArg Prod.snd (Option.some.inj done)
      dsimp only at state
      rw [← state]
      have full : 2 ≤ property.length := long
      simp only [Bool.not_true, Bool.false_eq_true, ↓reduceIte, full]
      split
      · exact ⟨channel, loaded, pinned⟩
      · exact .save (pinned.resetBelow property)

def AlwaysSolid (channelName : CString) (path : List CString) :
    EsconfBackendPerchannelXml → List PropRequest → Prop
  | _, [] => True
  | xbpx, request :: requests => Solid xbpx channelName path request ∧
      ∀ reply after, request.perform host xbpx channelName = some (reply, after) →
        AlwaysSolid channelName path after requests

theorem performAll_pinned {xbpx after : EsconfBackendPerchannelXml} {channelName : CString}
    {requests : List PropRequest} {replies : List (Except GError Unit)}
    (holds : HoldsPinned xbpx channelName path prop)
    (long : ∀ request ∈ requests, 2 ≤ request.property.length)
    (solid : AlwaysSolid host channelName path xbpx requests)
    (done : performAll host channelName xbpx requests = some (replies, after)) :
    HoldsPinned after channelName path prop := by
  induction requests generalizing xbpx replies with
  | nil => cases done; exact holds
  | cons request requests ih =>
      obtain ⟨⟨reply, middle⟩, first, later⟩ := Option.bind_eq_some_iff.mp done
      obtain ⟨⟨rest, last⟩, tail, same⟩ := Option.map_eq_some_iff.mp later
      cases same
      have step := perform_pinned host holds (long request List.mem_cons_self) solid.1 first
      exact ih step (fun next member => long next (List.mem_cons_of_mem _ member))
        (solid.2 reply middle first) tail

/-- A property that is locked after loading stays locked and keeps its value
through every run of sets and resets in which no reset of a property below it
finds a hollow chain between the two. -/
theorem property_lock_lasts (disk : Disk) (source channelName property : CString)
    (channel : EsconfChannel) (xbpx after : EsconfBackendPerchannelXml)
    (requests : List PropRequest) (replies : List (Except GError Unit))
    (fromFiles : loadChannel host disk source = some (.ok channel))
    (loaded : xbpx.channels.lookup channelName = some channel)
    (propertyValid : esconfPropertyIsValid property = none)
    (locked : (channel.properties.slot (nameParts property)).locked = true)
    (accepted : ∀ request ∈ requests, esconfPropertyIsValid request.property = none)
    (solid : AlwaysSolid host channelName (nameParts property) xbpx requests)
    (done : performAll host channelName xbpx requests = some (replies, after)) :
    perchannelXmlIsPropertyLocked host after channelName property = some (.ok true, after) ∧
      (∀ value, perchannelXmlSet host after channelName property value =
        some (.error (permissionDenied property channelName), after)) ∧
      (perchannelXmlGet host after channelName property).map Prod.fst =
        (perchannelXmlGet host xbpx channelName property).map Prod.fst := by
  have valid := propNameIsValid_of_property propertyValid
  have start := loadChannel_pinned host fromFiles locked
  have long : ∀ request ∈ requests, 2 ≤ request.property.length := by
    intro request member
    obtain ⟨c, rest, shape, _⟩ :=
      propNameIsValid_iff.mp (propNameIsValid_of_property (accepted request member))
    rw [shape]
    simp
  obtain ⟨channel', loaded', pinned⟩ := performAll_pinned host ⟨channel, loaded, start⟩ long solid done
  have looked := pinned.lookup valid
  refine ⟨?_, ?_, ?_⟩
  · rw [perchannelXmlIsPropertyLocked, onChannel_loaded host loaded', looked]
    simp [locked]
  · intro value
    rw [perchannelXmlSet, findChannel_loaded host loaded']
    dsimp only
    rw [setIn_locked value ⟨_, looked, pinned.locked⟩]
  · have same : effectiveAt channel' property = effectiveAt channel property := by
      rw [effectiveAt, looked, effectiveAt_slot valid]
    rw [perchannelXmlGet, perchannelXmlGet, onChannel_loaded host loaded',
      onChannel_loaded host loaded, same]
    split <;> rfl

section Branch

def branchText : CString :=
  "<channel name='c' version='1.0'><property name='p' type='empty' locked='user'/></channel>".toList

def branchEvents : List MarkupEvent :=
  [.startElement "channel".toList [("name".toList, "c".toList), ("version".toList, "1.0".toList)],
    .startElement "property".toList
      [("name".toList, "p".toList), ("type".toList, "empty".toList), ("locked".toList, "user".toList)],
    .endElement "property".toList, .endElement "channel".toList]

def branchHost : Host :=
  { Host.bare [(branchText, branchEvents)] with resourcePlaces := fun _ => ["/etc/c.xml".toList] }

def branchDisk : Disk := fun filename =>
  if filename = "/etc/c.xml".toList then some branchText else none

def branchBackend : EsconfBackendPerchannelXml := { fresh with disk := branchDisk }

def branchChannel : EsconfChannel :=
  ⟨.node "/".toList .blank [.node "p".toList ⟨.invalid, .invalid, true⟩ []], false, false⟩

def branchLoaded : EsconfBackendPerchannelXml := branchBackend.store "c".toList branchChannel

set_option maxRecDepth 4000 in
theorem branch_load : loadChannel branchHost branchDisk "c".toList = some (.ok branchChannel) := rfl

set_option maxRecDepth 4000 in
/-- Setting a property below the locked branch and resetting it takes the branch
and its lock away. -/
theorem property_lock_lost :
    ∃ middle last replies after,
      esconfBackendIsPropertyLocked branchHost branchBackend "c".toList "/p".toList =
        some (.ok true, middle) ∧
      performAll branchHost "c".toList middle [.set "/p/q".toList (.int 1), .reset "/p/q".toList] =
        some (replies, last) ∧
      esconfBackendIsPropertyLocked branchHost last "c".toList "/p".toList =
        some (.ok false, last) ∧
      esconfBackendSet branchHost last "c".toList "/p".toList (.int 2) = some (.ok (), after) :=
  ⟨_, _, _, _, rfl, rfl, rfl, rfl⟩

/-- Resetting the branch instead keeps it. -/
theorem property_lock_lasts_branch :
    ∃ replies after, performAll branchHost "c".toList branchLoaded
        [.set "/p/q".toList (.int 1), .resetRecursive "/p".toList] = some (replies, after) ∧
      perchannelXmlIsPropertyLocked branchHost after "c".toList "/p".toList =
        some (.ok true, after) := by
  refine ⟨_, _, rfl, (property_lock_lasts branchHost branchDisk "c".toList "c".toList "/p".toList
    branchChannel branchLoaded _ [.set "/p/q".toList (.int 1), .resetRecursive "/p".toList] _
    branch_load rfl (by decide) (by decide) (by decide) ?_ rfl).1⟩
  exact ⟨trivial, fun _ _ _ => ⟨trivial, fun _ _ _ => trivial⟩⟩

end Branch

end Esconf
