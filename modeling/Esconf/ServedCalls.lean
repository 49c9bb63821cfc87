import Esconf.OverlaidBackends
import Esconf.QueuedNotices

/-! What the methods of a daemon with one backend do with a channel that holds what maps say. -/

namespace Esconf

open NamedTree

/-- No value is a NULL array, which a daemon does not survive sending. -/
def Sendable (maps : PropMaps) : Prop :=
  ∀ name, propNameIsValid name = true →
    maps.user name ≠ .ptrArrayNull ∧ maps.system name ≠ .ptrArrayNull

namespace Sendable

variable {maps : PropMaps}

theorem effective (sendable : Sendable maps) {name : CString}
    (fine : propNameIsValid name = true) : maps.effective name ≠ .ptrArrayNull := by
  rw [PropMaps.effective]
  split
  · exact (sendable name fine).1
  · exact (sendable name fine).2

theorem step (sendable : Sendable maps) {request : PropRequest}
    (whole : ∀ property value, request = .set property value → value ≠ .ptrArrayNull) :
    Sendable (maps.step request) := by
  intro name fine
  obtain ⟨user, system⟩ := sendable name fine
  rw [PropMaps.step_system]
  refine ⟨?_, system⟩
  cases request with
  | set property value =>
      rw [PropMaps.step]
      split
      · exact user
      · change (if name = property then value else maps.user name) ≠ _
        split
        · exact whole property value rfl
        · exact user
  | reset property =>
      change (if name = property then .invalid else maps.user name : GValue) ≠ _
      split
      · exact fun same => by cases same
      · exact user
  | resetRecursive property =>
      change (if name = property ∨ (property ++ ['/']) <+: name then .invalid
        else maps.user name : GValue) ≠ _
      split
      · exact fun same => by cases same
      · exact user

end Sendable

theorem guarded_or {S α : Type} {backend : S} {errors : List (Option GError)}
    {call : Option (Except GError α × S)} :
    (∃ failure, Daemon.guarded backend errors call = some (.error failure, backend)) ∨
      (errors.findSome? id = none ∧ Daemon.guarded backend errors call = call) := by
  rw [Daemon.guarded]
  cases errors.findSome? id with
  | some failure => exact Or.inl ⟨failure, rfl⟩
  | none => exact Or.inr ⟨rfl, rfl⟩

namespace Served

variable {host : Host} {channelName : CString} {maps : PropMaps}
  {xbpx after : EsconfBackendPerchannelXml}

theorem getProperty (served : Served channelName maps xbpx) (host : Host)
    (valid : esconfChannelIsValid channelName = none) {property : CString}
    (accepted : esconfPropertyIsValid property = none) :
    Daemon.esconfGetProperty host (Daemon.perchannelXml host) [xbpx] channelName property =
      some (if (maps.effective property).isSet then Daemon.replyValue host (maps.effective property)
        else .error (propertyNotFound property channelName), [xbpx]) := by
  have guard : Daemon.esconfBackendGet (Daemon.perchannelXml host) xbpx channelName property =
      perchannelXmlGet host xbpx channelName property :=
    Daemon.guarded_names xbpx valid accepted _
  rw [Daemon.esconfGetProperty, Daemon.getFrom, guard,
    served.got host (propNameIsValid_of_property accepted)]
  by_cases set : (maps.effective property).isSet = true
  · rw [if_pos set, if_pos set]
  · rw [if_neg set, if_neg set]
    rfl

theorem nothing_below {tree : PropTree} (represents : Represents tree maps) {base name : CString}
    (whole : propNameIsValid base = true) (missing : proptreeLookupNode tree base = none)
    (covers : Covers base name) (fine : propNameIsValid name = true) :
    (maps.effective name).isSet = false := by
  have below : nameParts base <+: nameParts name := by
    obtain ⟨c, rest, same, _⟩ := propNameIsValid_iff.mp whole
    apply (below_iff_parts whole fine).mp
    rcases covers with empty | root | here | inside
    · rw [empty] at same
      cases same
    · rw [root] at same
      cases same
    · exact Or.inl here
    · exact Or.inr inside
  obtain ⟨rest, parts⟩ := below
  have absent : descend tree (nameParts base) = none := by
    rwa [proptreeLookupNode, if_pos whole] at missing
  have gone : descend tree (nameParts name) = none := by
    rw [← parts, descend_append, absent]
    rfl
  rw [← represents.effective fine, PropTree.slot, lookup_of_missing gone]
  rfl

theorem gotAll (served : Served channelName maps xbpx) (host : Host)
    (valid : esconfChannelIsValid channelName = none) {base : CString}
    (asked : baseIsValid base = none) :
    ∃ result, Daemon.esconfBackendGetAll (Daemon.perchannelXml host) xbpx channelName base =
        some (result, xbpx) ∧
      ((∃ error, result = .error error) → ∀ name, Covers base name →
        propNameIsValid name = true → (maps.effective name).isSet = false) ∧
      ∀ entries, result = .ok entries → ∀ name value, hashTable entries name = some value ↔
        Covers base name ∧ propNameIsValid name = true ∧ maps.effective name = value ∧
          value.isSet = true := by
  have getter : ∀ {name}, propNameIsValid name = true →
      perchannelXmlGet host xbpx channelName name = _ := fun fine => served.got host fine
  obtain ⟨_, channel, loaded, named, represents⟩ := served
  have proper : base = [] ∨ base = "/".toList ∨ propNameIsValid base = true := by
    unfold baseIsValid at asked
    split at asked
    · next whole => exact whole.imp_right Or.inl
    · exact Or.inr (Or.inr (propNameIsValid_of_property asked))
  obtain ⟨result, got, failed, listed⟩ := getAll_enumerates host loaded named base proper
  have full : channelName.isEmpty = false := by
    cases channelName with
    | nil => cases valid
    | cons c rest => rfl
  refine ⟨result, ?_, ?_, ?_⟩
  · rw [Daemon.esconfBackendGetAll, Daemon.guarded, full, valid, asked]
    exact got
  · intro error name covers fine
    obtain ⟨whole, missing⟩ := failed.mp error
    exact nothing_below represents whole missing covers fine
  · intro entries filled name value
    rw [listed entries filled name value, perchannelXmlGet_loaded host loaded]
    constructor
    · rintro ⟨covers, held, set⟩
      obtain ⟨_, fine, _⟩ := (effectiveAt_set set).mp held
      rw [effectiveAt_slot fine, represents.effective fine] at held
      exact ⟨covers, fine, held, set⟩
    · rintro ⟨covers, fine, held, set⟩
      rw [effectiveAt_slot fine, represents.effective fine]
      exact ⟨covers, held, set⟩

theorem getAllProperties (served : Served channelName maps xbpx) (host : Host)
    (valid : esconfChannelIsValid channelName = none) (sendable : Sendable maps) {base : CString}
    (asked : baseIsValid base = none) :
    ∃ reply inserted rest, Daemon.esconfGetAllProperties host (Daemon.perchannelXml host) [xbpx]
        channelName base = some (reply, [xbpx]) ∧
      Daemon.getAllFrom (Daemon.perchannelXml host) channelName base [xbpx] =
        some (inserted, rest) ∧
      ((∃ error, reply = .error error) → ∀ name, Covers base name →
        propNameIsValid name = true → (maps.effective name).isSet = false) ∧
      ∀ table, reply = .ok table → ∀ name,
        (∀ variant, table name = some variant ↔ Covers base name ∧ propNameIsValid name = true ∧
          (maps.effective name).isSet = true ∧
          Daemon.tableVariant host (maps.effective name) = some variant) ∧
        ((table name).isSome = true → name ∈ inserted.map Prod.fst) := by
  obtain ⟨result, got, failed, listed⟩ := served.gotAll host valid asked
  rw [Daemon.esconfGetAllProperties, Daemon.getAllFrom, got]
  cases result with
  | error error =>
      refine ⟨_, _, _, rfl, rfl, fun _ => failed ⟨error, rfl⟩, ?_⟩
      intro table same
      cases same
  | ok entries =>
      have survives : Daemon.esconfHashToGvariant host (entries ++ []) =
          some fun key => (hashTable entries key).bind (Daemon.tableVariant host) := by
        rw [List.append_nil, Daemon.esconfHashToGvariant, if_neg]
        rw [List.any_eq_true]
        rintro ⟨entry, _, null⟩
        obtain ⟨_, fine, held, _⟩ := (listed entries rfl _ _).mp (of_decide_eq_true null)
        exact sendable.effective fine held
      refine ⟨.ok fun key => (hashTable entries key).bind (Daemon.tableVariant host),
        entries ++ [], _, ?_, rfl, ?_, ?_⟩
      · change (Daemon.esconfHashToGvariant host (entries ++ [])).map _ = _
        rw [survives]
        rfl
      · rintro ⟨_, same⟩
        cases same
      · intro table same name
        cases same
        constructor
        · intro variant
          rw [Option.bind_eq_some_iff]
          constructor
          · rintro ⟨value, entry, sent⟩
            obtain ⟨covers, fine, rfl, set⟩ := (listed entries rfl name value).mp entry
            exact ⟨covers, fine, set, sent⟩
          · rintro ⟨covers, fine, set, sent⟩
            exact ⟨_, (listed entries rfl name _).mpr ⟨covers, fine, rfl, set⟩, sent⟩
        · intro there
          obtain ⟨variant, held⟩ := Option.isSome_iff_exists.mp there
          obtain ⟨value, entry, _⟩ := Option.bind_eq_some_iff.mp held
          rw [List.append_nil]
          exact List.mem_map.mpr ⟨_, Assignments.mem_of_last entry, rfl⟩

theorem setProperty (served : Served channelName maps xbpx) (host : Host)
    (valid : esconfChannelIsValid channelName = none) {property : CString}
    (accepted : esconfPropertyIsValid property = none) (short : property.length < maxPropPath)
    {variant : GVariant} {value : GValue} (decodes : esconfGvariantToGvalue variant = some value) :
    ∃ outcome after, Daemon.esconfSetProperty (Daemon.perchannelXml host) xbpx [] channelName
        property variant = some outcome ∧ outcome.backends = [after] ∧
      Served channelName (maps.step (.set property value)) after := by
  obtain ⟨after, performed, later⟩ := served.filled host value accepted short
  refine ⟨⟨true, [.ok ()], [after], [some value]⟩, after, ?_, rfl, later⟩
  have set : Daemon.esconfBackendSet (Daemon.perchannelXml host) xbpx channelName property
      (some value) = perchannelXmlSet host xbpx channelName property value :=
    Daemon.guarded_names xbpx valid accepted _
  rw [performed] at set
  change (Daemon.esconfBackendSet (Daemon.perchannelXml host) xbpx channelName property
    (esconfGvariantToGvalue variant)).map _ = _
  rw [decodes, set]
  rfl

theorem resetProperty (served : Served channelName maps xbpx) (host : Host)
    (valid : esconfChannelIsValid channelName = none) {property : CString} {recursive : Bool}
    (accepted : esconfPropertyIsValid property = none) :
    ∃ reply after, Daemon.esconfResetProperty (Daemon.changingXml host) [xbpx] channelName property
        recursive = some (reply, [after]) ∧
      Served channelName
        (maps.step (if recursive then .resetRecursive property else .reset property)) after := by
  have fine := propNameIsValid_of_property accepted
  obtain ⟨channel, loaded, _⟩ := served.loaded
  have performs : ∃ reply after, perchannelXmlReset host xbpx channelName property recursive =
      some (reply, after) := by
    rw [perchannelXmlReset, onChannel_loaded host loaded]
    exact ⟨_, _, rfl⟩
  obtain ⟨reply, after, performed⟩ := performs
  have guard : Daemon.esconfBackendReset (Daemon.changingXml host) xbpx channelName property
      recursive = some (reply, after) :=
    (Daemon.reset_guard xbpx valid accepted recursive _).trans performed
  rw [Daemon.esconfResetProperty, Daemon.resetFrom, guard]
  cases reply with
  | ok done => exact ⟨_, after, rfl, served.emptied fine performed⟩
  | error error => exact ⟨_, after, rfl, served.emptied fine performed⟩

end Served

end Esconf
