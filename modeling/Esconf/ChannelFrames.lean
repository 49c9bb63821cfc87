import Esconf.Backend
import Esconf.PropTreeKeeps

/-! What the operations on one channel leave alone: the other channels, and the
properties that they do not name. -/

namespace Esconf

open NamedTree

variable (host : Host)

/-- Only the two entries a channel name can mean and the user file of that
channel differ. -/
structure Confined (channelName : CString) (before after : EsconfBackendPerchannelXml) : Prop where
  channels : ∀ key, key ≠ channelName → key ≠ gAsciiStrdown channelName →
    after.channels.lookup key = before.channels.lookup key
  disk : ∀ filename, filename ≠ userFileName before channelName →
    after.disk filename = before.disk filename
  savePath : after.configSavePath = before.configSavePath

def IsKeyOf (channelName key : CString) : Prop := key = channelName ∨ key = gAsciiStrdown channelName

namespace Confined

variable {channelName : CString} {before middle after : EsconfBackendPerchannelXml}

theorem refl (channelName : CString) (xbpx : EsconfBackendPerchannelXml) :
    Confined channelName xbpx xbpx := ⟨fun _ _ _ => rfl, fun _ _ => rfl, rfl⟩

theorem trans (one : Confined channelName before middle) (two : Confined channelName middle after) :
    Confined channelName before after := by
  refine ⟨?_, ?_, two.savePath.trans one.savePath⟩
  · intro key apart apart'
    exact (two.channels key apart apart').trans (one.channels key apart apart')
  · intro filename apart
    have apart' : filename ≠ userFileName middle channelName := by
      rw [userFileName, one.savePath]
      exact apart
    exact (two.disk filename apart').trans (one.disk filename apart)

theorem store (xbpx : EsconfBackendPerchannelXml) {key : CString} (isKey : IsKeyOf channelName key)
    (channel : EsconfChannel) : Confined channelName xbpx (xbpx.store key channel) := by
  refine ⟨?_, fun _ _ => rfl, rfl⟩
  intro other apart apart'
  refine AList.lookup_insert_ne ?_
  rintro rfl
  rcases isKey with same | same
  · exact apart same
  · exact apart' same

theorem propChanged (xbpx : EsconfBackendPerchannelXml) (name property : CString) :
    Confined channelName xbpx (xbpx.propChanged name property) := by
  unfold EsconfBackendPerchannelXml.propChanged
  split
  · exact ⟨fun _ _ _ => rfl, fun _ _ => rfl, rfl⟩
  · exact refl _ _

theorem propsChanged (xbpx : EsconfBackendPerchannelXml) (name : CString)
    (properties : List CString) :
    Confined channelName xbpx (Esconf.propsChanged xbpx name properties) := by
  induction properties generalizing xbpx with
  | nil => exact refl _ _
  | cons property rest ih => exact (propChanged xbpx name property).trans (ih _)

theorem scheduleSave (xbpx : EsconfBackendPerchannelXml) {key : CString}
    (isKey : IsKeyOf channelName key) (channel : EsconfChannel) :
    Confined channelName xbpx (xbpx.scheduleSave key channel) := by
  have stored := store xbpx isKey { channel with dirty := true }
  exact ⟨stored.channels, stored.disk, stored.savePath⟩

theorem erase (xbpx : EsconfBackendPerchannelXml) (channelName : CString) :
    Confined channelName xbpx { xbpx with channels := xbpx.channels.erase channelName } :=
  ⟨fun _ apart _ => AList.lookup_erase_ne apart, fun _ _ => rfl, rfl⟩

theorem removeFile (xbpx : EsconfBackendPerchannelXml) (channelName : CString) :
    Confined channelName xbpx { xbpx with
      disk := fun name => if name = userFileName xbpx channelName then none else xbpx.disk name } :=
  ⟨fun _ _ _ => rfl, fun _ apart => if_neg apart, rfl⟩

end Confined

theorem findChannel_confined {xbpx after : EsconfBackendPerchannelXml} {channelName : CString}
    {found : Except GError (CString × EsconfChannel)}
    (done : findChannel host xbpx channelName = some (found, after)) :
    Confined channelName xbpx after ∧
      ∀ key channel, found = .ok (key, channel) → IsKeyOf channelName key := by
  unfold findChannel at done
  split at done
  · cases done
    exact ⟨.refl _ _, fun key channel same => by cases same; exact Or.inl rfl⟩
  split at done
  · cases done
  · cases done
    exact ⟨.refl _ _, fun key channel same => by cases same⟩
  · cases done
    exact ⟨.store _ (Or.inr rfl) _, fun key channel same => by cases same; exact Or.inr rfl⟩

theorem setIn_confined (xbpx : EsconfBackendPerchannelXml) {channelName key : CString}
    (isKey : IsKeyOf channelName key) (channel : EsconfChannel) (property : CString)
    (value : GValue) :
    Confined channelName xbpx (setIn xbpx key channel channelName property value).2 := by
  unfold setIn
  split
  · split
    · exact .refl _ _
    split
    · exact .refl _ _
    · exact (Confined.propChanged _ _ _).trans (.scheduleSave _ isKey _)
  · exact (Confined.propChanged _ _ _).trans (.scheduleSave _ isKey _)

theorem perchannelXmlSet_cases {xbpx : EsconfBackendPerchannelXml}
    {channelName property : CString} {value : GValue}
    {result : Except GError Unit × EsconfBackendPerchannelXml}
    (done : perchannelXmlSet host xbpx channelName property value = some result) :
    (∃ key channel middle, findChannel host xbpx channelName = some (.ok (key, channel), middle) ∧
        result = setIn middle key channel channelName property value) ∨
      ∃ error middle, findChannel host xbpx channelName = some (.error error, middle) ∧
        result = setIn (middle.store (gAsciiStrdown channelName) .root)
          (gAsciiStrdown channelName) .root channelName property value := by
  unfold perchannelXmlSet at done
  split at done
  · cases done
  · next key channel middle found =>
      exact Or.inl ⟨key, channel, middle, found, (Option.some.inj done).symm⟩
  · next error middle found => exact Or.inr ⟨error, middle, found, (Option.some.inj done).symm⟩

theorem perchannelXmlSet_confined {xbpx : EsconfBackendPerchannelXml}
    {channelName property : CString} {value : GValue}
    {result : Except GError Unit × EsconfBackendPerchannelXml}
    (done : perchannelXmlSet host xbpx channelName property value = some result) :
    Confined channelName xbpx result.2 := by
  rcases perchannelXmlSet_cases host done with
    ⟨key, channel, middle, found, rfl⟩ | ⟨error, middle, found, rfl⟩
  · obtain ⟨first, isKey⟩ := findChannel_confined host found
    exact first.trans (setIn_confined _ (isKey _ _ rfl) _ _ _)
  · obtain ⟨first, _⟩ := findChannel_confined host found
    exact (first.trans (.store _ (Or.inr rfl) _)).trans (setIn_confined _ (Or.inr rfl) _ _ _)

theorem onChannel_cases {α : Type} {xbpx : EsconfBackendPerchannelXml} {channelName : CString}
    {operation : CString → EsconfChannel → EsconfBackendPerchannelXml →
      Except GError α × EsconfBackendPerchannelXml}
    {result : Except GError α × EsconfBackendPerchannelXml}
    (done : onChannel host xbpx channelName operation = some result) :
    (∃ key channel middle, findChannel host xbpx channelName = some (.ok (key, channel), middle) ∧
        result = operation key channel middle) ∨
      ∃ error middle, findChannel host xbpx channelName = some (.error error, middle) ∧
        result.2 = middle := by
  unfold onChannel at done
  split at done
  · cases done
  · next error middle found =>
      cases done
      exact Or.inr ⟨error, middle, found, rfl⟩
  · next key channel middle found =>
      exact Or.inl ⟨key, channel, middle, found, (Option.some.inj done).symm⟩

theorem onChannel_confined {α : Type} {xbpx : EsconfBackendPerchannelXml} {channelName : CString}
    {operation : CString → EsconfChannel → EsconfBackendPerchannelXml →
      Except GError α × EsconfBackendPerchannelXml}
    (confined : ∀ key channel xbpx, IsKeyOf channelName key →
      Confined channelName xbpx (operation key channel xbpx).2)
    {result : Except GError α × EsconfBackendPerchannelXml}
    (done : onChannel host xbpx channelName operation = some result) :
    Confined channelName xbpx result.2 := by
  rcases onChannel_cases host done with
    ⟨key, channel, middle, found, rfl⟩ | ⟨error, middle, found, same⟩
  · obtain ⟨first, isKey⟩ := findChannel_confined host found
    exact first.trans (confined key channel middle (isKey _ _ rfl))
  · rw [same]
    exact (findChannel_confined host found).1

theorem doResetChannel_confined (xbpx : EsconfBackendPerchannelXml) {channelName key : CString}
    (isKey : IsKeyOf channelName key) (channel : EsconfChannel) :
    Confined channelName xbpx (doResetChannel host xbpx key channel channelName).2 := by
  have emptied := ((Confined.propsChanged xbpx channelName
    (resetNotices [] channel.properties)).trans
      (.store _ isKey { channel with properties := nodesDoPropReset channel.properties })).trans
      (.erase _ channelName)
  unfold doResetChannel
  dsimp only
  split
  · exact emptied
  · exact emptied.trans (.removeFile _ channelName)

theorem perchannelXmlReset_confined {xbpx : EsconfBackendPerchannelXml}
    {channelName property : CString} {recursive : Bool}
    {result : Except GError Unit × EsconfBackendPerchannelXml}
    (done : perchannelXmlReset host xbpx channelName property recursive = some result) :
    Confined channelName xbpx result.2 := by
  refine onChannel_confined host ?_ done
  intro key channel xbpx isKey
  dsimp only
  split
  · split
    · exact .refl _ _
    · exact (Confined.propChanged _ _ _).trans (.scheduleSave _ isKey _)
  split
  · split
    · exact .refl _ _
    · exact (Confined.propsChanged _ _ _).trans (.scheduleSave _ isKey _)
  · exact doResetChannel_confined host xbpx isKey channel

theorem perform_confined {xbpx after : EsconfBackendPerchannelXml} {request : Request}
    (done : request.perform host xbpx = some after) : Confined request.channel xbpx after := by
  rcases perform_cases host done with rfl | reached
  · exact .refl _ _
  cases request with
  | set channel property value =>
      obtain ⟨result, performed⟩ := reached
      exact perchannelXmlSet_confined host performed
  | get channel property =>
      obtain ⟨result, performed⟩ := reached
      refine onChannel_confined host ?_ performed
      intro key channel xbpx _
      split <;> exact .refl _ _
  | getAll channel propertyBase =>
      obtain ⟨result, performed⟩ := reached
      refine onChannel_confined host ?_ performed
      intro key channel xbpx _
      dsimp only
      split
      · split <;> exact .refl _ _
      · exact .refl _ _
  | «exists» channel property =>
      obtain ⟨result, performed⟩ := reached
      rw [Request.channel]
      unfold perchannelXmlExists at performed
      split at performed
      · cases performed
      · next found => cases performed; exact (findChannel_confined host found).1
      · next found => cases performed; exact (findChannel_confined host found).1
  | reset channel property recursive =>
      obtain ⟨result, performed⟩ := reached
      exact perchannelXmlReset_confined host performed
  | isPropertyLocked channel property =>
      obtain ⟨result, performed⟩ := reached
      exact onChannel_confined host (fun _ _ _ _ => .refl _ _) performed

def channelFiles (channelName : CString) : List CString :=
  host.resourcePlaces (configFileStem channelName) ++
    (host.resourceSaveLocation (configFileStem channelName)).toList

theorem mergeFile_congr {disk disk' : Disk} {filename : CString}
    (same : disk' filename = disk filename) (isSystemFile : Bool) (channel : EsconfChannel) :
    mergeFile host disk' filename isSystemFile channel =
      mergeFile host disk filename isSystemFile channel := by
  rw [mergeFile, mergeFile, same]

theorem mergeSystemFiles_congr {disk disk' : Disk} {filenames : List CString}
    (same : ∀ filename ∈ filenames, disk' filename = disk filename) (channel : EsconfChannel) :
    mergeSystemFiles host disk' filenames channel = mergeSystemFiles host disk filenames channel := by
  induction filenames generalizing channel with
  | nil => rfl
  | cons filename rest ih =>
      rw [mergeSystemFiles, mergeSystemFiles, mergeFile_congr host (same filename (by simp))]
      congr 1
      funext merged
      exact ih (fun other member => same other (List.mem_cons_of_mem _ member)) merged.2

theorem loadChannel_congr {disk disk' : Disk} {channelName : CString}
    (same : ∀ filename ∈ channelFiles host channelName, disk' filename = disk filename) :
    loadChannel host disk' channelName = loadChannel host disk channelName := by
  have places : ∀ filename ∈ host.resourcePlaces (configFileStem channelName),
      disk' filename = disk filename :=
    fun filename member => same filename (List.mem_append_left _ member)
  have files : host.resourceLookupAll disk' (configFileStem channelName) =
      host.resourceLookupAll disk (configFileStem channelName) := by
    refine List.filter_congr ?_
    intro filename member
    rw [places filename member]
  have systemFiles : ∀ (keep : CString → Bool) (channel : EsconfChannel),
      mergeSystemFiles host disk' ((host.resourceLookupAll disk
          (configFileStem channelName)).reverse.filter keep) channel =
        mergeSystemFiles host disk ((host.resourceLookupAll disk
          (configFileStem channelName)).reverse.filter keep) channel := by
    intro keep channel
    refine mergeSystemFiles_congr host ?_ channel
    intro filename member
    have inside := List.mem_reverse.mp (List.mem_of_mem_filter member)
    exact places filename (List.mem_of_mem_filter inside)
  unfold loadChannel
  dsimp only
  rw [files, systemFiles]
  cases saved : host.resourceSaveLocation (configFileStem channelName) with
  | none => rfl
  | some filename =>
      have here : disk' filename = disk filename :=
        same filename (List.mem_append_right _ (by rw [saved]; simp))
      simp only [mergeFile_congr host here]

theorem findChannel_congr {xbpx after : EsconfBackendPerchannelXml} {channelName : CString}
    (entry : after.channels.lookup channelName = xbpx.channels.lookup channelName)
    (files : ∀ filename ∈ channelFiles host channelName, after.disk filename = xbpx.disk filename) :
    (findChannel host after channelName).map Prod.fst =
      (findChannel host xbpx channelName).map Prod.fst := by
  unfold findChannel
  rw [entry, loadChannel_congr host files]
  cases xbpx.channels.lookup channelName with
  | some channel => rfl
  | none =>
      cases loadChannel host xbpx.disk channelName with
      | none => rfl
      | some loaded => cases loaded <;> rfl

theorem onChannel_congr {α : Type} {xbpx after : EsconfBackendPerchannelXml}
    {channelName : CString} {result : EsconfChannel → Except GError α}
    (same : (findChannel host after channelName).map Prod.fst =
      (findChannel host xbpx channelName).map Prod.fst) :
    (onChannel host after channelName fun _ channel xbpx => (result channel, xbpx)).map Prod.fst =
      (onChannel host xbpx channelName fun _ channel xbpx => (result channel, xbpx)).map
        Prod.fst := by
  have shape : ∀ xbpx, (onChannel host xbpx channelName fun _ channel xbpx =>
      (result channel, xbpx)).map Prod.fst =
        ((findChannel host xbpx channelName).map Prod.fst).map fun found =>
          found.bind fun entry => result entry.2 := by
    intro xbpx
    unfold onChannel
    cases findChannel host xbpx channelName with
    | none => rfl
    | some found => obtain ⟨found, _⟩ := found; cases found <;> rfl
  rw [shape, shape, same]

theorem guarded_congr {α : Type} {xbpx after : EsconfBackendPerchannelXml} (names : List CString)
    (errors : List (Option GError)) {reply reply' : Reply α}
    (same : reply'.map Prod.fst = reply.map Prod.fst) :
    (returnIfEmpty after names (checked after errors reply')).map Prod.fst =
      (returnIfEmpty xbpx names (checked xbpx errors reply)).map Prod.fst := by
  unfold returnIfEmpty checked
  split
  · rfl
  split
  · rfl
  · have shape : ∀ reply : Reply α, (answer reply).map Prod.fst =
        (reply.map Prod.fst).map (Except.mapError some) := by
      intro reply
      rw [answer, Option.map_map, Option.map_map]
      rfl
    rw [shape, shape, same]

theorem get_found {xbpx after : EsconfBackendPerchannelXml} {channelName : CString}
    (same : (findChannel host after channelName).map Prod.fst =
      (findChannel host xbpx channelName).map Prod.fst) (property : CString) :
    (esconfBackendGet host after channelName property).map Prod.fst =
      (esconfBackendGet host xbpx channelName property).map Prod.fst := by
  have get : ∀ xbpx, perchannelXmlGet host xbpx channelName property =
      onChannel host xbpx channelName fun _ channel xbpx =>
        (if (effectiveAt channel property).isSet then .ok (effectiveAt channel property)
          else .error (propertyNotFound property channelName), xbpx) := by
    intro xbpx
    unfold perchannelXmlGet
    congr 1
    funext key channel xbpx
    split <;> rfl
  have inner : (perchannelXmlGet host after channelName property).map Prod.fst =
      (perchannelXmlGet host xbpx channelName property).map Prod.fst := by
    rw [get, get]
    exact onChannel_congr host same
  exact guarded_congr _ _ inner

theorem get_congr {xbpx after : EsconfBackendPerchannelXml} {channelName : CString}
    (entry : after.channels.lookup channelName = xbpx.channels.lookup channelName)
    (files : ∀ filename ∈ channelFiles host channelName, after.disk filename = xbpx.disk filename)
    (property : CString) :
    (esconfBackendGet host after channelName property).map Prod.fst =
      (esconfBackendGet host xbpx channelName property).map Prod.fst :=
  get_found host (findChannel_congr host entry files) property

theorem get_other_channel {xbpx after : EsconfBackendPerchannelXml} {request : Request}
    {channelName : CString} (other : request.channel ≠ channelName)
    (lower : gAsciiStrdown request.channel ≠ channelName)
    (files : userFileName xbpx request.channel ∉ channelFiles host channelName)
    (done : request.perform host xbpx = some after) (property : CString) :
    (esconfBackendGet host after channelName property).map Prod.fst =
      (esconfBackendGet host xbpx channelName property).map Prod.fst := by
  have confined := perform_confined host done
  refine get_congr host (confined.channels channelName other.symm lower.symm) ?_ property
  intro filename member
  refine confined.disk filename ?_
  rintro rfl
  exact files member

def Gives (proptree : PropTree) (path : List CString) (value : GValue) : Prop :=
  ∃ node, descend proptree path = some node ∧ node.data.effective = value

theorem Gives.of_data {before after : PropTree} {path : List CString} {value : GValue}
    (gives : Gives before path value)
    (same : (descend after path).map NamedTree.data = (descend before path).map NamedTree.data) :
    Gives after path value := by
  obtain ⟨node, found, rfl⟩ := gives
  rw [found] at same
  obtain ⟨node', found', data⟩ := Option.map_eq_some_iff.mp same
  exact ⟨node', found', by rw [data]⟩

theorem Gives.set {proptree : PropTree} {path : List CString} {value : GValue}
    (gives : Gives proptree path value) {property : CString} (apart : path ≠ nameParts property)
    (written : GValue) : Gives (update (·.withValue written) (nameParts property) proptree) path
      value := by
  obtain ⟨node, found, rfl⟩ := gives
  obtain ⟨node', found', data⟩ := descend_update_ne (·.withValue written) apart found
  exact ⟨node', found', by rw [data]⟩

theorem Gives.extends {before after : PropTree} {path : List CString} {value : GValue}
    (gives : Gives before path value) (keeps : Extends before after) : Gives after path value := by
  obtain ⟨node, found, rfl⟩ := gives
  obtain ⟨node', found', data⟩ := keeps path node found
  exact ⟨node', found', by rw [data]⟩

theorem Gives.reset {proptree after : PropTree} {path : List CString} {value : GValue}
    (gives : Gives proptree path value) (set : value.isSet = true) {property : CString}
    (apart : path ≠ nameParts property) (done : proptreeReset proptree property = some after) :
    Gives after path value := by
  obtain ⟨node, found, rfl⟩ := gives
  have valued : node.data.valueless = false := by
    by_contra empty
    simp only [EsconfProperty.valueless, Bool.not_eq_false, Bool.and_eq_true,
      Bool.not_eq_true'] at empty
    rw [EsconfProperty.effective, empty.1, if_neg (by simp), empty.2] at set
    cases set
  have solid : ∀ rest, nameParts property = path ++ rest →
      chainTo removableTip rest node = false := by
    intro rest split
    cases rest with
    | nil => rw [List.append_nil] at split; exact absurd split.symm apart
    | cons name rest =>
        by_contra chain
        rw [chainTo_valueless (by simpa using chain)] at valued
        cases valued
  obtain ⟨node', found', data⟩ := proptreeReset_keeps found apart solid done
  exact ⟨node', found', by rw [data]⟩

def Serves (xbpx : EsconfBackendPerchannelXml) (channelName property : CString) (value : GValue) :
    Prop :=
  ∃ channel, xbpx.channels.lookup channelName = some channel ∧
    Gives channel.properties (nameParts property) value

theorem Serves.save {xbpx : EsconfBackendPerchannelXml} {channelName property : CString}
    {channel : EsconfChannel} {value : GValue}
    (gives : Gives channel.properties (nameParts property) value) :
    Serves (xbpx.scheduleSave channelName channel) channelName property value :=
  ⟨_, AList.lookup_insert _, gives⟩

/-- A call that writes neither a property nor one above it. -/
def Request.Spares (channelName property : CString) : Request → Prop
  | .set channel written _ => channel = channelName → ¬ nameParts written <+: nameParts property
  | .reset channel written _ => channel = channelName → ¬ nameParts written <+: nameParts property
  | _ => True

theorem setIn_serves {xbpx : EsconfBackendPerchannelXml} {channelName property written : CString}
    {channel : EsconfChannel} {value : GValue} (other : GValue)
    (loaded : xbpx.channels.lookup channelName = some channel)
    (gives : Gives channel.properties (nameParts property) value)
    (apart : nameParts property ≠ nameParts written) :
    Serves (setIn xbpx channelName channel channelName written other).2 channelName property
      value := by
  unfold setIn
  split
  · split
    · exact ⟨channel, loaded, gives⟩
    split
    · exact ⟨channel, loaded, gives⟩
    · exact .save (gives.set apart other)
  · refine .save ?_
    change Gives ((proptreeAddProperty channel.properties written other false).getD _) _ _
    cases done : proptreeAddProperty channel.properties written other false with
    | none => exact gives
    | some grown => exact gives.extends (proptreeAddProperty_extends done)

theorem onChannel_reads {α : Type} {xbpx : EsconfBackendPerchannelXml} {channelName : CString}
    {channel : EsconfChannel} (loaded : xbpx.channels.lookup channelName = some channel)
    {operation : CString → EsconfChannel → EsconfBackendPerchannelXml →
      Except GError α × EsconfBackendPerchannelXml}
    (reads : (operation channelName channel xbpx).2 = xbpx)
    {result : Except GError α} {after : EsconfBackendPerchannelXml}
    (done : onChannel host xbpx channelName operation = some (result, after)) : after = xbpx := by
  rw [onChannel_loaded host loaded] at done
  rw [← reads, Option.some.inj done]

theorem reset_serves {xbpx after : EsconfBackendPerchannelXml} {channelName property written : CString}
    {channel : EsconfChannel} {value : GValue} {recursive : Bool} {result : Except GError Unit}
    (set : value.isSet = true) (loaded : xbpx.channels.lookup channelName = some channel)
    (gives : Gives channel.properties (nameParts property) value)
    (spares : ¬ nameParts written <+: nameParts property)
    (done : perchannelXmlReset host xbpx channelName written recursive = some (result, after)) :
    Serves after channelName property value := by
  have apart : nameParts property ≠ nameParts written := by
    intro same
    exact spares (by rw [same])
  have long : 2 ≤ written.length := by
    by_contra short
    refine spares ?_
    have tail : written.tail = [] := by
      rw [← List.length_eq_zero_iff, List.length_tail]
      omega
    rw [nameParts, tail]
    exact List.nil_prefix
  rw [perchannelXmlReset, onChannel_loaded host loaded] at done
  have state := congrArg Prod.snd (Option.some.inj done)
  dsimp only at state
  rw [← state]
  split
  · split
    · exact ⟨channel, loaded, gives⟩
    · next reset => exact .save (gives.reset set apart reset)
  · split
    · exact ⟨channel, loaded, gives⟩
    · exact .save (gives.of_data (resetBelow_aside spares))

theorem perform_serves {xbpx after : EsconfBackendPerchannelXml} {request : Request}
    {channelName property : CString} {value : GValue} (set : value.isSet = true)
    (serves : Serves xbpx channelName property value)
    (spares : request.Spares channelName property)
    (lower : gAsciiStrdown request.channel = channelName → request.channel = channelName)
    (done : request.perform host xbpx = some after) :
    Serves after channelName property value := by
  obtain ⟨channel, loaded, gives⟩ := serves
  by_cases here : request.channel = channelName
  · rcases perform_cases host done with rfl | reached
    · exact ⟨channel, loaded, gives⟩
    have unchanged : after = xbpx → Serves after channelName property value := by
      rintro rfl
      exact ⟨channel, loaded, gives⟩
    cases request with
    | set name written other =>
        obtain rfl : name = channelName := here
        obtain ⟨result, performed⟩ := reached
        rw [perchannelXmlSet, findChannel_loaded host loaded] at performed
        have state := congrArg Prod.snd (Option.some.inj performed)
        rw [← show _ = after from state]
        refine setIn_serves other loaded gives ?_
        intro clash
        exact spares rfl (by rw [clash])
    | reset name written recursive =>
        obtain rfl : name = channelName := here
        obtain ⟨result, performed⟩ := reached
        exact reset_serves host set loaded gives (spares rfl) performed
    | get name asked =>
        obtain rfl : name = channelName := here
        obtain ⟨result, performed⟩ := reached
        refine unchanged (onChannel_reads host loaded ?_ performed)
        split <;> rfl
    | getAll name base =>
        obtain rfl : name = channelName := here
        obtain ⟨result, performed⟩ := reached
        refine unchanged (onChannel_reads host loaded ?_ performed)
        dsimp only
        split
        · split <;> rfl
        · rfl
    | «exists» name asked =>
        obtain rfl : name = channelName := here
        obtain ⟨result, performed⟩ := reached
        rw [perchannelXmlExists, findChannel_loaded host loaded] at performed
        exact unchanged (congrArg Prod.snd (Option.some.inj performed)).symm
    | isPropertyLocked name asked =>
        obtain rfl : name = channelName := here
        obtain ⟨result, performed⟩ := reached
        exact unchanged (onChannel_reads host loaded rfl performed)
  · have confined := perform_confined host done
    have entry := confined.channels channelName (fun same => here same.symm)
      (fun same => here (lower same.symm))
    exact ⟨channel, entry.trans loaded, gives⟩

theorem run_serves {xbpx after : EsconfBackendPerchannelXml} {requests : List Request}
    {channelName property : CString} {value : GValue} (set : value.isSet = true)
    (serves : Serves xbpx channelName property value)
    (spares : ∀ request ∈ requests, request.Spares channelName property)
    (lower : ∀ request ∈ requests, gAsciiStrdown request.channel = channelName →
      request.channel = channelName)
    (ran : run host xbpx requests = some after) : Serves after channelName property value := by
  induction requests generalizing xbpx with
  | nil => cases ran; exact serves
  | cons request requests ih =>
      obtain ⟨middle, first, later⟩ := Option.bind_eq_some_iff.mp ran
      have step := perform_serves host set serves (spares request (by simp))
        (lower request (by simp)) first
      exact ih step (fun next member => spares next (List.mem_cons_of_mem _ member))
        (fun next member => lower next (List.mem_cons_of_mem _ member)) later

theorem get_of_serves {xbpx : EsconfBackendPerchannelXml} {channelName property : CString}
    {value : GValue} (channelValid : esconfChannelIsValid channelName = none)
    (propertyValid : esconfPropertyIsValid property = none) (set : value.isSet = true)
    (serves : Serves xbpx channelName property value) :
    esconfBackendGet host xbpx channelName property = some (.ok value, xbpx) := by
  obtain ⟨channel, loaded, node, found, gives⟩ := serves
  have given : effectiveAt channel property = value := by
    rw [effectiveAt_slot (propNameIsValid_of_property propertyValid), PropTree.slot,
      lookup_of_descend found, gives]
  rw [esconfBackendGet, guarded_valid xbpx channelValid propertyValid, perchannelXmlGet,
    onChannel_loaded host loaded, given, if_pos set]
  rfl

theorem findChannel_entry {xbpx middle : EsconfBackendPerchannelXml} {channelName key : CString}
    {channel : EsconfChannel}
    (found : findChannel host xbpx channelName = some (.ok (key, channel), middle)) :
    middle.channels.lookup key = some channel := by
  unfold findChannel at found
  split at found
  · next here => cases found; exact here
  split at found
  · cases found
  · cases found
  · cases found; exact AList.lookup_insert _

theorem effective_withValue {value : GValue} (set : value.isSet = true) (prop : EsconfProperty) :
    (prop.withValue value).effective = value := by
  rw [EsconfProperty.effective, EsconfProperty.withValue_value, if_pos set]

theorem setIn_serves_new {xbpx : EsconfBackendPerchannelXml} {channelName property : CString}
    {channel : EsconfChannel} {value : GValue}
    (loaded : xbpx.channels.lookup channelName = some channel)
    (valid : propNameIsValid property = true) (short : property.length < maxPropPath)
    (set : value.isSet = true)
    (faithful : GValue.isEqual (effectiveAt channel property) value = true →
      effectiveAt channel property = value)
    (done : (setIn xbpx channelName channel channelName property value).1 = .ok ()) :
    Serves (setIn xbpx channelName channel channelName property value).2 channelName property
      value := by
  unfold effectiveAt at faithful
  unfold setIn at done ⊢
  cases looked : proptreeLookup channel.properties property with
  | some prop =>
      rw [looked] at done faithful
      dsimp only at done faithful ⊢
      obtain ⟨_, node, found, rfl⟩ := proptreeLookup_some.mp looked
      split at done
      · cases done
      · next unlocked =>
          rw [if_neg unlocked]
          split
          · next equal => exact ⟨channel, loaded, node, found, faithful equal⟩
          · refine .save ⟨_, descend_update_self _ found, ?_⟩
            obtain ⟨key, prop, children⟩ := node
            exact effective_withValue set prop
  | none =>
      obtain ⟨grown, added, here, _⟩ := proptreeAddProperty_spec value false valid short looked
      obtain ⟨_, node, found, data⟩ := proptreeLookup_some.mp here
      dsimp only
      rw [added]
      refine .save ⟨node, found, ?_⟩
      rw [data, EsconfProperty.effective, if_pos set]

theorem set_serves {xbpx after : EsconfBackendPerchannelXml} {channelName property : CString}
    {value : GValue} (channelValid : esconfChannelIsValid channelName = none)
    (propertyValid : esconfPropertyIsValid property = none) (short : property.length < maxPropPath)
    (set : value.isSet = true) (lower : gAsciiStrdown channelName = channelName)
    (faithful : ∀ old middle, esconfBackendGet host xbpx channelName property = some (.ok old, middle) →
      GValue.isEqual old value = true → old = value)
    (done : esconfBackendSet host xbpx channelName property value = some (.ok (), after)) :
    Serves after channelName property value := by
  have valid := propNameIsValid_of_property propertyValid
  rw [esconfBackendSet, guarded_valid xbpx channelValid propertyValid] at done
  obtain ⟨result, performed, outcome⟩ := Option.map_eq_some_iff.mp done
  have state := congrArg Prod.snd outcome
  have success : result.1 = .ok () := by
    have mapped := congrArg Prod.fst outcome
    dsimp only at mapped
    cases reply : result.1 with
    | ok done => rfl
    | error error => rw [reply] at mapped; cases mapped
  dsimp only at state
  subst state
  rcases perchannelXmlSet_cases host performed with
    ⟨key, channel, middle, found, rfl⟩ | ⟨error, middle, _, rfl⟩
  · have isKey : key = channelName := by
      rcases (findChannel_confined host found).2 key channel rfl with same | same
      · exact same
      · exact same.trans lower
    subst isKey
    have loaded := findChannel_entry host found
    refine setIn_serves_new loaded valid short set ?_ success
    intro equal
    have isSet : (effectiveAt channel property).isSet = true := by
      rw [GValue.isSet, GValue.isEqual_gtype equal]
      exact set
    refine faithful _ middle ?_ equal
    rw [esconfBackendGet, guarded_valid xbpx channelValid propertyValid, perchannelXmlGet,
      onChannel, found]
    dsimp only
    rw [if_pos isSet]
    rfl
  · rw [lower] at success ⊢
    have created : (middle.store channelName .root).channels.lookup channelName =
        some .root := AList.lookup_insert _
    refine setIn_serves_new created valid short set ?_ success
    intro equal
    have empty : effectiveAt .root property = .invalid := by
      rw [effectiveAt_slot valid]
      cases nameParts property <;> rfl
    rw [empty, GValue.isEqual_invalid_left set] at equal
    cases equal

/-- A value that was set on a channel with a lower-case name is what a getter
gives after any calls that spare it, if no other channel has that name in lower
case and the set was not taken for one that changes nothing; and no call about
such another channel changes what a getter gives. -/
theorem set_value_stays (xbpx after final : EsconfBackendPerchannelXml)
    (channelName property : CString) (value : GValue) (requests : List Request)
    (channelValid : esconfChannelIsValid channelName = none)
    (propertyValid : esconfPropertyIsValid property = none) (short : property.length < maxPropPath)
    (set : value.isSet = true) (lower : gAsciiStrdown channelName = channelName)
    (faithful : ∀ old middle, esconfBackendGet host xbpx channelName property = some (.ok old, middle) →
      GValue.isEqual old value = true → old = value)
    (done : esconfBackendSet host xbpx channelName property value = some (.ok (), after))
    (spares : ∀ request ∈ requests, request.Spares channelName property)
    (apart : ∀ request ∈ requests, gAsciiStrdown request.channel = channelName →
      request.channel = channelName)
    (ran : run host after requests = some final) :
    esconfBackendGet host final channelName property = some (.ok value, final) ∧
      ∀ (start next : EsconfBackendPerchannelXml) (request : Request),
        request.channel ≠ channelName → gAsciiStrdown request.channel ≠ channelName →
        userFileName start request.channel ∉ channelFiles host channelName →
        request.perform host start = some next → ∀ asked,
          (esconfBackendGet host next channelName asked).map Prod.fst =
            (esconfBackendGet host start channelName asked).map Prod.fst := by
  have serves := set_serves host channelValid propertyValid short set lower faithful done
  have kept := run_serves host set serves spares apart ran
  refine ⟨get_of_serves host channelValid propertyValid set kept, ?_⟩
  intro start next request other lower' files performed asked
  exact get_other_channel host other lower' files performed asked

def fresh : EsconfBackendPerchannelXml := .idle ∅

/-- The channel is created under the name in lower case, and looked for under
the name as it is. -/
theorem set_value_lost :
    ∃ after error, esconfChannelIsValid "Panel".toList = none ∧
      esconfBackendSet (.bare []) fresh "Panel".toList "/a".toList (.int 1) =
        some (.ok (), after) ∧
      esconfBackendGet (.bare []) after "Panel".toList "/a".toList =
        some (.error (some error), after) :=
  ⟨_, _, by decide, rfl, rfl⟩

theorem set_value_stays_panel :
    ∃ after final, esconfBackendSet (.bare []) fresh "panel".toList "/a".toList (.int 1) =
        some (.ok (), after) ∧
      run (.bare []) after [.set "panel".toList "/b".toList (.int 2),
        .reset "panel".toList "/b".toList true] = some final ∧
      esconfBackendGet (.bare []) final "panel".toList "/a".toList = some (.ok (.int 1), final) := by
  refine ⟨_, _, rfl, rfl, (set_value_stays (.bare []) fresh _ _ "panel".toList "/a".toList (.int 1)
    [.set "panel".toList "/b".toList (.int 2), .reset "panel".toList "/b".toList true] (by decide)
    (by decide) (by decide) rfl (by decide) ?_ rfl ?_ ?_ rfl).1⟩
  · intro old middle missing
    cases missing
  · intro request member
    rcases List.mem_pair.mp member with rfl | rfl <;> intro _ <;> decide
  · intro request member
    rcases List.mem_pair.mp member with rfl | rfl <;> intro _ <;> rfl

end Esconf
