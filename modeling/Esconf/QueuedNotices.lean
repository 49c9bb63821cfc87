import Esconf.DaemonLives
import Esconf.FailedResets
import Esconf.Indentation
import Esconf.Notices

/-! The notices that calls leave behind: those about a channel come from calls about it, and
name every property whose value has changed. -/

namespace Esconf

open NamedTree

structure Notifies (channelName : CString) (before after : EsconfBackendPerchannelXml) : Prop where
  notices : ∃ added : List CString,
    after.notices = before.notices ++ added.map (Prod.mk channelName)
  registered : after.propChangedFunc = before.propChangedFunc

namespace Notifies

variable {channelName : CString} {before middle after : EsconfBackendPerchannelXml}

theorem still (same : after.notices = before.notices)
    (registered : after.propChangedFunc = before.propChangedFunc) :
    Notifies channelName before after :=
  ⟨⟨[], same.trans (List.append_nil _).symm⟩, registered⟩

theorem refl (channelName : CString) (xbpx : EsconfBackendPerchannelXml) :
    Notifies channelName xbpx xbpx := still rfl rfl

theorem trans (one : Notifies channelName before middle) (two : Notifies channelName middle after) :
    Notifies channelName before after := by
  obtain ⟨first, told⟩ := one.notices
  obtain ⟨second, told'⟩ := two.notices
  refine ⟨⟨first ++ second, ?_⟩, two.registered.trans one.registered⟩
  rw [told', told, List.map_append, List.append_assoc]

theorem propChanged (xbpx : EsconfBackendPerchannelXml) (channelName property : CString) :
    Notifies channelName xbpx (xbpx.propChanged channelName property) := by
  unfold EsconfBackendPerchannelXml.propChanged
  split
  · exact ⟨⟨[property], rfl⟩, rfl⟩
  · exact refl channelName xbpx

theorem propsChanged (xbpx : EsconfBackendPerchannelXml) (channelName : CString)
    (properties : List CString) :
    Notifies channelName xbpx (Esconf.propsChanged xbpx channelName properties) := by
  induction properties generalizing xbpx with
  | nil => exact refl channelName xbpx
  | cons property rest ih => exact (propChanged xbpx channelName property).trans (ih _)

end Notifies

section Calls

variable (host : Host) {channelName : CString}

theorem findChannel_notifies {xbpx after : EsconfBackendPerchannelXml}
    {found : Except GError (CString × EsconfChannel)}
    (done : findChannel host xbpx channelName = some (found, after)) :
    Notifies channelName xbpx after := by
  unfold findChannel at done
  split at done
  · cases done
    exact .refl _ _
  split at done
  · cases done
  · cases done
    exact .refl _ _
  · cases done
    exact .still rfl rfl

theorem setIn_notifies (xbpx : EsconfBackendPerchannelXml) (key : CString)
    (channel : EsconfChannel) (property : CString) (value : GValue) :
    Notifies channelName xbpx (setIn xbpx key channel channelName property value).2 := by
  have told : ∀ properties : PropTree, Notifies channelName xbpx
      ((xbpx.propChanged channelName property).scheduleSave key { channel with properties }) :=
    fun properties => (Notifies.propChanged xbpx channelName property).trans (.still rfl rfl)
  unfold setIn
  split
  · split
    · exact .refl _ _
    split
    · exact .refl _ _
    · exact told _
  · exact told _

theorem onChannel_notifies {α : Type} {xbpx : EsconfBackendPerchannelXml}
    {operation : CString → EsconfChannel → EsconfBackendPerchannelXml →
      Except GError α × EsconfBackendPerchannelXml}
    (notifies : ∀ key channel xbpx, Notifies channelName xbpx (operation key channel xbpx).2)
    {result : Except GError α × EsconfBackendPerchannelXml}
    (done : onChannel host xbpx channelName operation = some result) :
    Notifies channelName xbpx result.2 := by
  rcases onChannel_cases host done with
    ⟨key, channel, middle, found, rfl⟩ | ⟨error, middle, found, same⟩
  · exact (findChannel_notifies host found).trans (notifies key channel middle)
  · rw [same]
    exact findChannel_notifies host found

theorem perchannelXmlReset_notifies {xbpx : EsconfBackendPerchannelXml} {property : CString}
    {recursive : Bool} {result : Except GError Unit × EsconfBackendPerchannelXml}
    (done : perchannelXmlReset host xbpx channelName property recursive = some result) :
    Notifies channelName xbpx result.2 := by
  refine onChannel_notifies host ?_ done
  intro key channel xbpx
  dsimp only
  split
  · split
    · exact .refl _ _
    · exact (Notifies.propChanged xbpx channelName property).trans (.still rfl rfl)
  split
  · split
    · exact .refl _ _
    · exact (Notifies.propsChanged xbpx channelName _).trans (.still rfl rfl)
  · have emptied := Notifies.propsChanged xbpx channelName (resetNotices [] channel.properties)
    unfold doResetChannel
    dsimp only
    split
    · exact emptied.trans (.still rfl rfl)
    · exact emptied.trans (.still rfl rfl)

theorem perform_notifies {xbpx after : EsconfBackendPerchannelXml} {request : Request}
    (done : request.perform host xbpx = some after) : Notifies request.channel xbpx after := by
  rcases perform_cases host done with rfl | reached
  · exact .refl _ _
  cases request with
  | set channel property value =>
      obtain ⟨result, performed⟩ := reached
      rcases perchannelXmlSet_cases host performed with
        ⟨key, found, middle, looked, same⟩ | ⟨error, middle, looked, same⟩
      · cases (congrArg Prod.snd same).symm
        exact (findChannel_notifies host looked).trans (setIn_notifies middle key found _ _)
      · cases (congrArg Prod.snd same).symm
        have created : Notifies channel middle (middle.store (gAsciiStrdown channel) .root) :=
          .still rfl rfl
        exact ((findChannel_notifies host looked).trans created).trans (setIn_notifies _ _ _ _ _)
  | get channel property =>
      obtain ⟨result, performed⟩ := reached
      refine onChannel_notifies host ?_ performed
      intro key channel xbpx
      split <;> exact .refl _ _
  | getAll channel propertyBase =>
      obtain ⟨result, performed⟩ := reached
      refine onChannel_notifies host ?_ performed
      intro key channel xbpx
      dsimp only
      split
      · split <;> exact .refl _ _
      · exact .refl _ _
  | «exists» channel property =>
      obtain ⟨result, performed⟩ := reached
      unfold perchannelXmlExists at performed
      split at performed
      · cases performed
      · next found =>
          cases performed
          exact findChannel_notifies host found
      · next found =>
          cases performed
          exact findChannel_notifies host found
  | reset channel property recursive =>
      obtain ⟨result, performed⟩ := reached
      exact perchannelXmlReset_notifies host performed
  | isPropertyLocked channel property =>
      obtain ⟨result, performed⟩ := reached
      exact onChannel_notifies host (fun _ _ _ => .refl _ _) performed

end Calls

section Tops

variable {tree : PropTree}

def SameTop (before after : PropTree) : Prop := after.key = before.key ∧ after.data = before.data

theorem SameTop.refl (tree : PropTree) : SameTop tree tree := ⟨rfl, rfl⟩

theorem SameTop.trans {before middle after : PropTree} (one : SameTop before middle)
    (two : SameTop middle after) : SameTop before after :=
  ⟨two.1.trans one.1, two.2.trans one.2⟩

theorem sameTop_alterAt (f : PropTree → Option PropTree) {path : List CString}
    (full : path ≠ []) (tree : PropTree) : SameTop tree ((alterAt f path tree).getD tree) := by
  obtain ⟨key, prop, children⟩ := tree
  cases path with
  | nil => exact absurd rfl full
  | cons name rest => exact ⟨rfl, rfl⟩

theorem sameTop_graft (path : List CString) (child tree : PropTree) :
    SameTop tree (graft path child tree) := by
  obtain ⟨key, prop, children⟩ := tree
  cases path with
  | nil => exact ⟨rfl, rfl⟩
  | cons name rest => exact ⟨rfl, rfl⟩

theorem sameTop_addPropertyWithin {fuel : Nat} {name : CString} {prop : EsconfProperty}
    {grown : PropTree} (done : addPropertyWithin fuel tree name prop = some grown) :
    SameTop tree grown := by
  induction fuel generalizing name prop grown with
  | zero => cases done
  | succ fuel ih =>
      rw [addPropertyWithin] at done
      split at done
      · dsimp only at done
        split at done
        · cases done
          exact sameTop_graft _ _ _
        split at done
        · cases done
          exact sameTop_graft _ _ _
        · cases done
          refine SameTop.trans ?_ (sameTop_graft _ _ _)
          cases above : addPropertyWithin fuel tree (uptoLastSlash (gStrlcpy name maxPropPath))
              .blank with
          | none => exact .refl tree
          | some middle => exact ih above
      · cases done

theorem sameTop_removeParents (upward : List CString) (tree : PropTree) :
    SameTop tree (removeParents upward tree) := by
  induction upward generalizing tree with
  | nil => exact .refl tree
  | cons name above ih =>
      rcases removeParents_step name above tree with ⟨key, prop, _, _, step⟩ | stays
      · rw [step]
        exact (sameTop_alterAt _ (by simp) tree).trans (ih _)
      · rw [stays]
        exact .refl tree

theorem sameTop_proptreeReset {name : CString} {after : PropTree}
    (done : proptreeReset tree name = some after) : SameTop tree after := by
  unfold proptreeReset at done
  split at done
  · cases done
  · next looked =>
      have full := nameParts_ne_nil (proptreeLookupNode_some.mp looked).1
      split at done
      · split at done
        · cases done
          exact sameTop_alterAt _ full tree
        · cases done
          exact (sameTop_alterAt _ full tree).trans (sameTop_removeParents _ _)
      · cases done

theorem sameTop_resetBelow {name : CString} (valid : propNameIsValid name = true)
    (tree : PropTree) : SameTop tree (resetBelow tree name) :=
  have full := nameParts_ne_nil valid
  (sameTop_alterAt _ full tree).trans (sameTop_alterAt _ full _)

theorem WellNamed.grown {after : PropTree} (named : WellNamed tree) (top : SameTop tree after)
    {paths : List (List CString)} (grown : Grown paths tree after)
    (plain : ∀ parts ∈ paths, ∀ name ∈ parts, name ≠ [] ∧ '/' ∉ name)
    (short : ∀ parts ∈ paths, (partsName parts).length < maxPropPath) : WellNamed after := by
  have origin : ∀ path node, descend after path = some node →
      (∃ old, descend tree path = some old) ∨ ∃ parts ∈ paths, path <+: parts := by
    intro path node here
    rcases grown.nodes path (by rw [here]; rfl) with old | new
    · exact Or.inl (Option.isSome_iff_exists.mp old)
    · exact Or.inr new
  refine ⟨top.1.trans named.root, top.2.trans named.blank, grown.distinct named.distinct, ?_, ?_,
    ?_⟩
  · intro path node here
    rcases origin path node here with ⟨old, found⟩ | ⟨parts, inside, below⟩
    · exact named.plain path old found
    · exact fun name member => (plain parts inside name (below.subset member)).2
  · intro path node full here
    rcases origin path node here with ⟨old, found⟩ | ⟨parts, inside, below⟩
    · exact named.valid path old full found
    · exact propNameIsValid_partsName full fun name member =>
        plain parts inside name (below.subset member)
  · intro path node here
    rcases origin path node here with ⟨old, found⟩ | ⟨parts, inside, below⟩
    · exact named.short path old found
    · exact Nat.lt_of_le_of_lt (partsName_shorter below) (short parts inside)

theorem setTree_grows {name : CString} (valid : propNameIsValid name = true)
    (short : name.length < maxPropPath) (value : GValue) :
    SameTop tree (setTree tree name value) ∧ Grown [nameParts name] tree (setTree tree name value) := by
  have same : Grown [nameParts name] tree tree := ⟨id, fun _ there => Or.inl there⟩
  unfold setTree
  cases looked : proptreeLookup tree name with
  | some prop =>
      dsimp only
      split
      · exact ⟨.refl tree, same⟩
      split
      · exact ⟨.refl tree, same⟩
      · exact ⟨sameTop_alterAt _ (nameParts_ne_nil valid) tree, same.trans (Grown.update _ _ _)⟩
  | none =>
      obtain ⟨grown, done, _⟩ := proptreeAddProperty_spec value false valid short looked
      dsimp only
      rw [done]
      exact ⟨sameTop_addPropertyWithin done, Grown.add valid short looked done⟩

theorem reset_grows (host : Host) {xbpx after : EsconfBackendPerchannelXml}
    {channelName property : CString} {recursive : Bool} {channel : EsconfChannel}
    (loaded : xbpx.channels.lookup channelName = some channel)
    (distinct : Distinct channel.properties) (valid : propNameIsValid property = true)
    {reply : Except GError Unit}
    (done : perchannelXmlReset host xbpx channelName property recursive = some (reply, after)) :
    ∃ properties dirty, after.channels.lookup channelName =
        some { channel with properties, dirty } ∧
      SameTop channel.properties properties ∧ Grown [] channel.properties properties := by
  have long : 2 ≤ property.length := by
    obtain ⟨c, rest, rfl, _⟩ := propNameIsValid_iff.mp valid
    simp
  rw [perchannelXmlReset, onChannel_loaded host loaded] at done
  cases recursive with
  | false =>
      rw [if_pos (by rfl)] at done
      cases erased : proptreeReset channel.properties property with
      | none =>
          rw [erased] at done
          cases done
          exact ⟨_, channel.dirty, loaded, .refl _, .refl _⟩
      | some properties =>
          rw [erased] at done
          cases done
          exact ⟨properties, true, AList.lookup_insert _, sameTop_proptreeReset erased,
            grown_proptreeReset distinct erased⟩
  | true =>
      rw [if_neg (by decide), if_pos long] at done
      cases looked : proptreeLookupNode channel.properties property with
      | none =>
          rw [looked] at done
          cases done
          exact ⟨_, channel.dirty, loaded, .refl _, .refl _⟩
      | some top =>
          rw [looked] at done
          cases done
          exact ⟨_, true, AList.lookup_insert _, sameTop_resetBelow valid _,
            grown_resetBelow valid distinct⟩

end Tops

/-- A channel of the daemon that holds what maps say, and whose changes are reported. -/
structure Served (channelName : CString) (maps : PropMaps) (xbpx : EsconfBackendPerchannelXml) :
    Prop where
  registered : xbpx.propChangedFunc = true
  loaded : ∃ channel, xbpx.channels.lookup channelName = some channel ∧
    WellNamed channel.properties ∧ Represents channel.properties maps

def Tells (before after : PropMaps) (added : List CString) : Prop :=
  ∀ name, propNameIsValid name = true → after.effective name ≠ before.effective name →
    name ∈ added

theorem tells_touched {tree after : PropTree} {maps maps' : PropMaps}
    (before : Represents tree maps) (later : Represents after maps')
    (system : maps'.system = maps.system) {modification : Modification} {added : List CString}
    (names : NamesTouched tree modification added)
    (only : TouchesOnly tree after modification) : Tells maps maps' added := by
  intro name valid differs
  by_contra silent
  have spared : ¬modification.Touches tree (nameParts name) :=
    fun touched => silent ((names name).mpr ⟨valid, touched⟩)
  have same := (only _).2 spared
  rw [later.user name valid, before.user name valid] at same
  apply differs
  rw [PropMaps.effective, PropMaps.effective, same, system]

theorem PropMaps.step_system (maps : PropMaps) (request : PropRequest) :
    (maps.step request).system = maps.system := by
  cases request with
  | set property value =>
      rw [PropMaps.step]
      split <;> rfl
  | reset property => rfl
  | resetRecursive property => rfl

namespace Served

variable {host : Host} {channelName : CString} {maps : PropMaps}
  {xbpx after : EsconfBackendPerchannelXml}

/-- What a set or a reset leaves of a served channel: what the maps say, and a notice for
whatever has changed. -/
structure Left (channelName : CString) (maps maps' : PropMaps)
    (xbpx after : EsconfBackendPerchannelXml) : Prop where
  served : Served channelName maps' after
  told : ∃ added, after.notices = xbpx.notices ++ added.map (Prod.mk channelName) ∧
    Tells maps maps' added

theorem left_refl (served : Served channelName maps xbpx) : Left channelName maps maps xbpx xbpx :=
  ⟨served, [], (List.append_nil _).symm, fun _ _ differs => absurd rfl differs⟩

theorem filled (served : Served channelName maps xbpx) (host : Host) {property : CString}
    (value : GValue) (accepted : esconfPropertyIsValid property = none)
    (short : property.length < maxPropPath) :
    ∃ after, perchannelXmlSet host xbpx channelName property value = some (.ok (), after) ∧
      Served channelName (maps.step (.set property value)) after := by
  obtain ⟨registered, channel, loaded, named, represents⟩ := served
  have fine := propNameIsValid_of_property accepted
  obtain ⟨after, performed, channel', loaded', represents'⟩ :=
    perform_set host value ⟨channel, loaded, represents⟩ fine short
  refine ⟨after, performed, ?_⟩
  rw [PropRequest.perform, perchannelXmlSet, findChannel_loaded host loaded] at performed
  have done : (setIn xbpx channelName channel channelName property value).2 = after :=
    congrArg Prod.snd (Option.some.inj performed)
  have notifies := @setIn_notifies channelName xbpx channelName channel property value
  rw [done] at notifies
  have tree : ∃ dirty, after.channels.lookup channelName = some { channel with
      properties := setTree channel.properties property value, dirty } := by
    rw [← done]
    exact setIn_tree loaded
  obtain ⟨dirty, entry⟩ := tree
  rw [entry] at loaded'
  cases loaded'
  obtain ⟨top, grown⟩ := @setTree_grows channel.properties property fine short value
  have plain : ∀ parts ∈ [nameParts property], ∀ name ∈ parts, name ≠ [] ∧ '/' ∉ name := by
    intro parts single name member
    rw [List.mem_singleton.mp single] at member
    exact ⟨named_of_property accepted name member, nameParts_plain property name member⟩
  have brief : ∀ parts ∈ [nameParts property], (partsName parts).length < maxPropPath := by
    intro parts single
    rw [List.mem_singleton.mp single, partsName_nameParts fine]
    exact short
  exact ⟨notifies.registered.trans registered, _, entry, named.grown top grown plain brief,
    represents'⟩

theorem set (served : Served channelName maps xbpx) {property : CString} {value : GValue}
    (valid : esconfChannelIsValid channelName = none)
    (accepted : esconfPropertyIsValid property = none) (short : property.length < maxPropPath)
    {reply : Except (Option GError) Unit}
    (done : esconfBackendSet host xbpx channelName property value = some (reply, after)) :
    Left channelName maps (maps.step (.set property value)) xbpx after := by
  obtain ⟨result, performed, later⟩ := served.filled host value accepted short
  obtain ⟨registered, channel, loaded, named, represents⟩ := served
  have ended := done
  rw [esconfBackendSet, guarded_valid xbpx valid accepted, answer, performed] at ended
  cases ended
  obtain ⟨⟨added, notices, names⟩, only⟩ := notices_name_touched host xbpx result channelName
    channel loaded named registered (.set property value) short done
  refine ⟨later, added, notices, ?_⟩
  obtain ⟨_, channel', entry, _, represents'⟩ := later
  exact tells_touched represents represents' (PropMaps.step_system maps _) (names.mpr trivial)
    (only _ entry)

theorem emptied (served : Served channelName maps xbpx) {property : CString} {recursive : Bool}
    (fine : propNameIsValid property = true) {reply : Except GError Unit}
    (performed : perchannelXmlReset host xbpx channelName property recursive =
      some (reply, after)) :
    Served channelName
      (maps.step (if recursive then .resetRecursive property else .reset property)) after := by
  have notifies := perchannelXmlReset_notifies host performed
  obtain ⟨registered, channel, loaded, named, represents⟩ := served
  have long : 2 ≤ property.length := by
    obtain ⟨c, rest, rfl, _⟩ := propNameIsValid_iff.mp fine
    simp
  have holding : Holding channelName after
      (maps.step (if recursive then .resetRecursive property else .reset property)) := by
    cases recursive with
    | false =>
        obtain ⟨_, _, again, _, holding⟩ := perform_reset host ⟨channel, loaded, represents⟩ fine
        rw [PropRequest.perform, performed] at again
        cases again
        exact holding
    | true =>
        obtain ⟨_, _, again, holding⟩ :=
          perform_resetRecursive host ⟨channel, loaded, represents⟩ fine
        rw [PropRequest.perform, performed] at again
        cases again
        exact holding
  obtain ⟨channel', loaded', represents'⟩ := holding
  refine ⟨notifies.registered.trans registered, channel', loaded', ?_, represents'⟩
  cases reply with
  | error error =>
      rw [perchannelXmlReset_part (findChannel_loaded host loaded) (fun _ => long) performed,
        loaded] at loaded'
      cases loaded'
      exact named
  | ok done =>
      obtain ⟨properties, dirty, entry, top, grown⟩ :=
        reset_grows host loaded named.distinct fine performed
      rw [entry] at loaded'
      cases loaded'
      exact named.grown top grown (List.forall_mem_nil _) (List.forall_mem_nil _)

theorem reset (served : Served channelName maps xbpx) {property : CString} {recursive : Bool}
    (valid : esconfChannelIsValid channelName = none)
    (accepted : esconfPropertyIsValid property = none)
    (rebuildable : ∀ channel, xbpx.channels.lookup channelName = some channel →
      (Modification.reset property recursive).Rebuildable channel.properties)
    {reply : Except (Option GError) Unit}
    (done : esconfBackendReset host xbpx channelName property recursive = some (reply, after)) :
    ∃ maps', (maps' = maps ∨
        maps' = maps.step (if recursive then .resetRecursive property else .reset property)) ∧
      Left channelName maps maps' xbpx after := by
  have here := served
  obtain ⟨registered, channel, loaded, named, represents⟩ := served
  have fine := propNameIsValid_of_property accepted
  have long : 2 ≤ property.length := by
    obtain ⟨c, rest, rfl, _⟩ := propNameIsValid_iff.mp fine
    simp
  have ended := done
  rw [reset_accepted host xbpx valid accepted] at ended
  obtain ⟨inner, performed, same⟩ := Option.map_eq_some_iff.mp ended
  obtain ⟨result, last⟩ := inner
  obtain rfl : last = after := congrArg Prod.snd same
  cases result with
  | error error =>
      have still := perchannelXmlReset_part (findChannel_loaded host loaded) (fun _ => long)
        performed
      rw [show last = xbpx from still]
      exact ⟨maps, Or.inl rfl, here.left_refl⟩
  | ok done' =>
      have later := here.emptied fine performed
      refine ⟨_, Or.inr rfl, later, ?_⟩
      cases same
      obtain ⟨⟨added, notices, names⟩, only⟩ := notices_name_touched host xbpx last channelName
        channel loaded named registered (.reset property recursive) trivial done
      obtain ⟨_, channel', entry, _, represents'⟩ := later
      exact ⟨added, notices, tells_touched represents represents' (PropMaps.step_system maps _)
        (names.mpr (rebuildable channel loaded)) (only _ entry)⟩

theorem elsewhere (served : Served channelName maps xbpx) {other : CString}
    (apart : other ≠ channelName) (lower : gAsciiStrdown other = other)
    (confined : Confined other xbpx after) (notifies : Notifies other xbpx after) :
    Served channelName maps after := by
  obtain ⟨registered, channel, loaded, named, represents⟩ := served
  refine ⟨notifies.registered.trans registered, channel, ?_, named, represents⟩
  rw [confined.channels channelName apart.symm (by rw [lower]; exact apart.symm)]
  exact loaded

theorem got (served : Served channelName maps xbpx) (host : Host) {property : CString}
    (fine : propNameIsValid property = true) :
    perchannelXmlGet host xbpx channelName property =
      some (if (maps.effective property).isSet then .ok (maps.effective property)
        else .error (propertyNotFound property channelName), xbpx) := by
  obtain ⟨_, channel, loaded, _, represents⟩ := served
  have same : effectiveAt channel property = maps.effective property :=
    (effectiveAt_slot fine).trans (represents.effective fine)
  rw [perchannelXmlGet, onChannel_loaded host loaded, same]
  split <;> rfl

theorem get (served : Served channelName maps xbpx) (host : Host)
    (valid : esconfChannelIsValid channelName = none) {property : CString}
    (accepted : esconfPropertyIsValid property = none) :
    esconfBackendGet host xbpx channelName property =
      some (if (maps.effective property).isSet then .ok (maps.effective property)
        else .error (some (propertyNotFound property channelName)), xbpx) := by
  rw [esconfBackendGet, guarded_valid xbpx valid accepted,
    served.got host (propNameIsValid_of_property accepted), answer]
  split <;> rfl

/-- A flush without an error changes nothing of a channel whose values are written as they
are. -/
theorem flushed (served : Served channelName maps xbpx)
    (plain : ∀ name, propNameIsValid name = true →
      formattedValue (maps.user name) = maps.user name)
    {schedule : Schedule} {device left : Device}
    (done : (perchannelXmlFlush host schedule xbpx device).2 = .returned none after left) :
    Served channelName maps after := by
  obtain ⟨registered, channel, loaded, named, represents⟩ := served
  have frame := flushChannels_frame done
  refine ⟨frame.registered.trans registered, ?_⟩
  by_cases dirty : channelName ∈ dirtyChannels xbpx
  · obtain ⟨channel', text, loaded', _, entry, _⟩ :=
      (flushChannels_published (nodup_dirtyChannels xbpx) done).2 channelName dirty
    rw [loaded] at loaded'
    cases loaded'
    have same : formattedTree channel.properties = channel.properties := by
      apply formattedTree_fixed named.distinct
      intro path full
      cases found : descend channel.properties path with
      | none =>
          have blank : channel.properties.slot path = .blank := lookup_of_missing found
          rw [blank]
          rfl
      | some node =>
          have fine := named.valid path node full found
          have parts := nameParts_partsName (named.plain path node found) fine
          have user := represents.user (partsName path) fine
          rw [parts] at user
          rw [user]
          exact plain _ fine
    rw [same] at entry
    exact ⟨_, entry, named, represents⟩
  · rw [frame.entries channelName dirty]
    exact ⟨channel, loaded, named, represents⟩

theorem saved (served : Served channelName maps xbpx)
    (plain : ∀ name, propNameIsValid name = true →
      formattedValue (maps.user name) = maps.user name)
    {saving : Saving} (stays : saving ≠ .finalize) {schedule : Schedule} {device left : Device}
    (done : saving.flushes host schedule xbpx device = some (.returned none after left)) :
    Served channelName maps after := by
  cases saving with
  | timer =>
      rw [Saving.flushes] at done
      split at done
      · have expired : Served channelName maps { xbpx with saveId := false } :=
          ⟨served.registered, served.loaded⟩
        exact expired.flushed plain (Option.some.inj done)
      · cases done
  | flush => exact served.flushed plain (Option.some.inj done)
  | finalize => exact absurd rfl stays

end Served

end Esconf
