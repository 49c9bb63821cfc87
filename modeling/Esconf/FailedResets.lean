import Esconf.ChannelFrames
import Esconf.Notices

/-! Resets that fail, and what they leave in the table of channels and among the notices. -/

namespace Esconf

open NamedTree

variable (host : Host)

def SameGets (before after : EsconfBackendPerchannelXml) (channelName : CString) : Prop :=
  ∀ property, (esconfBackendGet host after channelName property).map Prod.fst =
    (esconfBackendGet host before channelName property).map Prod.fst

/-- No get on any channel tells the two states apart and nothing was notified between them. -/
structure NothingChanged (before after : EsconfBackendPerchannelXml) : Prop where
  notices : after.notices = before.notices
  gets : ∀ channelName, SameGets host before after channelName

def ResetAccepted (channelName property : CString) (recursive : Bool) : Prop :=
  property ≠ [] ∧ [esconfChannelIsValid channelName, recursiveOnly property recursive,
    baseIsValid property].findSome? id = none

def Unheard (xbpx : EsconfBackendPerchannelXml) (channel : EsconfChannel) : Prop :=
  xbpx.propChangedFunc = true → resetNotices [] channel.properties = []

/-- A channel that is put into the table under the lower-case form of its name changes the
gets on no other channel. -/
def KeptAside (xbpx : EsconfBackendPerchannelXml) (channelName : CString)
    (channel : EsconfChannel) : Prop :=
  gAsciiStrdown channelName = channelName ∨
    SameGets host xbpx (xbpx.store (gAsciiStrdown channelName) channel) (gAsciiStrdown channelName)

/-- The state is one in which a reset that fails changes nothing: if it is of the whole
channel, no user value is there to be notified and, where the channel is in the table, its
files answer every get like it; a channel that has to be loaded is kept aside. -/
def FailsHarmlessly (xbpx : EsconfBackendPerchannelXml) (channelName property : CString) :
    Prop :=
  match xbpx.channels.lookup channelName, loadChannel host xbpx.disk channelName with
  | some channel, _ => property = "/".toList → Unheard xbpx channel ∧
      SameGets host xbpx { xbpx with channels := xbpx.channels.erase channelName } channelName
  | none, some (.ok channel) =>
      if property = "/".toList then Unheard xbpx channel ∧ KeptAside host xbpx channelName
        { channel with properties := nodesDoPropReset channel.properties }
      else KeptAside host xbpx channelName channel
  | none, _ => True

variable {host} {xbpx after : EsconfBackendPerchannelXml} {channelName property : CString}

theorem sameGets_refl (xbpx : EsconfBackendPerchannelXml) (name : CString) :
    SameGets host xbpx xbpx name := fun _ => rfl

theorem nothingChanged_refl (xbpx : EsconfBackendPerchannelXml) :
    NothingChanged host xbpx xbpx := ⟨rfl, sameGets_refl xbpx⟩

theorem sameGets_congr {other : EsconfBackendPerchannelXml} {name : CString}
    (entry : after.channels.lookup name = other.channels.lookup name)
    (files : after.disk = other.disk) :
    SameGets host xbpx after name ↔ SameGets host xbpx other name := by
  have same := fun asked =>
    @get_congr host other after name entry (fun _ _ => congrFun files _) asked
  constructor
  · intro gets asked
    rw [← same, gets]
  · intro gets asked
    rw [same, gets]

theorem sameGets_one {key : CString}
    (others : ∀ name, name ≠ key → after.channels.lookup name = xbpx.channels.lookup name)
    (files : after.disk = xbpx.disk) :
    (∀ name, SameGets host xbpx after name) ↔ SameGets host xbpx after key := by
  constructor
  · exact fun all => all key
  · intro gets name
    by_cases same : name = key
    · rw [same]
      exact gets
    · exact (sameGets_congr (others name same) files).mpr (sameGets_refl xbpx name)

theorem sameGets_loaded {channel : EsconfChannel}
    (missing : xbpx.channels.lookup channelName = none)
    (loaded : loadChannel host xbpx.disk channelName = some (.ok channel))
    (lower : gAsciiStrdown channelName = channelName) :
    SameGets host xbpx (xbpx.store channelName channel) channelName := by
  have before : findChannel host xbpx channelName =
      some (.ok (channelName, channel), xbpx.store channelName channel) := by
    rw [findChannel_missing host missing loaded, lower]
  have again : findChannel host (xbpx.store channelName channel) channelName =
      some (.ok (channelName, channel), xbpx.store channelName channel) :=
    findChannel_loaded host (AList.lookup_insert _)
  exact get_found host (by rw [before, again])

theorem nothingChanged_loaded {channel : EsconfChannel}
    (missing : xbpx.channels.lookup channelName = none)
    (loaded : loadChannel host xbpx.disk channelName = some (.ok channel)) :
    NothingChanged host xbpx (xbpx.store (gAsciiStrdown channelName) channel) ↔
      KeptAside host xbpx channelName channel := by
  have others : ∀ name, name ≠ gAsciiStrdown channelName →
      (xbpx.store (gAsciiStrdown channelName) channel).channels.lookup name =
        xbpx.channels.lookup name := fun name apart => AList.lookup_insert_ne apart
  constructor
  · exact fun same => Or.inr (same.gets _)
  · intro aside
    refine ⟨rfl, (sameGets_one others rfl).mpr ?_⟩
    rcases aside with lower | same
    · rw [lower]
      exact sameGets_loaded missing loaded lower
    · exact same

theorem propsChanged_notices_iff (xbpx : EsconfBackendPerchannelXml) (channelName : CString)
    (properties : List CString) :
    (propsChanged xbpx channelName properties).notices = xbpx.notices ↔
      (xbpx.propChangedFunc = true → properties = []) := by
  cases registered : xbpx.propChangedFunc with
  | true => simp [propsChanged_notices registered]
  | false =>
      have silent : propsChanged xbpx channelName properties = xbpx := by
        induction properties with
        | nil => rfl
        | cons property rest ih =>
            have first : xbpx.propChanged channelName property = xbpx := by
              rw [EsconfBackendPerchannelXml.propChanged, registered, if_neg Bool.false_ne_true]
            calc
              propsChanged xbpx channelName (property :: rest) =
                  propsChanged (xbpx.propChanged channelName property) channelName rest := rfl
              _ = propsChanged xbpx channelName rest := by rw [first]
              _ = xbpx := ih
      simp [silent]

theorem doResetChannel_failed {key : CString} {channel : EsconfChannel} {error : GError}
    (failed : doResetChannel host xbpx key channel channelName = (.error error, after)) :
    (after.notices = xbpx.notices ↔ Unheard xbpx channel) ∧ after.disk = xbpx.disk ∧
      after.channels = (xbpx.channels.insert key
        { channel with properties := nodesDoPropReset channel.properties }).erase channelName := by
  unfold doResetChannel at failed
  dsimp only at failed
  split at failed
  · cases failed
    refine ⟨propsChanged_notices_iff _ _ _, ?_, ?_⟩
    · simp
    · simp
  · cases failed

theorem perchannelXmlReset_part {key : CString} {channel : EsconfChannel} {error : GError}
    {middle : EsconfBackendPerchannelXml} {recursive : Bool}
    (found : findChannel host xbpx channelName = some (.ok (key, channel), middle))
    (part : recursive = true → 2 ≤ property.length)
    (failed : perchannelXmlReset host xbpx channelName property recursive =
      some (.error error, after)) : after = middle := by
  rw [perchannelXmlReset, onChannel, found] at failed
  dsimp only at failed
  cases recursive with
  | false =>
      cases done : proptreeReset channel.properties property with
      | none =>
          rw [done] at failed
          cases failed
          rfl
      | some properties =>
          rw [done] at failed
          cases failed
  | true =>
      rw [if_neg (by decide), if_pos (part rfl)] at failed
      cases looked : proptreeLookupNode channel.properties property with
      | none =>
          rw [looked] at failed
          cases failed
          rfl
      | some top =>
          rw [looked] at failed
          cases failed

theorem perchannelXmlReset_whole {key : CString} {channel : EsconfChannel} {error : GError}
    {middle : EsconfBackendPerchannelXml}
    (found : findChannel host xbpx channelName = some (.ok (key, channel), middle))
    (failed : perchannelXmlReset host xbpx channelName "/".toList true =
      some (.error error, after)) :
    doResetChannel host middle key channel channelName = (.error error, after) := by
  rw [perchannelXmlReset, onChannel, found] at failed
  exact Option.some_inj.mp failed

theorem nothingChanged_dropped {channel : EsconfChannel} {error : GError}
    (loaded : xbpx.channels.lookup channelName = some channel)
    (failed : perchannelXmlReset host xbpx channelName "/".toList true =
      some (.error error, after)) :
    NothingChanged host xbpx after ↔ Unheard xbpx channel ∧
      SameGets host xbpx { xbpx with channels := xbpx.channels.erase channelName } channelName := by
  obtain ⟨heard, files, table⟩ :=
    doResetChannel_failed (perchannelXmlReset_whole (findChannel_loaded host loaded) failed)
  have others : ∀ name, name ≠ channelName →
      after.channels.lookup name = xbpx.channels.lookup name := by
    intro name apart
    rw [table, AList.lookup_erase_ne apart, AList.lookup_insert_ne apart]
  have gone : after.channels.lookup channelName =
      (xbpx.channels.erase channelName).lookup channelName := by
    rw [table, AList.lookup_erase, AList.lookup_erase]
  have one : (∀ name, SameGets host xbpx after name) ↔ SameGets host xbpx
      { xbpx with channels := xbpx.channels.erase channelName } channelName :=
    (sameGets_one others files).trans (sameGets_congr gone files)
  constructor
  · exact fun same => ⟨heard.mp same.notices, one.mp same.gets⟩
  · exact fun harmless => ⟨heard.mpr harmless.1, one.mpr harmless.2⟩

theorem nothingChanged_cleared {channel : EsconfChannel} {error : GError}
    (missing : xbpx.channels.lookup channelName = none)
    (loaded : loadChannel host xbpx.disk channelName = some (.ok channel))
    (failed : perchannelXmlReset host xbpx channelName "/".toList true =
      some (.error error, after)) :
    NothingChanged host xbpx after ↔ Unheard xbpx channel ∧ KeptAside host xbpx channelName
      { channel with properties := nodesDoPropReset channel.properties } := by
  have found := findChannel_missing host missing loaded
  obtain ⟨heard, files, table⟩ := doResetChannel_failed (perchannelXmlReset_whole found failed)
  have gone : after.channels.lookup channelName = xbpx.channels.lookup channelName := by
    rw [table, AList.lookup_erase, missing]
  have others : ∀ name, name ≠ gAsciiStrdown channelName →
      after.channels.lookup name = xbpx.channels.lookup name := by
    intro name apart
    by_cases same : name = channelName
    · rw [same]
      exact gone
    · rw [table, AList.lookup_erase_ne same, AList.lookup_insert_ne apart,
        EsconfBackendPerchannelXml.store_channels, AList.lookup_insert_ne apart]
  have one : (∀ name, SameGets host xbpx after name) ↔ KeptAside host xbpx channelName
      { channel with properties := nodesDoPropReset channel.properties } := by
    refine (sameGets_one others files).trans ?_
    by_cases lower : gAsciiStrdown channelName = channelName
    · have same : SameGets host xbpx after channelName :=
        (sameGets_congr gone files).mpr (sameGets_refl xbpx channelName)
      rw [lower]
      exact ⟨fun _ => Or.inl lower, fun _ => same⟩
    · have kept : after.channels.lookup (gAsciiStrdown channelName) =
          (xbpx.store (gAsciiStrdown channelName)
            { channel with properties := nodesDoPropReset channel.properties }).channels.lookup
              (gAsciiStrdown channelName) := by
        rw [table, AList.lookup_erase_ne lower, AList.lookup_insert,
          EsconfBackendPerchannelXml.store_channels, AList.lookup_insert]
      refine (sameGets_congr kept files).trans ⟨Or.inr, ?_⟩
      rintro (same | same)
      · exact absurd same lower
      · exact same
  constructor
  · exact fun same => ⟨heard.mp same.notices, one.mp same.gets⟩
  · exact fun harmless => ⟨heard.mpr harmless.1, one.mpr harmless.2⟩

theorem resetAccepted_name {recursive : Bool}
    (accepted : ResetAccepted channelName property recursive) :
    property = "/".toList ∨ 2 ≤ property.length := by
  obtain ⟨nonempty, pass⟩ := accepted
  have base : baseIsValid property = none := by
    have all := List.findSome?_eq_none_iff.mp pass
    exact all _ (List.mem_cons_of_mem _ (List.mem_cons_of_mem _ List.mem_cons_self))
  by_cases root : property = "/".toList
  · exact Or.inl root
  · right
    rw [baseIsValid, if_neg (not_or.mpr ⟨nonempty, root⟩)] at base
    match property, base with
    | [], valid => exact absurd valid (by simp [esconfPropertyIsValid])
    | [first], valid =>
        unfold esconfPropertyIsValid at valid
        dsimp only at valid
        split at valid
        · cases valid
        · cases valid
    | _ :: _ :: _, _ => simp

theorem resetAccepted_recursive {recursive : Bool}
    (accepted : ResetAccepted channelName "/".toList recursive) : recursive = true := by
  have pass := List.findSome?_eq_none_iff.mp accepted.2
  have allowed : recursiveOnly "/".toList recursive = none :=
    pass _ (List.mem_cons_of_mem _ List.mem_cons_self)
  cases recursive with
  | true => rfl
  | false => cases allowed

/-- A reset that is let through and fails changes nothing exactly in such a state. -/
theorem accepted_failed_reset {error : GError} {recursive : Bool}
    (accepted : ResetAccepted channelName property recursive)
    (failed : perchannelXmlReset host xbpx channelName property recursive =
      some (.error error, after)) :
    NothingChanged host xbpx after ↔ FailsHarmlessly host xbpx channelName property := by
  have part : property ≠ "/".toList → recursive = true → 2 ≤ property.length :=
    fun apart _ => (resetAccepted_name accepted).resolve_left apart
  unfold FailsHarmlessly
  cases entry : xbpx.channels.lookup channelName with
  | some channel =>
      dsimp only
      by_cases root : property = "/".toList
      · subst root
        obtain rfl := resetAccepted_recursive accepted
        rw [nothingChanged_dropped entry failed]
        exact ⟨fun harmless _ => harmless, fun harmless => harmless rfl⟩
      · obtain rfl := perchannelXmlReset_part (findChannel_loaded host entry) (part root) failed
        exact ⟨fun _ same => absurd same root, fun _ => nothingChanged_refl _⟩
  | none =>
      cases loaded : loadChannel host xbpx.disk channelName with
      | none =>
          rw [perchannelXmlReset, onChannel, findChannel, entry] at failed
          dsimp only at failed
          rw [loaded] at failed
          cases failed
      | some channel =>
          cases channel with
          | error refusal =>
              rw [perchannelXmlReset, onChannel, findChannel, entry] at failed
              dsimp only at failed
              rw [loaded] at failed
              cases failed
              exact ⟨fun _ => trivial, fun _ => nothingChanged_refl _⟩
          | ok channel =>
              dsimp only
              have found := findChannel_missing host entry loaded
              by_cases root : property = "/".toList
              · subst root
                obtain rfl := resetAccepted_recursive accepted
                rw [if_pos rfl]
                exact nothingChanged_cleared entry loaded failed
              · rw [if_neg root]
                obtain rfl := perchannelXmlReset_part found (part root) failed
                exact nothingChanged_loaded entry loaded

/-- A reset that fails changes no answer and notifies nothing exactly if the checks refuse it
or the state is one in which it fails harmlessly. -/
theorem failed_reset_harmless_iff {recursive : Bool} {error : Option GError}
    (failed : esconfBackendReset host xbpx channelName property recursive =
      some (.error error, after)) :
    NothingChanged host xbpx after ↔ (ResetAccepted channelName property recursive →
      FailsHarmlessly host xbpx channelName property) := by
  by_cases accepted : ResetAccepted channelName property recursive
  · have named : channelName ≠ [] := by
      rintro rfl
      exact absurd (List.findSome?_eq_none_iff.mp accepted.2 _ List.mem_cons_self)
        (by simp [esconfChannelIsValid])
    rw [esconfBackendReset, returnIfEmpty, if_neg (by simp [named, accepted.1]), checked,
      accepted.2] at failed
    obtain ⟨inner, performed, same⟩ := Option.map_eq_some_iff.mp failed
    obtain ⟨outcome, final⟩ := inner
    cases outcome with
    | ok _ => cases same
    | error refusal =>
        cases same
        rw [accepted_failed_reset accepted performed]
        exact ⟨fun harmless _ => harmless, fun harmless => harmless accepted⟩
  · refine ⟨fun _ given => absurd given accepted, fun _ => ?_⟩
    have kept : after = xbpx := by
      by_cases empty : property = []
      · rw [esconfBackendReset, returnIfEmpty, if_pos (by simp [empty])] at failed
        cases failed
        rfl
      · rcases guarded_cases failed with ⟨refusal, same⟩ | ⟨pass, _⟩
        · cases same
          rfl
        · exact absurd ⟨empty, pass⟩ accepted
    rw [kept]
    exact nothingChanged_refl xbpx

def Host.deleting : Host :=
  { Host.bare [] with
    unlinkError := fun disk name =>
      if (disk name).isSome then none else some "No such file or directory".toList }

def EsconfBackendPerchannelXml.unsaved : EsconfBackendPerchannelXml :=
  .idle (AList.singleton "c".toList
    { EsconfChannel.root with
      properties := .node "/".toList .blank
        [.node "a".toList (EsconfProperty.blank.withValue (.int 1)) []]
      dirty := true })

/-- The reset of a channel that was never saved fails, after its user value was dropped and
a notice was given for it. -/
theorem unsaved_reset_harms :
    ∃ error after, esconfBackendReset Host.deleting .unsaved "c".toList "/".toList true =
        some (.error error, after) ∧
      after.notices ≠ EsconfBackendPerchannelXml.unsaved.notices ∧
      ¬SameGets Host.deleting .unsaved after "c".toList := by
  refine ⟨_, _, rfl, by decide, ?_⟩
  intro gets
  cases gets "/a".toList

theorem missing_reset_harmless :
    ∃ error after, esconfBackendReset Host.deleting .unsaved "c".toList "/b".toList false =
        some (.error error, after) ∧ NothingChanged Host.deleting .unsaved after := by
  refine ⟨_, _, rfl, ?_⟩
  apply (@failed_reset_harmless_iff Host.deleting .unsaved _ "c".toList "/b".toList false _
    rfl).mpr
  intro _ whole
  cases whole

end Esconf
