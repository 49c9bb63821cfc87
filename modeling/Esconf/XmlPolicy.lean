import Esconf.ElementSteps

/-! No user file overrides system policy: whatever events a user file delivers,
system values and locks stay, and locked properties get no user value. -/

namespace Esconf

open NamedTree

namespace EsconfProperty

def Overlaid (before after : EsconfProperty) : Prop :=
  after.systemValue = before.systemValue ∧ after.locked = before.locked ∧
    (before.locked = true → after.value = before.value)

theorem Overlaid.refl (prop : EsconfProperty) : Overlaid prop prop := ⟨rfl, rfl, fun _ => rfl⟩

theorem Overlaid.trans {first second third : EsconfProperty} (one : Overlaid first second)
    (two : Overlaid second third) : Overlaid first third := by
  obtain ⟨system, lock, value⟩ := one
  obtain ⟨system', lock', value'⟩ := two
  refine ⟨system'.trans system, lock'.trans lock, ?_⟩
  intro locked
  exact (value' (lock.trans locked)).trans (value locked)

theorem Overlaid.withValue {prop : EsconfProperty} (unlocked : prop.locked = false)
    (value : GValue) : Overlaid prop (prop.withValue value) := by
  refine ⟨rfl, rfl, ?_⟩
  intro locked
  rw [unlocked] at locked
  cases locked

end EsconfProperty

structure UserOverlay (before after : PropTree) : Prop where
  slots : ∀ path, (before.slot path).Overlaid (after.slot path)
  nodes : ∀ path, (descend before path).isSome → (descend after path).isSome

namespace UserOverlay

theorem refl (proptree : PropTree) : UserOverlay proptree proptree :=
  ⟨fun _ => .refl _, fun _ there => there⟩

theorem trans {first second third : PropTree} (one : UserOverlay first second)
    (two : UserOverlay second third) : UserOverlay first third :=
  ⟨fun path => (one.slots path).trans (two.slots path),
    fun path there => two.nodes path (one.nodes path there)⟩

theorem locked {before after : PropTree} (overlay : UserOverlay before after)
    (path : List CString) : (after.slot path).locked = (before.slot path).locked :=
  (overlay.slots path).2.1

theorem write {proptree : PropTree} {path : List CString} {g : EsconfProperty → EsconfProperty}
    (allowed : (proptree.slot path).Overlaid (g (proptree.slot path))) :
    UserOverlay proptree (update g path proptree) := by
  refine ⟨?_, fun other => descend_update_isSome g path other proptree⟩
  intro other
  rw [slot_update]
  split
  · next same => rw [same.1]; exact allowed
  · exact .refl _

end UserOverlay

/-- What holds while a user file is read into a tree. `pointer` is the part that
value elements depend on: the slot they are added to is not locked. -/
structure UserReading (start : PropTree) (state : XmlParserState) : Prop where
  user : state.isSystemFile = false
  channelUnlocked : state.channel.locked = false
  overlay : UserOverlay start state.properties
  pointer : ∀ name, state.listValue = some name →
    (state.properties.slot (nameParts name)).locked = false

namespace UserReading

variable {start : PropTree} {state : XmlParserState}

theorem withProperties (reading : UserReading start state) {properties : PropTree}
    (overlay : UserOverlay state.properties properties) :
    UserReading start (state.withProperties properties) := by
  refine ⟨reading.user, reading.channelUnlocked, reading.overlay.trans overlay, ?_⟩
  intro name pointed
  exact (overlay.locked _).trans (reading.pointer name pointed)

theorem updateSlot (reading : UserReading start state) {name : CString}
    (unlocked : (state.properties.slot (nameParts name)).locked = false) (f : GValue → GValue) :
    UserReading start (state.updateSlot name f) := by
  refine reading.withProperties (UserOverlay.write ?_)
  simp only [reading.user, Bool.false_eq_true, ↓reduceIte]
  exact .withValue unlocked _

theorem updateSlot_locked (reading : UserReading start state) (name : CString)
    (f : GValue → GValue) (path : List CString) :
    ((state.updateSlot name f).properties.slot path).locked =
      (state.properties.slot path).locked := by
  change (PropTree.slot (update _ _ _) path).locked = _
  rw [slot_update]
  split
  · next same => rw [same.1]; simp [reading.user]
  · rfl

end UserReading

section Handlers

variable {start : PropTree} {state : XmlParserState} (host : Host)

theorem xmlPropertyValue_user (reading : UserReading start state) {fullpath : CString}
    (type : CString) (value : Option CString)
    (unlocked : (state.properties.slot (nameParts fullpath)).locked = false) :
    UserReading start (xmlPropertyValue host state fullpath type value).state := by
  have entered : UserReading start (enterProperty fullpath state) :=
    ⟨reading.user, reading.channelUnlocked, reading.overlay, reading.pointer⟩
  rcases xmlPropertyValue_cases host fullpath type value with
    ⟨error, outcome⟩ | outcome | ⟨zero, outcome⟩ | ⟨zero, error, outcome⟩ | ⟨parsed, outcome⟩ |
      ⟨parsed, outcome⟩ <;> rw [outcome]
  · exact reading
  · exact entered
  · exact reading.updateSlot unlocked fun _ => zero
  · exact reading.updateSlot unlocked fun _ => zero
  · exact entered.updateSlot unlocked fun _ => parsed
  · have set := entered.updateSlot unlocked fun _ => parsed
    refine ⟨set.user, set.channelUnlocked, set.overlay, ?_⟩
    intro name pointed
    cases pointed
    exact (entered.updateSlot_locked fullpath (fun _ => parsed) _).trans unlocked

theorem Cleared.userOverlay {fullpath : CString} {opened : PropTree}
    (cleared : Cleared state.isSystemFile (nameParts fullpath) state.properties opened)
    (user : state.isSystemFile = false) (unskipped : ¬Skipped state fullpath)
    (valid : propNameIsValid fullpath = true)
    (lock : (opened.slot (nameParts fullpath)).locked =
      (state.properties.slot (nameParts fullpath)).locked) :
    UserOverlay state.properties opened ∧ (opened.slot (nameParts fullpath)).locked = false := by
  have unlocked : (state.properties.slot (nameParts fullpath)).locked = false := by
    rw [Bool.eq_false_iff]
    exact fun locked => unskipped ((skipped_iff valid).mpr ⟨user, locked⟩)
  refine ⟨⟨?_, cleared.kept⟩, lock.trans unlocked⟩
  intro path
  rw [cleared.slot lock, user]
  split
  · next same =>
      rw [same]
      exact .withValue unlocked _
  · exact .refl _

theorem xmlPropertyAt_user (reading : UserReading start state) {fullpath : CString}
    (short : fullpath.length < maxPropPath) (type : CString) (attributes : Attributes) :
    UserReading start (xmlPropertyAt host state fullpath type attributes).state := by
  rcases xmlPropertyAt_cases host (loadable_of_unlocked reading.channelUnlocked) short type
      attributes with
    ⟨_, passed⟩ | ⟨_, _, faulty⟩ | ⟨unskipped, valid, opened, cleared, lock, locks⟩
  · rw [passed]
    exact ⟨reading.user, reading.channelUnlocked, reading.overlay, reading.pointer⟩
  · rw [faulty]
    exact reading
  obtain ⟨overlay, unlocked⟩ :=
    cleared.userOverlay reading.user unskipped valid (lock reading.channelUnlocked)
  rw [locks]
  rcases xmlPropertyLocks_cases host cleared type attributes with
    ⟨_, error, refused⟩ | ⟨allowed, ready, _, same, value⟩
  · rw [refused]
    exact reading.withProperties overlay
  · have free : lockedState host attributes = none := by
      rw [← Option.not_isSome_iff_eq_none]
      exact fun given => allowed ⟨given, reading.user⟩
    rw [value, same free]
    exact xmlPropertyValue_user host (reading.withProperties overlay) type _ unlocked

theorem xmlHandleProperty_user (reading : UserReading start state) (attributes : Attributes) :
    UserReading start (xmlHandleProperty host state attributes).state := by
  unfold xmlHandleProperty
  split
  · exact reading
  · split
    · exact xmlPropertyAt_user host reading (elementPath_length _ _) _ attributes
    · exact reading

theorem xmlHandleValue_user (reading : UserReading start state) (attributes : Attributes) :
    UserReading start (xmlHandleValue host state attributes).state := by
  rcases xmlHandleValue_cases host attributes with ⟨error, outcome⟩ | outcome | ⟨parsed, outcome⟩ <;>
    rw [outcome]
  · exact reading
  · exact reading
  · change UserReading start (addElement parsed state)
    unfold addElement
    split
    · exact ⟨reading.user, reading.channelUnlocked, reading.overlay, reading.pointer⟩
    · next slot pointed =>
        have added := reading.updateSlot (reading.pointer slot pointed) (ptrArrayAdd parsed)
        exact ⟨added.user, added.channelUnlocked, added.overlay, added.pointer⟩

theorem xmlHandleChannel_user (reading : UserReading start state) (attributes : Attributes) :
    UserReading start (xmlHandleChannel host state attributes).state := by
  rcases xmlHandleChannel_cases host state attributes with
    ⟨error, outcome⟩ | outcome | ⟨system, outcome⟩
  · rw [outcome]
    exact reading
  · rw [outcome]
    exact ⟨reading.user, reading.channelUnlocked, reading.overlay, reading.pointer⟩
  · rw [reading.user] at system
    cases system

theorem handleEvent_user (reading : UserReading start state) (event : MarkupEvent) :
    UserReading start (handleEvent host state event).state := by
  cases event with
  | startElement element attributes =>
      change UserReading start (startElem host state element attributes).state
      rcases startElem_cases host state element attributes with
        ⟨error, outcome⟩ | ⟨_, _, outcome⟩ | ⟨_, _, outcome⟩ | ⟨_, _, outcome⟩ <;> rw [outcome]
      · exact reading
      · exact xmlHandleChannel_user host reading attributes
      · exact xmlHandleProperty_user host reading attributes
      · exact xmlHandleValue_user host reading attributes
  | endElement element =>
      obtain ⟨channel, system, pointer⟩ := endElem_keeps state
      change UserReading start (endElem state)
      constructor
      · exact system.trans reading.user
      · rw [channel]
        exact reading.channelUnlocked
      · unfold XmlParserState.properties
        rw [channel]
        exact reading.overlay
      · intro name pointed
        unfold XmlParserState.properties
        rw [channel]
        exact reading.pointer name (pointer name pointed)

theorem parseEvents_user (reading : UserReading start state) (events : List MarkupEvent) :
    UserReading start (parseEvents host state events).state :=
  @parseEvents_keeps host (UserReading start)
    (fun _ event reading => handleEvent_user host reading event) state reading events

end Handlers

theorem userReading_start {channel : EsconfChannel} (unlocked : channel.locked = false) :
    UserReading channel.properties (startState channel false) :=
  ⟨rfl, unlocked, UserOverlay.refl _, nofun⟩

/-- Whatever a user file contains, up to its end or the point reading stops at,
it changes no system value and no lock, and sets no locked property. -/
theorem userFile_keeps_policy (host : Host) (channel : EsconfChannel) (events : List MarkupEvent)
    (unlocked : channel.locked = false)
    (noUserValues : ∀ path, (channel.properties.slot path).value = .invalid)
    (path : List CString) (node : PropTree) (found : descend channel.properties path = some node) :
    ∃ node', descend (parseEvents host (startState channel false) events).state.properties path =
        some node' ∧
      node'.data.systemValue = node.data.systemValue ∧ node'.data.locked = node.data.locked ∧
      (node.data.locked = true →
        node'.data.value = .invalid ∧ node'.data.effective = node.data.effective) := by
  have reading := parseEvents_user host (userReading_start unlocked) events
  have there := reading.overlay.nodes path (by rw [found]; rfl)
  obtain ⟨node', found'⟩ := Option.isSome_iff_exists.mp there
  have slots := reading.overlay.slots path
  have before : channel.properties.slot path = node.data := lookup_of_descend found
  have after : PropTree.slot (parseEvents host (startState channel false) events).state.properties
      path = node'.data := lookup_of_descend found'
  have unset := noUserValues path
  rw [before] at unset
  rw [before, after] at slots
  obtain ⟨system, lock, value⟩ := slots
  refine ⟨node', found', system, lock, ?_⟩
  intro locked
  have same := value locked
  refine ⟨same.trans unset, ?_⟩
  rw [EsconfProperty.effective, EsconfProperty.effective, same, system]

def lockedDefault : EsconfChannel :=
  ⟨.node "/".toList .blank [.node "a".toList ⟨.invalid, .int 1, true⟩ []], false, false⟩

/-- A user file that writes the locked property, adds a property below it and
then tries to lock that one. -/
def intrudingEvents : List MarkupEvent :=
  [.startElement "channel".toList [("name".toList, "c".toList), ("version".toList, "1.0".toList)],
    .startElement "property".toList
      [("name".toList, "a".toList), ("type".toList, "int".toList), ("value".toList, "2".toList)],
    .startElement "property".toList [("name".toList, "b".toList), ("type".toList, "array".toList)],
    .startElement "value".toList [("type".toList, "int".toList), ("value".toList, "3".toList)],
    .endElement "value".toList, .endElement "property".toList,
    .startElement "property".toList
      [("name".toList, "b".toList), ("type".toList, "int".toList), ("locked".toList, "*".toList)]]

theorem userFile_keeps_policy_intruding :
    ∃ node', descend (parseEvents (.bare []) (startState lockedDefault false)
        intrudingEvents).state.properties ["a".toList] = some node' ∧
      node'.data.systemValue = .int 1 ∧ node'.data.locked = true ∧
      (true = true → node'.data.value = .invalid ∧ node'.data.effective = .int 1) := by
  have clean : All (fun prop => prop.value = .invalid) lockedDefault.properties := by
    refine .node rfl ?_
    intro child member
    rw [List.mem_singleton.mp member]
    exact .node rfl nofun
  exact userFile_keeps_policy (.bare []) lockedDefault intrudingEvents rfl
    (fun path => clean.lookup rfl path) ["a".toList] _ rfl

end Esconf
