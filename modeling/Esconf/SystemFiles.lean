import Esconf.ElementSteps

/-! Reading system files: a property element opens one node and writes one
system value, and no user value is ever set. -/

namespace Esconf

open NamedTree

/-- A property element has cleared the node of its path, or added it, and may
have set its lock. -/
structure Opened (path : List CString) (before after : PropTree) : Prop where
  there : (descend after path).isSome
  value : (after.slot path).value = .invalid
  systemValue : (after.slot path).systemValue = .invalid
  others : ∀ other, other ≠ path → after.slot other = before.slot other
  kept : ∀ other, (descend before other).isSome → (descend after other).isSome

theorem Cleared.opened {path : List CString} {before after : PropTree}
    (cleared : Cleared true path before after) : Opened path before after :=
  ⟨cleared.there, cleared.value, cleared.systemValue, cleared.others, cleared.kept⟩

theorem xmlPropertyAt_system (host : Host) {state : XmlParserState}
    (system : state.isSystemFile = true) {fullpath : CString}
    (short : fullpath.length < maxPropPath) (type : CString) (attributes : Attributes) :
    (propNameIsValid fullpath = false ∧
        xmlPropertyAt host state fullpath type attributes = .fault state) ∨
      (propNameIsValid fullpath = true ∧ ∃ opened,
        Opened (nameParts fullpath) state.properties opened ∧
        xmlPropertyAt host state fullpath type attributes =
          xmlPropertyValue host (state.withProperties opened) fullpath type
            (attributeValue attributes "value".toList)) := by
  rcases xmlPropertyAt_cases host (fun _ => system) short type attributes with
    ⟨⟨user, _⟩, _⟩ | ⟨_, invalid, faulty⟩ | ⟨_, valid, opened, cleared, _, locks⟩
  · rw [system] at user
    cases user
  · exact .inl ⟨invalid, faulty⟩
  rcases xmlPropertyLocks_cases host cleared type attributes with
    ⟨⟨_, user⟩, _⟩ | ⟨_, ready, cleared', _, value⟩
  · rw [system] at user
    cases user
  · rw [system] at cleared'
    exact .inr ⟨valid, ready, cleared'.opened, locks.trans value⟩

def acceptedName (attributes : Attributes) : Option CString :=
  match unknownAttribute attributes propertyAttributes,
      filled (attributeValue attributes "name".toList),
      filled (attributeValue attributes "type".toList) with
  | none, some name, some _ => some name
  | _, _, _ => none

/-- What `esconf_xml_handle_property` does in a system file. -/
theorem xmlHandleProperty_system (host : Host) (attributes : Attributes) :
    (acceptedName attributes = none ∧
        ∃ error, ∀ state, xmlHandleProperty host state attributes = .error error state) ∨
      ∃ name type, acceptedName attributes = some name ∧
        ∀ state : XmlParserState, state.isSystemFile = true →
          (propNameIsValid (elementPath state.curPath name) = false ∧
            xmlHandleProperty host state attributes = .fault state) ∨
          (propNameIsValid (elementPath state.curPath name) = true ∧ ∃ opened,
            Opened (nameParts (elementPath state.curPath name)) state.properties opened ∧
            xmlHandleProperty host state attributes =
              xmlPropertyValue host (state.withProperties opened)
                (elementPath state.curPath name) type
                (attributeValue attributes "value".toList)) := by
  unfold xmlHandleProperty acceptedName
  cases unknownAttribute attributes propertyAttributes with
  | some unknown => exact .inl ⟨rfl, _, fun _ => rfl⟩
  | none =>
      cases filled (attributeValue attributes "name".toList) with
      | none => exact .inl ⟨rfl, _, fun _ => rfl⟩
      | some name =>
          cases filled (attributeValue attributes "type".toList) with
          | none => exact .inl ⟨rfl, _, fun _ => rfl⟩
          | some type =>
              exact .inr ⟨name, type, rfl, fun state system =>
                xmlPropertyAt_system host system (elementPath_length _ _) type attributes⟩

structure SystemReading (state : XmlParserState) : Prop where
  system : state.isSystemFile = true
  noUserValues : ∀ path, (state.properties.slot path).value = .invalid

namespace SystemReading

variable {state : XmlParserState}

theorem withProperties (reading : SystemReading state) {path : List CString} {opened : PropTree}
    (shape : Opened path state.properties opened) : SystemReading (state.withProperties opened) := by
  refine ⟨reading.system, ?_⟩
  intro other
  by_cases same : other = path
  · rw [same]
    exact shape.value
  · change (opened.slot other).value = _
    rw [shape.others other same]
    exact reading.noUserValues other

theorem updateSlot (reading : SystemReading state) (name : CString) (f : GValue → GValue) :
    SystemReading (state.updateSlot name f) := by
  refine ⟨reading.system, ?_⟩
  intro path
  change (PropTree.slot (update _ _ _) path).value = _
  rw [slot_update]
  split
  · next same =>
      simp only [reading.system, ↓reduceIte]
      exact reading.noUserValues _
  · exact reading.noUserValues path

theorem property (reading : SystemReading state) (host : Host) (attributes : Attributes) :
    SystemReading (xmlHandleProperty host state attributes).state := by
  rcases xmlHandleProperty_system host attributes with
    ⟨_, error, outcome⟩ | ⟨name, type, _, outcome⟩
  · rw [outcome]; exact reading
  rcases outcome state reading.system with ⟨_, outcome⟩ | ⟨_, opened, shape, outcome⟩
  · rw [outcome]; exact reading
  have inside := reading.withProperties shape
  have entered : SystemReading
      (enterProperty (elementPath state.curPath name) (state.withProperties opened)) :=
    ⟨inside.system, inside.noUserValues⟩
  rw [outcome]
  rcases xmlPropertyValue_cases host (elementPath state.curPath name) type
      (attributeValue attributes "value".toList) with
    ⟨error, outcome⟩ | outcome | ⟨zero, outcome⟩ | ⟨zero, error, outcome⟩ | ⟨parsed, outcome⟩ |
      ⟨parsed, outcome⟩ <;> rw [outcome]
  · exact inside
  · exact entered
  · exact inside.updateSlot (elementPath state.curPath name) fun _ => zero
  · exact inside.updateSlot (elementPath state.curPath name) fun _ => zero
  · exact entered.updateSlot (elementPath state.curPath name) fun _ => parsed
  · have set := entered.updateSlot (elementPath state.curPath name) fun _ => parsed
    exact ⟨set.system, set.noUserValues⟩

theorem value (reading : SystemReading state) (host : Host) (attributes : Attributes) :
    SystemReading (xmlHandleValue host state attributes).state := by
  rcases xmlHandleValue_cases host attributes with ⟨error, outcome⟩ | outcome | ⟨parsed, outcome⟩ <;>
    rw [outcome]
  · exact reading
  · exact reading
  · change SystemReading (addElement parsed state)
    unfold addElement
    split
    · exact ⟨reading.system, reading.noUserValues⟩
    · next slot _ =>
        have added := reading.updateSlot slot (ptrArrayAdd parsed)
        exact ⟨added.system, added.noUserValues⟩

theorem root_slot (path : List CString) : PropTree.root.slot path = .blank := by
  cases path <;> rfl

theorem channel (reading : SystemReading state) (host : Host) (attributes : Attributes) :
    SystemReading (xmlHandleChannel host state attributes).state := by
  rcases xmlHandleChannel_cases host state attributes with
    ⟨error, outcome⟩ | outcome | ⟨_, outcome⟩ <;> rw [outcome]
  · exact reading
  · exact ⟨reading.system, reading.noUserValues⟩
  · refine ⟨reading.system, ?_⟩
    intro path
    change (PropTree.root.slot path).value = _
    rw [root_slot]
    rfl

theorem event (reading : SystemReading state) (host : Host) (event : MarkupEvent) :
    SystemReading (handleEvent host state event).state := by
  cases event with
  | startElement element attributes =>
      change SystemReading (startElem host state element attributes).state
      rcases startElem_cases host state element attributes with
        ⟨error, outcome⟩ | ⟨_, _, outcome⟩ | ⟨_, _, outcome⟩ | ⟨_, _, outcome⟩ <;> rw [outcome]
      · exact reading
      · exact reading.channel host attributes
      · exact reading.property host attributes
      · exact reading.value host attributes
  | endElement element =>
      obtain ⟨channel, system, _⟩ := endElem_keeps state
      refine ⟨system.trans reading.system, ?_⟩
      change ∀ path, ((endElem state).channel.properties.slot path).value = .invalid
      rw [channel]
      exact reading.noUserValues

theorem events (reading : SystemReading state) (host : Host) (events : List MarkupEvent) :
    SystemReading (parseEvents host state events).state :=
  @parseEvents_keeps host SystemReading (fun _ event reading => reading.event host event) state
    reading events

end SystemReading

def NoUserValues (channel : EsconfChannel) : Prop :=
  ∀ path, (channel.properties.slot path).value = .invalid

theorem noUserValues_root (locked dirty : Bool) : NoUserValues ⟨.root, locked, dirty⟩ := by
  intro path
  change (PropTree.root.slot path).value = _
  rw [SystemReading.root_slot]
  rfl

theorem mergeFile_system {host : Host} {disk : Disk} {filename : CString}
    {channel : EsconfChannel} {merged : Bool × EsconfChannel} (clean : NoUserValues channel)
    (done : mergeFile host disk filename true channel = some merged) : NoUserValues merged.2 := by
  cases here : disk filename with
  | none => rw [mergeFile, here] at done; cases done; exact clean
  | some contents =>
      have start : SystemReading (startState channel true) := ⟨rfl, clean⟩
      rw [(mergeFile_read here done).2]
      exact (start.events host (host.markupParse contents).1).noUserValues

theorem mergeSystemFiles_noUserValues {host : Host} {disk : Disk} {filenames : List CString}
    {channel after : EsconfChannel} (clean : NoUserValues channel)
    (done : mergeSystemFiles host disk filenames channel = some after) : NoUserValues after := by
  induction filenames generalizing channel with
  | nil => cases done; exact clean
  | cons filename rest ih =>
      obtain ⟨merged, first, later⟩ := Option.bind_eq_some_iff.mp done
      exact ih (mergeFile_system clean first) later

end Esconf
