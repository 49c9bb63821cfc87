import Esconf.ElementSteps

/-! What a reader of a user file does with the elements a channel is written as. -/

namespace Esconf

open NamedTree

variable (host : Host)

structure Writable (parts : List CString) : Prop where
  full : parts ≠ []
  named : ∀ name ∈ parts, name ≠ [] ∧ '/' ∉ name
  short : (partsName parts).length < maxPropPath

namespace Writable

variable {parts : List CString}

theorem valid (writable : Writable parts) : propNameIsValid (partsName parts) = true :=
  propNameIsValid_partsName writable.full writable.named

theorem nameParts_eq (writable : Writable parts) : nameParts (partsName parts) = parts :=
  nameParts_partsName (fun name member => (writable.named name member).2) writable.valid

theorem strlcpy (writable : Writable parts) :
    gStrlcpy (partsName parts) maxPropPath = partsName parts :=
  List.take_of_length_le (Nat.le_sub_one_of_lt writable.short)

end Writable

theorem writable_snoc {front : List CString} {name : CString}
    (outer : ∀ other ∈ front, other ≠ [] ∧ '/' ∉ other) (named : name ≠ []) (plain : '/' ∉ name)
    (short : (partsName (front ++ [name])).length < maxPropPath) : Writable (front ++ [name]) := by
  refine ⟨by simp, ?_, short⟩
  intro other member
  rcases List.mem_append.mp member with before | last
  · exact outer other before
  · rw [List.mem_singleton.mp last]
    exact ⟨named, plain⟩

theorem elementPath_snoc {front : List CString} {name : CString}
    (short : (partsName (front ++ [name])).length < maxPropPath) :
    elementPath (partsName front) name = partsName (front ++ [name]) := by
  have room := short
  rw [partsName_snoc, List.length_append] at room
  have whole : gStrlcpy (partsName front) maxPropPath = partsName front :=
    List.take_of_length_le (by omega)
  rw [elementPath, whole, gStrlcat_snoc short]

theorem endElem_property {front : List CString} {name : CString} {state : XmlParserState}
    (elem : state.curElem = .property) (path : state.curPath = partsName (front ++ [name]))
    (plain : '/' ∉ name) :
    endElem state = { state with
      curPath := partsName front
      curElem := if front = [] then .channel else .property
      listProperty := none
      listValue := none } := by
  have slash : '/' ∈ state.curPath := by
    rw [path, partsName_snoc]
    simp
  have up : uptoLastSlash state.curPath = partsName front := by
    rw [path, uptoLastSlash_snoc front name plain]
  have top : partsName front = [] ↔ front = [] := by
    cases front with
    | nil => simp [partsName]
    | cons first rest => simp [partsName]
  unfold endElem
  rw [elem]
  dsimp only
  rw [if_pos slash, up]
  simp only [top]

/-- What holds in a written user file inside the property elements of the given
names. -/
structure Reading (front : List CString) (state : XmlParserState) : Prop where
  user : state.isSystemFile = false
  unlocked : state.channel.locked = false
  path : state.curPath = partsName front
  elem : state.curElem = if front = [] then .channel else .property

theorem slot_updateSlot {state : XmlParserState} (user : state.isSystemFile = false)
    (name : CString) (f : GValue → GValue) (path : List CString) :
    (state.updateSlot name f).properties.slot path =
      if path = nameParts name ∧ (descend state.properties (nameParts name)).isSome then
        (state.properties.slot path).withValue (f (state.properties.slot path).value)
      else state.properties.slot path := by
  change PropTree.slot (update _ _ _) path = _
  rw [slot_update]
  split
  · next same =>
      rw [same.1]
      simp [user, XmlParserState.properties]
  · rfl

theorem xmlPropertyAt_cleared {state : XmlParserState} (unlocked : state.channel.locked = false)
    {fullpath : CString} (valid : propNameIsValid fullpath = true)
    (short : fullpath.length < maxPropPath)
    (free : (state.properties.slot (nameParts fullpath)).locked = false) (type : CString)
    (attributes : Attributes) :
    ∃ opened, xmlPropertyAt host state fullpath type attributes =
        xmlPropertyLocks host (state.withProperties opened) fullpath type attributes ∧
      (descend opened (nameParts fullpath)).isSome ∧
      (∀ path, opened.slot path =
        if path = nameParts fullpath then
          clearProperty state.isSystemFile (state.properties.slot path)
        else state.properties.slot path) ∧
      ∀ path, (descend state.properties path).isSome → (descend opened path).isSome := by
  rcases xmlPropertyAt_cases host (loadable_of_unlocked unlocked) short type attributes with
    ⟨⟨_, prop, looked, locked⟩, _⟩ | ⟨_, invalid, _⟩ | ⟨_, _, opened, cleared, lock, outcome⟩
  · rw [proptreeLookup_slot looked, locked] at free
    cases free
  · rw [valid] at invalid
    cases invalid
  · exact ⟨opened, outcome, cleared.there, cleared.slot (lock unlocked), cleared.kept⟩

theorem xmlPropertyAt_opened {state : XmlParserState} (user : state.isSystemFile = false)
    (unlocked : state.channel.locked = false) {fullpath : CString}
    (valid : propNameIsValid fullpath = true) (short : fullpath.length < maxPropPath)
    (free : (state.properties.slot (nameParts fullpath)).locked = false) (type : CString)
    (attributes : Attributes) :
    ∃ opened, xmlPropertyAt host state fullpath type attributes =
        xmlPropertyLocks host (state.withProperties opened) fullpath type attributes ∧
      (descend opened (nameParts fullpath)).isSome ∧
      (∀ path, opened.slot path =
        if path = nameParts fullpath then (state.properties.slot path).withValue .invalid
        else state.properties.slot path) ∧
      ∀ path, (descend state.properties path).isSome → (descend opened path).isSome := by
  have cleared := xmlPropertyAt_cleared host unlocked valid short free type attributes
  rw [user] at cleared
  exact cleared

theorem xmlPropertyAt_skipped {front : List CString} {state : XmlParserState}
    (reading : Reading front state) {parts : List CString} (writable : Writable parts)
    (locked : (state.properties.slot parts).locked = true) (type : CString)
    (attributes : Attributes) :
    xmlPropertyAt host state (partsName parts) type attributes =
      .ok (enterProperty (partsName parts) state) := by
  cases looked : proptreeLookup state.properties (partsName parts) with
  | none =>
      have blank := proptreeLookup_none_slot writable.valid looked
      rw [writable.nameParts_eq] at blank
      rw [blank] at locked
      cases locked
  | some other =>
      have found := proptreeLookup_slot looked
      rw [writable.nameParts_eq] at found
      rw [found] at locked
      rw [xmlPropertyAt_found host (loadable_of_unlocked reading.unlocked) looked,
        if_pos ⟨reading.user, locked⟩]

theorem filled_some {text : CString} (full : text ≠ []) : filled (some text) = some text := by
  cases text with
  | nil => exact absurd rfl full
  | cons c rest => rfl

def writtenAttributes (name type : CString) (value : Option CString) : Attributes :=
  ("name".toList, name) :: ("type".toList, type) ::
    value.toList.map fun text => ("value".toList, text)

theorem startElem_element {front : List CString} {state : XmlParserState}
    (elem : state.curElem = if front = [] then .channel else .property) (attributes : Attributes) :
    startElem host state "property".toList attributes =
      xmlHandleProperty host state attributes := by
  rw [startElem, elem]
  by_cases top : front = []
  · rw [if_pos top]
    rfl
  · rw [if_neg top]
    rfl

theorem startElem_property {front : List CString} {state : XmlParserState}
    (reading : Reading front state) {name type : CString} (value : Option CString)
    (named : name ≠ []) (typed : type ≠ []) :
    startElem host state "property".toList (writtenAttributes name type value) =
      xmlPropertyAt host state (elementPath (partsName front) name) type
        (writtenAttributes name type value) := by
  have known : unknownAttribute (writtenAttributes name type value) propertyAttributes = none := by
    cases value <;> rfl
  have first : attributeValue (writtenAttributes name type value) "name".toList = some name := by
    cases value <;> rfl
  have second : attributeValue (writtenAttributes name type value) "type".toList = some type := by
    cases value <;> rfl
  have handled : xmlHandleProperty host state (writtenAttributes name type value) =
      xmlPropertyAt host state (elementPath (partsName front) name) type
        (writtenAttributes name type value) := by
    unfold xmlHandleProperty
    rw [known, first, second, reading.path]
    simp only [filled_some named, filled_some typed]
  rw [← handled, startElem_element host reading.elem]

theorem xmlPropertyLocks_written {state : XmlParserState} (fullpath name type : CString)
    (value : Option CString) :
    xmlPropertyLocks host state fullpath type (writtenAttributes name type value) =
      xmlPropertyValue host state fullpath type value := by
  cases value <;> rfl

end Esconf
