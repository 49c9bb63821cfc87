import Esconf.WrittenElements
import Esconf.Library.Assignments

/-! Files as trees of property elements. Reading such a file, where nothing is
locked, writes what its elements give, one after the other. -/

namespace Esconf

open NamedTree

/-- A property element: its attributes, those of the value elements at its
start, and the property elements nested in it. -/
inductive PropertyElement where
  | property (attributes : Attributes) (values : List Attributes) (nested : List PropertyElement)

def elementName (attributes : Attributes) : CString :=
  (attributeValue attributes "name".toList).getD []

def elementType (attributes : Attributes) : CString :=
  (attributeValue attributes "type".toList).getD []

def valueEvents (attributes : Attributes) : List MarkupEvent :=
  [.startElement "value".toList attributes, .endElement "value".toList]

structure Mention where
  path : List CString
  attributes : Attributes
  values : List Attributes

namespace PropertyElement

theorem byNested {motive : PropertyElement → Prop}
    (step : ∀ attributes values nested, (∀ element ∈ nested, motive element) →
      motive (property attributes values nested)) : ∀ element, motive element
  | property attributes values nested =>
    step attributes values nested fun element _ => byNested step element

mutual

def events : PropertyElement → List MarkupEvent
  | property attributes values nested =>
    .startElement "property".toList attributes ::
      (values.flatMap valueEvents ++ (eventsAll nested ++ [.endElement "property".toList]))

def eventsAll : List PropertyElement → List MarkupEvent
  | [] => []
  | element :: rest => events element ++ eventsAll rest

end

mutual

/-- The property elements in the order of their start tags. -/
def mentions (front : List CString) : PropertyElement → List Mention
  | property attributes values nested =>
    ⟨front ++ [elementName attributes], attributes, values⟩ ::
      mentionsAll (front ++ [elementName attributes]) nested

def mentionsAll (front : List CString) : List PropertyElement → List Mention
  | [] => []
  | element :: rest => mentions front element ++ mentionsAll front rest

end

theorem mem_mentionsAll {front : List CString} {elements : List PropertyElement}
    {mention : Mention} :
    mention ∈ mentionsAll front elements ↔ ∃ element ∈ elements, mention ∈ mentions front element := by
  induction elements with
  | nil => simp [mentionsAll]
  | cons element rest ih => simp [mentionsAll, ih]

end PropertyElement

variable (host : Host)

def startValue (attributes : Attributes) : Option GValue :=
  match gtypeFromString (elementType attributes) with
  | .invalid => none
  | .none => some .invalid
  | type =>
    match gvalueFromString host type (attributeValue attributes "value".toList) with
    | .parsed value => some value
    | _ => none

def itemValue (attributes : Attributes) : Option GValue :=
  match unknownAttribute attributes valueAttributes, attributeValue attributes "type".toList with
  | none, some type =>
    match gtypeFromString type with
    | .ptrArray | .invalid | .none => none
    | type =>
      match gvalueFromString host type (attributeValue attributes "value".toList) with
      | .parsed value => some value
      | _ => none
  | _, _ => none

structure Opens (attributes : Attributes) : Prop where
  known : unknownAttribute attributes propertyAttributes = none
  named : elementName attributes ≠ []
  typed : elementType attributes ≠ []
  value : (startValue host attributes).isSome = true

namespace Mention

def gives (mention : Mention) : GValue :=
  mention.values.foldl (fun array item => ptrArrayAdd ((itemValue host item).getD .invalid) array)
    ((startValue host mention.attributes).getD .invalid)

structure Accepted (mention : Mention) : Prop where
  opens : Opens host mention.attributes
  items : ∀ item ∈ mention.values, (itemValue host item).isSome = true

/-- An element without lock attributes, slashes in its name or a path longer than
the buffers, with value elements only if it is an array. -/
structure Regular (mention : Mention) : Prop where
  free : lockedState host mention.attributes = none
  plain : '/' ∉ elementName mention.attributes
  short : (partsName mention.path).length < maxPropPath
  array : mention.values ≠ [] → gtypeFromString (elementType mention.attributes) = .ptrArray

theorem regular_iff {mention : Mention} :
    (lockedState host mention.attributes = none ∧ '/' ∉ elementName mention.attributes ∧
      (partsName mention.path).length < maxPropPath ∧
      (mention.values ≠ [] → gtypeFromString (elementType mention.attributes) = .ptrArray)) ↔
      mention.Regular host := by
  constructor
  · intro each
    exact ⟨each.1, each.2.1, each.2.2.1, each.2.2.2⟩
  · intro regular
    exact ⟨regular.free, regular.plain, regular.short, regular.array⟩

instance (mention : Mention) : Decidable (mention.Regular host) :=
  decidable_of_iff _ (regular_iff host)

end Mention

theorem foldl_ptrArrayAdd (items : List Attributes) (elements : List GValue) :
    items.foldl (fun array item => ptrArrayAdd ((itemValue host item).getD .invalid) array)
      (.ptrArray elements) =
        .ptrArray (elements ++ items.map fun item => (itemValue host item).getD .invalid) := by
  induction items generalizing elements with
  | nil => rw [List.map_nil, List.append_nil]; rfl
  | cons item items ih =>
      rw [List.foldl_cons, List.map_cons, List.append_cons]
      exact ih _

def layerWrite (system : Bool) (value : GValue) (prop : EsconfProperty) : EsconfProperty :=
  if system then (clearProperty true prop).withSystemValue value else prop.withValue value

theorem layerWrite_forgets (system : Bool) (new old : GValue) (prop : EsconfProperty) :
    layerWrite system new (layerWrite system old prop) = layerWrite system new prop := by
  cases system <;> rfl

theorem layerWrite_locked (system : Bool) (value : GValue) (prop : EsconfProperty) :
    (layerWrite system value prop).locked = prop.locked := by
  cases system <;> rfl

structure Inside (system : Bool) (front : List CString) (state : XmlParserState) : Prop where
  kind : state.isSystemFile = system
  unlocked : state.channel.locked = false
  path : state.curPath = partsName front
  elem : state.curElem = if front = [] then .channel else .property
  named : ∀ name ∈ front, name ≠ [] ∧ '/' ∉ name
  free : ∀ path, (state.properties.slot path).locked = false

theorem filled_getD {value : Option CString} (full : value.getD [] ≠ []) :
    filled value = some (value.getD []) := by
  cases value with
  | none => exact absurd rfl full
  | some text => exact filled_some full

theorem filled_eq_none {value : Option CString} (empty : value.getD [] = []) :
    filled value = none := by
  cases value with
  | none => rfl
  | some text =>
      have blank : text = [] := empty
      rw [blank]
      rfl

theorem xmlPropertyValue_startValue (attributes : Attributes) (fullpath : CString) :
    (startValue host attributes = none ∧ ∀ state entered,
      xmlPropertyValue host state fullpath (elementType attributes)
        (attributeValue attributes "value".toList) ≠ .ok entered) ∨
    (startValue host attributes = some .invalid ∧
      gtypeFromString (elementType attributes) ≠ .ptrArray ∧ ∀ state,
      xmlPropertyValue host state fullpath (elementType attributes)
        (attributeValue attributes "value".toList) = .ok (enterProperty fullpath state)) ∨
    ∃ parsed, startValue host attributes = some parsed ∧
      ((gtypeFromString (elementType attributes) ≠ .ptrArray ∧ ∀ state,
        xmlPropertyValue host state fullpath (elementType attributes)
          (attributeValue attributes "value".toList) =
            .ok ((enterProperty fullpath state).updateSlot fullpath fun _ => parsed)) ∨
      gtypeFromString (elementType attributes) = .ptrArray ∧ ∀ state,
        xmlPropertyValue host state fullpath (elementType attributes)
          (attributeValue attributes "value".toList) =
            .ok { (enterProperty fullpath state).updateSlot fullpath (fun _ => parsed) with
              listProperty := some fullpath, listValue := some fullpath }) := by
  unfold xmlPropertyValue startValue
  cases gtypeFromString (elementType attributes) with
  | invalid =>
      left
      exact ⟨rfl, fun state entered done => by cases done⟩
  | none => exact Or.inr (Or.inl ⟨rfl, by decide, fun _ => rfl⟩)
  | ptrArray => exact Or.inr (Or.inr ⟨_, rfl, Or.inr ⟨rfl, fun _ => rfl⟩⟩)
  | _ =>
      dsimp only
      cases gvalueFromString host _ (attributeValue attributes "value".toList) with
      | parsed parsed => exact Or.inr (Or.inr ⟨parsed, rfl, Or.inl ⟨by simp, fun _ => rfl⟩⟩)
      | _ =>
          left
          exact ⟨rfl, fun state entered done => by cases done⟩

theorem xmlHandleValue_itemValue (attributes : Attributes) :
    (itemValue host attributes = none ∧
      ∀ state after, xmlHandleValue host state attributes ≠ .ok after) ∨
    ∃ parsed, itemValue host attributes = some parsed ∧
      ∀ state, xmlHandleValue host state attributes = .ok (addElement parsed state) := by
  unfold xmlHandleValue itemValue
  cases unknownAttribute attributes valueAttributes with
  | some unknown =>
      left
      exact ⟨rfl, fun state after done => by cases done⟩
  | none =>
      cases attributeValue attributes "type".toList with
      | none =>
          left
          exact ⟨rfl, fun state after done => by cases done⟩
      | some type =>
          dsimp only
          cases gtypeFromString type with
          | ptrArray | invalid | none =>
              left
              exact ⟨rfl, fun state after done => by cases done⟩
          | _ =>
              dsimp only
              cases gvalueFromString host _ (attributeValue attributes "value".toList) with
              | parsed parsed =>
                  right
                  refine ⟨parsed, rfl, ?_⟩
                  intro state
                  unfold addElement
                  cases state.listValue <;> rfl
              | _ =>
                  left
                  exact ⟨rfl, fun state after done => by cases done⟩

variable {host} {system : Bool}

structure Begun (system : Bool) (parts : List CString) (array : Prop) (value : GValue)
    (before after : XmlParserState) : Prop where
  inside : Inside system parts after
  there : (descend after.properties parts).isSome
  slots : ∀ path, after.properties.slot path =
    if path = parts then layerWrite system value (before.properties.slot path)
    else before.properties.slot path
  list : array →
    after.listProperty = some (partsName parts) ∧ after.listValue = some (partsName parts)

theorem slot_updateSlot_system {state : XmlParserState} (kind : state.isSystemFile = system)
    (name : CString) (f : GValue → GValue) (path : List CString) :
    (state.updateSlot name f).properties.slot path =
      if path = nameParts name ∧ (descend state.properties (nameParts name)).isSome then
        if system then (state.properties.slot path).withSystemValue
          (f (state.properties.slot path).systemValue)
        else (state.properties.slot path).withValue (f (state.properties.slot path).value)
      else state.properties.slot path := by
  change PropTree.slot (update _ _ _) path = _
  rw [slot_update]
  split
  · next same => rw [same.1, kind]
  · rfl

section Entering

variable {front : List CString} {state : XmlParserState} {attributes : Attributes}

theorem Inside.writable (inside : Inside system front state) {name : CString} (named : name ≠ [])
    (plain : '/' ∉ name) (short : (partsName (front ++ [name])).length < maxPropPath) :
    Writable (front ++ [name]) :=
  writable_snoc inside.named named plain short

theorem xmlHandleProperty_opens {entered : XmlParserState}
    (done : xmlHandleProperty host state attributes = .ok entered) :
    unknownAttribute attributes propertyAttributes = none ∧ elementName attributes ≠ [] ∧
      elementType attributes ≠ [] := by
  unfold xmlHandleProperty at done
  cases known : unknownAttribute attributes propertyAttributes with
  | some unknown =>
      rw [known] at done
      cases done
  | none =>
      rw [known] at done
      refine ⟨rfl, ?_, ?_⟩
      · intro empty
        rw [filled_eq_none empty] at done
        cases done
      · intro empty
        rw [filled_eq_none empty] at done
        cases first : filled (attributeValue attributes "name".toList) <;> rw [first] at done <;>
          cases done

theorem xmlHandleProperty_cleared (inside : Inside system front state)
    (known : unknownAttribute attributes propertyAttributes = none)
    (named : elementName attributes ≠ []) (typed : elementType attributes ≠ [])
    (free : lockedState host attributes = none)
    (writable : Writable (front ++ [elementName attributes])) :
    ∃ opened, xmlHandleProperty host state attributes =
        xmlPropertyValue host (state.withProperties opened)
          (partsName (front ++ [elementName attributes])) (elementType attributes)
          (attributeValue attributes "value".toList) ∧
      (descend opened (front ++ [elementName attributes])).isSome ∧
      ∀ path, opened.slot path =
        if path = front ++ [elementName attributes] then
          clearProperty system (state.properties.slot path)
        else state.properties.slot path := by
  obtain ⟨opened, outcome, there, slots, _⟩ := xmlPropertyAt_cleared host inside.unlocked
    writable.valid writable.short (inside.free _) (elementType attributes) attributes
  rw [writable.nameParts_eq] at there slots
  rw [inside.kind] at slots
  refine ⟨opened, ?_, there, slots⟩
  unfold xmlHandleProperty
  rw [known, filled_getD named, filled_getD typed, inside.path]
  dsimp only
  change xmlPropertyAt host state (elementPath (partsName front) (elementName attributes))
    (elementType attributes) attributes = _
  rw [elementPath_snoc writable.short, outcome]
  unfold xmlPropertyLocks
  rw [free]

theorem Inside.begun (inside : Inside system front state) {name : CString}
    (writable : Writable (front ++ [name])) {array : Prop} {value : GValue}
    {entered : XmlParserState} (kind : entered.isSystemFile = system)
    (unlocked : entered.channel.locked = false)
    (path : entered.curPath = partsName (front ++ [name])) (elem : entered.curElem = .property)
    (there : (descend entered.properties (front ++ [name])).isSome)
    (slots : ∀ path, entered.properties.slot path =
      if path = front ++ [name] then layerWrite system value (state.properties.slot path)
      else state.properties.slot path)
    (list : array → entered.listProperty = some (partsName (front ++ [name])) ∧
      entered.listValue = some (partsName (front ++ [name]))) :
    Begun system (front ++ [name]) array value state entered := by
  constructor
  · constructor
    · exact kind
    · exact unlocked
    · exact path
    · rw [elem, if_neg writable.full]
    · exact writable.named
    · intro path
      rw [slots path]
      split
      · rw [layerWrite_locked]
        exact inside.free path
      · exact inside.free path
  · exact there
  · exact slots
  · exact list

theorem xmlHandleProperty_begun (inside : Inside system front state)
    (opens : Opens host attributes) (free : lockedState host attributes = none)
    (writable : Writable (front ++ [elementName attributes])) :
    ∃ entered, xmlHandleProperty host state attributes = .ok entered ∧
      Begun system (front ++ [elementName attributes])
        (gtypeFromString (elementType attributes) = .ptrArray)
        ((startValue host attributes).getD .invalid) state entered := by
  obtain ⟨opened, outcome, there, slots⟩ :=
    xmlHandleProperty_cleared inside opens.known opens.named opens.typed free writable
  have kind : (enterProperty (partsName (front ++ [elementName attributes]))
      (state.withProperties opened)).isSystemFile = system := inside.kind
  have kept : (descend (enterProperty (partsName (front ++ [elementName attributes]))
      (state.withProperties opened)).properties (front ++ [elementName attributes])).isSome :=
    there
  have written : ∀ parsed path, ((enterProperty (partsName (front ++ [elementName attributes]))
      (state.withProperties opened)).updateSlot (partsName (front ++ [elementName attributes]))
        fun _ => parsed).properties.slot path =
      if path = front ++ [elementName attributes] then
        layerWrite system parsed (state.properties.slot path)
      else state.properties.slot path := by
    intro parsed path
    rw [slot_updateSlot_system kind, writable.nameParts_eq]
    simp only [kept, and_true]
    change (if path = _ then if system then (opened.slot path).withSystemValue parsed
      else (opened.slot path).withValue parsed else opened.slot path) = _
    rw [slots path]
    split
    · cases system <;> rfl
    · rfl
  rw [outcome]
  rcases xmlPropertyValue_startValue host attributes
      (partsName (front ++ [elementName attributes])) with
    ⟨refused, _⟩ | ⟨given, plain, entered⟩ | ⟨parsed, given, ⟨plain, entered⟩ | ⟨_, entered⟩⟩
  · have accepted := opens.value
    rw [refused] at accepted
    cases accepted
  · rw [given]
    refine ⟨_, entered _, inside.begun writable kind inside.unlocked writable.strlcpy rfl there ?_
      fun array => absurd array plain⟩
    intro path
    change opened.slot path = _
    rw [slots path]
    split
    · cases system <;> rfl
    · rfl
  · rw [given]
    exact ⟨_, entered _, inside.begun writable kind inside.unlocked writable.strlcpy rfl
      (descend_update_isSome _ _ _ _ there) (written parsed) fun array => absurd array plain⟩
  · rw [given]
    exact ⟨_, entered _, inside.begun writable kind inside.unlocked writable.strlcpy rfl
      (descend_update_isSome _ _ _ _ there) (written parsed) fun _ => ⟨rfl, rfl⟩⟩

theorem opens_of_ok (inside : Inside system front state)
    (free : lockedState host attributes = none) (plain : '/' ∉ elementName attributes)
    (short : (partsName (front ++ [elementName attributes])).length < maxPropPath)
    {entered : XmlParserState} (done : xmlHandleProperty host state attributes = .ok entered) :
    Opens host attributes := by
  obtain ⟨known, named, typed⟩ := xmlHandleProperty_opens done
  obtain ⟨opened, outcome, _⟩ := xmlHandleProperty_cleared inside known named typed free
    (inside.writable named plain short)
  rw [outcome] at done
  refine ⟨known, named, typed, ?_⟩
  rcases xmlPropertyValue_startValue host attributes
      (partsName (front ++ [elementName attributes])) with
    ⟨_, refused⟩ | ⟨given, _⟩ | ⟨parsed, given, _⟩
  · exact absurd done (refused _ _)
  · rw [given]
    rfl
  · rw [given]
    rfl

end Entering

section Items

variable {parts : List CString} {array : Prop} {value : GValue} {before state : XmlParserState}

theorem Begun.startElem_value (begun : Begun system parts array value before state)
    (full : parts ≠ []) (isArray : array) (attributes : Attributes) :
    startElem host state "value".toList attributes = xmlHandleValue host state attributes := by
  obtain ⟨property, list⟩ := begun.list isArray
  rw [startElem, begun.inside.elem, if_neg full]
  simp only [property, list]
  rfl

theorem Begun.item (begun : Begun system parts array value before state)
    (writable : Writable parts) (isArray : array) {attributes : Attributes} {parsed : GValue}
    (given : itemValue host attributes = some parsed) :
    ∃ after, (∀ rest, parseEvents host state (valueEvents attributes ++ rest) =
        parseEvents host after rest) ∧
      Begun system parts array (ptrArrayAdd parsed value) before after := by
  obtain ⟨property, list⟩ := begun.list isArray
  have added : xmlHandleValue host state attributes = .ok (addElement parsed state) := by
    rcases xmlHandleValue_itemValue host attributes with ⟨refused, _⟩ | ⟨other, given', ok⟩
    · rw [given] at refused
      cases refused
    · rw [given] at given'
      cases given'
      exact ok state
  have element : addElement parsed state =
      { state.updateSlot (partsName parts) (ptrArrayAdd parsed) with curElem := .value } := by
    rw [addElement, list]
  have inside := begun.inside
  have slots : ∀ path, (state.updateSlot (partsName parts) (ptrArrayAdd parsed)).properties.slot
      path = if path = parts then layerWrite system (ptrArrayAdd parsed value)
        (before.properties.slot path) else before.properties.slot path := by
    intro path
    rw [slot_updateSlot_system inside.kind, writable.nameParts_eq, begun.slots path]
    simp only [begun.there, and_true]
    split
    · cases system <;> rfl
    · rfl
  refine ⟨endElem (addElement parsed state), ?_, ?_⟩
  · intro rest
    change parseEvents host state (.startElement "value".toList attributes :: .endElement _ :: rest) = _
    rw [parseEvents, handleEvent, begun.startElem_value writable.full isArray, added]
    rfl
  · rw [element]
    refine ⟨⟨inside.kind, inside.unlocked, inside.path, (if_neg writable.full).symm, inside.named,
      ?_⟩, descend_update_isSome _ _ _ _ begun.there, slots, fun _ => ⟨property, list⟩⟩
    intro path
    have locked : ((state.updateSlot (partsName parts) (ptrArrayAdd parsed)).properties.slot
        path).locked = (state.properties.slot path).locked := by
      rw [slots path, begun.slots path]
      split
      · rw [layerWrite_locked, layerWrite_locked]
      · rfl
    exact locked.trans (inside.free path)

theorem Begun.items (writable : Writable parts) (isArray : array) {values : List Attributes}
    (accepted : ∀ item ∈ values, (itemValue host item).isSome = true)
    (begun : Begun system parts array value before state) :
    ∃ after, (∀ rest, parseEvents host state (values.flatMap valueEvents ++ rest) =
        parseEvents host after rest) ∧
      Begun system parts array (values.foldl
        (fun array item => ptrArrayAdd ((itemValue host item).getD .invalid) array) value)
        before after := by
  induction values generalizing value state with
  | nil => exact ⟨state, fun _ => rfl, begun⟩
  | cons item values ih =>
      obtain ⟨parsed, given⟩ := Option.isSome_iff_exists.mp (accepted item List.mem_cons_self)
      obtain ⟨middle, first, grown⟩ := begun.item writable isArray given
      obtain ⟨after, second, whole⟩ :=
        ih (fun other member => accepted other (List.mem_cons_of_mem _ member)) grown
      refine ⟨after, ?_, ?_⟩
      · intro rest
        rw [List.flatMap_cons, List.append_assoc, first, second]
      · rw [List.foldl_cons, given]
        exact whole

theorem Begun.items_accepted (writable : Writable parts) (isArray : array)
    {values : List Attributes} (begun : Begun system parts array value before state)
    {rest : List MarkupEvent} {last : XmlParserState}
    (done : parseEvents host state (values.flatMap valueEvents ++ rest) = .ok last) :
    ∀ item ∈ values, (itemValue host item).isSome = true := by
  induction values generalizing value state with
  | nil =>
      intro item member
      cases member
  | cons item values ih =>
      rw [List.flatMap_cons, List.append_assoc] at done
      rcases xmlHandleValue_itemValue host item with ⟨_, refused⟩ | ⟨parsed, given, _⟩
      · change parseEvents host state (.startElement "value".toList item :: .endElement _ :: _) = _
          at done
        rw [parseEvents, handleEvent, begun.startElem_value writable.full isArray] at done
        cases outcome : xmlHandleValue host state item with
        | ok after => exact absurd outcome (refused state after)
        | _ =>
            rw [outcome] at done
            cases done
      · obtain ⟨middle, first, grown⟩ := begun.item writable isArray given
        rw [first] at done
        intro other member
        rcases List.mem_cons.mp member with same | later
        · rw [same, given]
          rfl
        · exact ih grown done other later

end Items

theorem Inside.closed {front : List CString} {name : CString} {state : XmlParserState}
    (inside : Inside system (front ++ [name]) state) (plain : '/' ∉ name) :
    Inside system front (endElem state) ∧ (endElem state).properties = state.properties := by
  have elem : state.curElem = .property := by
    rw [inside.elem, if_neg (by simp)]
  have named : ∀ other ∈ front, other ≠ [] ∧ '/' ∉ other := by
    intro other member
    exact inside.named other (List.mem_append_left _ member)
  rw [endElem_property elem inside.path plain]
  exact ⟨⟨inside.kind, inside.unlocked, rfl, rfl, named, inside.free⟩, rfl⟩

def assigned (host : Host) (mentions : List Mention) : List (List CString × GValue) :=
  mentions.map fun mention => (mention.path, mention.gives host)

def Carries (host : Host) (system : Bool) (front : List CString) (events : List MarkupEvent)
    (entries : List (List CString × GValue)) : Prop :=
  ∀ state, Inside system front state →
    ∃ after, (∀ rest, parseEvents host state (events ++ rest) = parseEvents host after rest) ∧
      Inside system front after ∧
      after.properties.slot = Assignments.carryOut (layerWrite system) entries state.properties.slot

theorem carries_nil (front : List CString) : Carries host system front [] [] := by
  intro state inside
  exact ⟨state, fun _ => rfl, inside, rfl⟩

theorem Carries.append {front : List CString} {first second : List MarkupEvent}
    {entries later : List (List CString × GValue)} (one : Carries host system front first entries)
    (two : Carries host system front second later) :
    Carries host system front (first ++ second) (entries ++ later) := by
  intro state inside
  obtain ⟨middle, parsed, inside', slots⟩ := one state inside
  obtain ⟨after, parsed', inside'', slots'⟩ := two middle inside'
  refine ⟨after, ?_, inside'', ?_⟩
  · intro rest
    rw [List.append_assoc, parsed, parsed']
  · rw [slots', slots, Assignments.carryOut_append]

theorem carries_elements {front : List CString} {elements : List PropertyElement}
    (each : ∀ element ∈ elements,
      Carries host system front element.events (assigned host (element.mentions front))) :
    Carries host system front (PropertyElement.eventsAll elements)
      (assigned host (PropertyElement.mentionsAll front elements)) := by
  induction elements with
  | nil => exact carries_nil front
  | cons element rest ih =>
      rw [PropertyElement.eventsAll, PropertyElement.mentionsAll, assigned, List.map_append]
      apply (each element List.mem_cons_self).append
      apply ih
      intro other member
      exact each other (List.mem_cons_of_mem _ member)

section Header

variable {front : List CString} {state : XmlParserState} {attributes : Attributes}
  {values : List Attributes}

theorem Inside.header (inside : Inside system front state)
    (accepted : Mention.Accepted host ⟨front ++ [elementName attributes], attributes, values⟩)
    (regular : Mention.Regular host ⟨front ++ [elementName attributes], attributes, values⟩) :
    ∃ after, (∀ rest, parseEvents host state (.startElement "property".toList attributes ::
        (values.flatMap valueEvents ++ rest)) = parseEvents host after rest) ∧
      Begun system (front ++ [elementName attributes])
        (gtypeFromString (elementType attributes) = .ptrArray)
        (Mention.gives host ⟨front ++ [elementName attributes], attributes, values⟩)
        state after := by
  have writable := inside.writable accepted.opens.named regular.plain regular.short
  obtain ⟨entered, outcome, begun⟩ :=
    xmlHandleProperty_begun inside accepted.opens regular.free writable
  have first : ∀ rest, parseEvents host state
      (.startElement "property".toList attributes :: rest) = parseEvents host entered rest := by
    intro rest
    rw [parseEvents, handleEvent, startElem_element host inside.elem, outcome]
  by_cases none : values = []
  · subst none
    exact ⟨entered, first, begun⟩
  · obtain ⟨after, second, whole⟩ :=
      begun.items writable (regular.array none) accepted.items
    exact ⟨after, fun rest => (first _).trans (second rest), whole⟩

theorem Inside.header_accepted (inside : Inside system front state)
    (regular : Mention.Regular host ⟨front ++ [elementName attributes], attributes, values⟩)
    {rest : List MarkupEvent} {last : XmlParserState}
    (done : parseEvents host state (.startElement "property".toList attributes ::
      (values.flatMap valueEvents ++ rest)) = .ok last) :
    Mention.Accepted host ⟨front ++ [elementName attributes], attributes, values⟩ := by
  rw [parseEvents, handleEvent, startElem_element host inside.elem] at done
  cases outcome : xmlHandleProperty host state attributes with
  | ok entered =>
      have opens := opens_of_ok inside regular.free regular.plain regular.short outcome
      have writable := inside.writable opens.named regular.plain regular.short
      obtain ⟨other, same, begun⟩ := xmlHandleProperty_begun inside opens regular.free writable
      rw [same] at done
      refine ⟨opens, ?_⟩
      by_cases none : values = []
      · subst none
        intro item member
        cases member
      · exact begun.items_accepted writable (regular.array none) done
  | _ =>
      rw [outcome] at done
      cases done

end Header

/-- Reading an accepted element writes what it and those nested in it give. -/
theorem carries_element (element : PropertyElement) :
    ∀ front, (∀ mention ∈ element.mentions front, mention.Accepted host ∧ mention.Regular host) →
      Carries host system front element.events (assigned host (element.mentions front)) := by
  induction element using PropertyElement.byNested with
  | step attributes values nested ih =>
      intro front fine state inside
      rw [PropertyElement.mentions] at fine
      obtain ⟨⟨accepted, regular⟩, below⟩ := List.forall_mem_cons.mp fine
      obtain ⟨entered, first, begun⟩ := inside.header accepted regular
      have deeper : Carries host system (front ++ [elementName attributes])
          (PropertyElement.eventsAll nested)
          (assigned host (PropertyElement.mentionsAll (front ++ [elementName attributes])
            nested)) := by
        apply carries_elements
        intro element member
        apply ih element member
        intro mention there
        exact below mention (PropertyElement.mem_mentionsAll.mpr ⟨element, member, there⟩)
      obtain ⟨filled, second, inside', slots⟩ := deeper entered begun.inside
      obtain ⟨outside, same⟩ := inside'.closed regular.plain
      refine ⟨endElem filled, ?_, outside, ?_⟩
      · intro rest
        rw [PropertyElement.events, List.cons_append, List.append_assoc, first, List.append_assoc,
          second]
        rfl
      · rw [same, slots, PropertyElement.mentions]
        unfold assigned
        rw [List.map_cons, Assignments.carryOut]
        congr 1
        funext path
        rw [begun.slots path, Function.update_apply]
        split
        · next here => rw [here]
        · rfl

def TellsAccepted (host : Host) (system : Bool) (front : List CString)
    (events : List MarkupEvent) (mentions : List Mention) : Prop :=
  ∀ state rest last, Inside system front state →
    parseEvents host state (events ++ rest) = .ok last →
    ∀ mention ∈ mentions, mention.Accepted host

theorem tellsAccepted_elements {front : List CString} {elements : List PropertyElement}
    (each : ∀ element ∈ elements,
      TellsAccepted host system front element.events (element.mentions front))
    (regular : ∀ mention ∈ PropertyElement.mentionsAll front elements, mention.Regular host) :
    TellsAccepted host system front (PropertyElement.eventsAll elements)
      (PropertyElement.mentionsAll front elements) := by
  induction elements with
  | nil =>
      intro state rest last inside done mention member
      cases member
  | cons element others ih =>
      intro state rest last inside done
      rw [PropertyElement.mentionsAll] at regular ⊢
      obtain ⟨here, later⟩ := List.forall_mem_append.mp regular
      rw [PropertyElement.eventsAll, List.append_assoc] at done
      have accepted := each element List.mem_cons_self state _ last inside done
      obtain ⟨middle, first, inside', _⟩ := carries_element element front
        (fun mention member => ⟨accepted mention member, here mention member⟩) state inside
      rw [first] at done
      have following := ih (fun other member => each other (List.mem_cons_of_mem _ member)) later
        middle rest last inside' done
      exact List.forall_mem_append.mpr ⟨accepted, following⟩

theorem tellsAccepted_element (element : PropertyElement) :
    ∀ front, (∀ mention ∈ element.mentions front, mention.Regular host) →
      TellsAccepted host system front element.events (element.mentions front) := by
  induction element using PropertyElement.byNested with
  | step attributes values nested ih =>
      intro front regular state rest last inside done
      rw [PropertyElement.mentions] at regular ⊢
      obtain ⟨here, below⟩ := List.forall_mem_cons.mp regular
      rw [PropertyElement.events, List.cons_append, List.append_assoc] at done
      have accepted := inside.header_accepted here done
      obtain ⟨entered, first, begun⟩ := inside.header accepted here
      rw [first, List.append_assoc] at done
      have deeper : TellsAccepted host system (front ++ [elementName attributes])
          (PropertyElement.eventsAll nested)
          (PropertyElement.mentionsAll (front ++ [elementName attributes]) nested) := by
        refine tellsAccepted_elements ?_ below
        intro element member
        apply ih element member
        intro mention there
        exact below mention (PropertyElement.mem_mentionsAll.mpr ⟨element, member, there⟩)
      exact List.forall_mem_cons.mpr ⟨accepted, deeper entered _ last begun.inside done⟩

end Esconf
