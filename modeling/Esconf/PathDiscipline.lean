import Esconf.EnteredElements

/-! The parser has a string in place of the stack of the elements it is in. For well-nested
files the string stands for the stack as long as no name has a slash. -/

namespace Esconf

open NamedTree

/-- Every start tag is followed by its end tag. -/
inductive Nested : List MarkupEvent → Prop where
  | nil : Nested []
  | element (name : CString) (attributes : Attributes) {inner rest : List MarkupEvent}
      (within : Nested inner) (behind : Nested rest) :
      Nested (.startElement name attributes :: (inner ++ .endElement name :: rest))

abbrev ElementStack := List (CString × Attributes)

def nest (stack : ElementStack) : MarkupEvent → ElementStack
  | .startElement name attributes => (name, attributes) :: stack
  | .endElement _ => stack.tail

def propertyNames (stack : ElementStack) : List CString :=
  stack.reverse.filterMap fun element =>
    if element.1 = "property".toList then some (elementName element.2) else none

def ownPath (before : List MarkupEvent) (attributes : Attributes) : CString :=
  partsName (propertyNames (before.foldl nest []) ++ [elementName attributes])

/-- The value of the element is written at the path and nothing else is, unless a user file
comes to a locked property. -/
def StoredAt (host : Host) (state : XmlParserState) (path : CString) (attributes : Attributes)
    (entered : XmlParserState) : Prop :=
  Skipped state path ∧ entered.properties = state.properties ∨
    layerValue state.isSystemFile (entered.properties.slot (nameParts path)) =
        (startValue host attributes).getD .invalid ∧
      ∀ other, other ≠ nameParts path →
        entered.properties.slot other = state.properties.slot other

/-- Every property element of a file is stored under its own path, and behind its end the
parser is where it was before its start. -/
structure Disciplined (host : Host) (start : XmlParserState) (events : List MarkupEvent) :
    Prop where
  stored : ∀ before attributes rest state entered,
    events = before ++ .startElement "property".toList attributes :: rest →
    parseEvents host start before = .ok state →
    handleEvent host state (.startElement "property".toList attributes) = .ok entered →
    StoredAt host state (ownPath before attributes) attributes entered
  restored : ∀ before attributes inner rest state after,
    events = before ++ .startElement "property".toList attributes ::
      (inner ++ .endElement "property".toList :: rest) →
    Nested inner → parseEvents host start before = .ok state →
    parseEvents host state (.startElement "property".toList attributes ::
      (inner ++ [.endElement "property".toList])) = .ok after →
    after.curPath = state.curPath ∧ after.curElem = state.curElem

theorem Nested.foldl_nest {events : List MarkupEvent} (nested : Nested events)
    (stack : ElementStack) : events.foldl nest stack = stack := by
  induction nested generalizing stack with
  | nil => rfl
  | element name attributes within behind ih ih' =>
      rw [List.foldl_cons, List.foldl_append, List.foldl_cons, ih, nest, nest, List.tail_cons, ih']

theorem Nested.at_start {events : List MarkupEvent} (nested : Nested events)
    {before rest : List MarkupEvent} {name : CString} {attributes : Attributes}
    (shape : events = before ++ .startElement name attributes :: rest) :
    ∃ inner rest', rest = inner ++ .endElement name :: rest' ∧ Nested inner := by
  induction nested generalizing before rest with
  | nil =>
      rw [eq_comm, List.append_eq_nil_iff] at shape
      cases shape.2
  | @element other others inner' behind' within behind ih ih' =>
      cases before with
      | nil =>
          cases shape
          exact ⟨inner', behind', rfl, within⟩
      | cons first before =>
          rw [List.cons_append, List.cons.injEq, List.append_eq_append_iff] at shape
          rcases shape.2 with ⟨middle, here, split⟩ | ⟨middle, here, split⟩
          · cases middle with
            | nil => cases split
            | cons close middle =>
                rw [List.cons_append, List.cons.injEq] at split
                exact ih' split.2
          · cases middle with
            | nil => cases split
            | cons opening middle =>
                rw [List.cons_append, List.cons.injEq] at split
                obtain ⟨rfl, rfl⟩ := split
                obtain ⟨inner, rest', shape', nested'⟩ := ih here
                refine ⟨inner, rest' ++ .endElement other :: behind', ?_, nested'⟩
                rw [shape', List.append_assoc]
                rfl

def stackOf (channel : Attributes) (properties : List Attributes) : ElementStack :=
  properties.map (fun attributes => ("property".toList, attributes)) ++ [("channel".toList, channel)]

inductive Shape : ElementStack → Prop where
  | top : Shape []
  | inside (channel : Attributes) (properties : List Attributes)
      (plain : ∀ attributes ∈ properties, '/' ∉ elementName attributes) :
      Shape (stackOf channel properties)
  | value (channel value : Attributes) (properties : List Attributes) (within : properties ≠ [])
      (plain : ∀ attributes ∈ properties, '/' ∉ elementName attributes) :
      Shape (("value".toList, value) :: stackOf channel properties)

def elemOf : ElementStack → XmlParserElem
  | [] => .none
  | (name, _) :: _ =>
    if name = "channel".toList then .channel
    else if name = "property".toList then .property
    else .value

structure Tracks (stack : ElementStack) (state : XmlParserState) : Prop where
  shape : Shape stack
  path : state.curPath = partsName (propertyNames stack)
  elem : state.curElem = elemOf stack

theorem propertyNames_property (attributes : Attributes) (stack : ElementStack) :
    propertyNames (("property".toList, attributes) :: stack) =
      propertyNames stack ++ [elementName attributes] := by
  unfold propertyNames
  rw [List.reverse_cons, List.filterMap_append]
  congr 1

theorem propertyNames_other {name : CString} (other : name ≠ "property".toList)
    (attributes : Attributes) (stack : ElementStack) :
    propertyNames ((name, attributes) :: stack) = propertyNames stack := by
  have unnamed : List.filterMap (fun element : CString × Attributes =>
      if element.1 = "property".toList then some (elementName element.2) else none)
      [(name, attributes)] = [] := List.filterMap_cons_none (if_neg other)
  unfold propertyNames
  rw [List.reverse_cons, List.filterMap_append, unnamed, List.append_nil]

theorem propertyNames_stackOf (channel : Attributes) (properties : List Attributes) :
    propertyNames (stackOf channel properties) = (properties.map elementName).reverse := by
  induction properties with
  | nil => exact propertyNames_other (by decide) channel []
  | cons attributes rest ih =>
      rw [List.map_cons, List.reverse_cons, ← ih]
      exact propertyNames_property attributes (stackOf channel rest)

theorem elemOf_stackOf (channel : Attributes) (properties : List Attributes) :
    elemOf (stackOf channel properties) = if properties = [] then .channel else .property := by
  cases properties <;> rfl

section Steps

variable {host : Host} {stack : ElementStack} {state next : XmlParserState}
  {attributes : Attributes}

theorem xmlHandleProperty_path
    (done : xmlHandleProperty host state attributes = .ok next) :
    next.curPath = elementPath state.curPath (elementName attributes) ∧
      next.curElem = .property := by
  have whole : gStrlcpy (elementPath state.curPath (elementName attributes)) maxPropPath =
      elementPath state.curPath (elementName attributes) :=
    List.take_of_length_le (Nat.le_sub_one_of_lt (elementPath_length _ _))
  rcases xmlHandleProperty_entered done with ⟨_, rfl⟩ | ⟨_, entered⟩
  · exact ⟨whole, rfl⟩
  · exact ⟨entered.path.trans whole, entered.elem⟩

theorem xmlHandleChannel_path (done : xmlHandleChannel host state attributes = .ok next) :
    next.curPath = state.curPath ∧ next.curElem = .channel := by
  rcases xmlHandleChannel_cases host state attributes with
    ⟨error, outcome⟩ | outcome | ⟨_, outcome⟩ <;> rw [outcome] at done <;> cases done
  · exact ⟨rfl, rfl⟩
  · exact ⟨rfl, rfl⟩

theorem xmlHandleValue_path (done : xmlHandleValue host state attributes = .ok next) :
    next.curPath = state.curPath ∧ next.curElem = .value := by
  rcases xmlHandleValue_cases host attributes with ⟨error, outcome⟩ | outcome | ⟨parsed, outcome⟩ <;>
    rw [outcome] at done <;> cases done
  unfold addElement
  split <;> exact ⟨rfl, rfl⟩

theorem startElem_path {element : CString}
    (done : startElem host state element attributes = .ok next) :
    (state.curElem = .none ∧ element = "channel".toList ∧ next.curPath = state.curPath ∧
        next.curElem = .channel) ∨
      ((state.curElem = .channel ∨ state.curElem = .property) ∧ element = "property".toList ∧
        xmlHandleProperty host state attributes = .ok next) ∨
      (state.curElem = .property ∧ element = "value".toList ∧ next.curPath = state.curPath ∧
        next.curElem = .value) := by
  rcases startElem_cases host state element attributes with
    ⟨error, outcome⟩ | ⟨elem, channel, outcome⟩ | ⟨elem, property, outcome⟩ |
      ⟨elem, value, outcome⟩ <;> rw [outcome] at done
  · cases done
  · exact .inl ⟨elem, channel, xmlHandleChannel_path done⟩
  · exact .inr (.inl ⟨elem, property, done⟩)
  · exact .inr (.inr ⟨elem, value, xmlHandleValue_path done⟩)

/-- The name of the element has no slash, and its path fits into the buffer. -/
def Fits (stack : ElementStack) : MarkupEvent → Prop
  | .startElement element attributes => element = "property".toList →
    '/' ∉ elementName attributes ∧
      (partsName (propertyNames stack ++ [elementName attributes])).length < maxPropPath
  | .endElement _ => True

theorem Tracks.start (tracks : Tracks stack state) {element : CString}
    (done : startElem host state element attributes = .ok next)
    (fits : Fits stack (.startElement element attributes)) :
    Tracks ((element, attributes) :: stack) next := by
  obtain ⟨shape, path, elem⟩ := tracks
  rcases startElem_path done with
    ⟨none, rfl, path', elem'⟩ | ⟨open', rfl, handled⟩ | ⟨property, rfl, path', elem'⟩
  · rw [elem] at none
    cases shape with
    | top =>
        refine ⟨.inside attributes [] ?_, ?_, elem'⟩
        · intro other member
          cases member
        · rw [path', path]
          rfl
    | inside channel properties plain =>
        rw [elemOf_stackOf] at none
        split_ifs at none
    | value => cases none
  · obtain ⟨plain', short⟩ := fits rfl
    obtain ⟨path', elem'⟩ := xmlHandleProperty_path handled
    rw [elem] at open'
    cases shape with
    | top => rcases open' with wrong | wrong <;> cases wrong
    | inside channel properties plain =>
        refine ⟨.inside channel (attributes :: properties) ?_, ?_, elem'⟩
        · exact List.forall_mem_cons.mpr ⟨plain', plain⟩
        · rw [path', path, elementPath_snoc short, propertyNames_property]
    | value => rcases open' with wrong | wrong <;> cases wrong
  · rw [elem] at property
    cases shape with
    | top => cases property
    | inside channel properties plain =>
        rw [elemOf_stackOf] at property
        split_ifs at property with within
        refine ⟨.value channel attributes properties within plain, ?_, elem'⟩
        rw [path', path, propertyNames_other (by decide)]
    | value => cases property

theorem Tracks.close (tracks : Tracks stack state) : Tracks stack.tail (endElem state) := by
  obtain ⟨shape, path, elem⟩ := tracks
  cases shape with
  | top =>
      have same : endElem state = state := by
        rw [endElem, elem]
        rfl
      rw [same]
      exact ⟨.top, path, elem⟩
  | value channel value properties within plain =>
      have closed : endElem state = { state with curElem := .property } := by
        rw [endElem, elem]
        rfl
      rw [closed]
      refine ⟨.inside channel properties plain, ?_, ?_⟩
      · rw [propertyNames_other (by decide)] at path
        exact path
      · rw [List.tail_cons, elemOf_stackOf, if_neg within]
  | inside channel properties plain =>
      cases properties with
      | nil =>
          have closed : endElem state = { state with curElem := .none, curPath := [] } := by
            rw [endElem, elem]
            rfl
          rw [closed]
          exact ⟨.top, rfl, rfl⟩
      | cons own outer =>
          obtain ⟨plain', plainOuter⟩ := List.forall_mem_cons.mp plain
          have shape : stackOf channel (own :: outer) =
              ("property".toList, own) :: stackOf channel outer := rfl
          rw [shape] at path elem ⊢
          rw [propertyNames_property] at path
          rw [endElem_property elem path plain']
          refine ⟨.inside channel outer plainOuter, rfl, ?_⟩
          rw [List.tail_cons, elemOf_stackOf, propertyNames_stackOf]
          simp only [List.reverse_eq_nil_iff, List.map_eq_nil_iff]

theorem Tracks.event (tracks : Tracks stack state) {event : MarkupEvent}
    (done : handleEvent host state event = .ok next) (fits : Fits stack event) :
    Tracks (nest stack event) next := by
  cases event with
  | startElement element attributes => exact tracks.start done fits
  | endElement element =>
      cases done
      exact tracks.close

theorem Tracks.events (tracks : Tracks stack state) {events : List MarkupEvent}
    (done : parseEvents host state events = .ok next)
    (fits : ∀ before event rest, events = before ++ event :: rest →
      Fits (before.foldl nest stack) event) : Tracks (events.foldl nest stack) next := by
  induction events generalizing stack state with
  | nil =>
      cases done
      exact tracks
  | cons event events ih =>
      rw [parseEvents] at done
      cases handled : handleEvent host state event with
      | ok middle =>
          rw [handled] at done
          refine ih (tracks.event handled (fits [] event events rfl)) done ?_
          intro before other rest shape
          exact fits (event :: before) other rest (by rw [shape]; rfl)
      | _ =>
          rw [handled] at done
          cases done

end Steps

section Discipline

variable {host : Host} {channel : EsconfChannel} {system : Bool} {events : List MarkupEvent}
  {state : XmlParserState}

theorem tracks_start (channel : EsconfChannel) (system : Bool) :
    Tracks [] (startState channel system) := ⟨.top, rfl, rfl⟩

def ShortPaths (events : List MarkupEvent) : Prop :=
  ∀ before attributes rest, events = before ++ .startElement "property".toList attributes :: rest →
    (ownPath before attributes).length < maxPropPath

def PlainNames (events : List MarkupEvent) : Prop :=
  ∀ attributes, .startElement "property".toList attributes ∈ events → '/' ∉ elementName attributes

theorem ShortPaths.front {first second : List MarkupEvent} (short : ShortPaths (first ++ second)) :
    ShortPaths first := by
  intro before attributes rest shape
  refine short before attributes (rest ++ second) ?_
  rw [shape, List.append_assoc]
  rfl

theorem PlainNames.front {first second : List MarkupEvent} (plain : PlainNames (first ++ second)) :
    PlainNames first := fun attributes member =>
  plain attributes (List.mem_append_left second member)

theorem fits_of_plain (plain : PlainNames events) (short : ShortPaths events) :
    ∀ before event rest, events = before ++ event :: rest → Fits (before.foldl nest []) event := by
  intro before event rest shape
  cases event with
  | endElement element => trivial
  | startElement element attributes =>
      rintro rfl
      refine ⟨plain attributes ?_, short before attributes rest shape⟩
      rw [shape]
      exact List.mem_append_right before List.mem_cons_self

theorem tracks_before {before rest : List MarkupEvent} (plain : PlainNames before)
    (short : ShortPaths (before ++ rest))
    (read : parseEvents host (startState channel system) before = .ok state) :
    Tracks (before.foldl nest []) state :=
  (tracks_start channel system).events read (fits_of_plain plain short.front)

theorem property_handled {attributes : Attributes} {entered : XmlParserState}
    (done : handleEvent host state (.startElement "property".toList attributes) = .ok entered) :
    xmlHandleProperty host state attributes = .ok entered := by
  rcases startElem_path done with ⟨_, other, _⟩ | ⟨_, _, handled⟩ | ⟨_, other, _⟩
  · cases other
  · exact handled
  · cases other

theorem element_append {name : CString} {attributes : Attributes} (inner rest : List MarkupEvent) :
    MarkupEvent.startElement name attributes :: (inner ++ .endElement name :: rest) =
      (.startElement name attributes :: (inner ++ [.endElement name])) ++ rest := by
  rw [List.cons_append, List.append_assoc, List.singleton_append]

theorem disciplined_of_plain (plain : PlainNames events) (short : ShortPaths events) :
    Disciplined host (startState channel system) events := by
  constructor
  · intro before attributes rest state entered shape read done
    rw [shape] at plain short
    have tracks := tracks_before plain.front short read
    have path : elementPath state.curPath (elementName attributes) = ownPath before attributes := by
      rw [tracks.path]
      exact elementPath_snoc (short before attributes rest rfl)
    rcases xmlHandleProperty_entered (property_handled done) with ⟨skipped, rfl⟩ | ⟨_, entered⟩
    · rw [path] at skipped
      exact .inl ⟨skipped, rfl⟩
    · rw [path] at entered
      exact .inr ⟨entered.value, entered.others⟩
  · intro before attributes inner rest state after shape nested read done
    have fits := fits_of_plain plain short
    rw [shape] at plain short
    have tracks := tracks_before plain.front short read
    have element : Nested (.startElement "property".toList attributes ::
        (inner ++ [.endElement "property".toList])) := .element _ _ nested .nil
    have behind := tracks.events done (by
      intro before' event rest' shape'
      rw [← List.foldl_append]
      refine fits (before ++ before') event (rest' ++ rest) ?_
      rw [element_append inner rest, shape'] at shape
      rw [shape, List.append_assoc, List.append_assoc, List.cons_append])
    rw [element.foldl_nest] at behind
    exact ⟨behind.path.trans tracks.path.symm, behind.elem.trans tracks.elem.symm⟩

/-- Nothing stands in a value element that is read to its end. -/
theorem value_closed {inner : List MarkupEvent} (nested : Nested inner) {after : XmlParserState}
    (elem : state.curElem = .value)
    (done : parseEvents host state (inner ++ [.endElement "value".toList]) = .ok after) :
    after.curPath = state.curPath ∧ after.curElem = .property := by
  cases nested with
  | nil =>
      have closed : endElem state = { state with curElem := .property } := by
        rw [endElem, elem]
      rw [← Handled.ok.inj (done : Handled.ok (endElem state) = _), closed]
      exact ⟨rfl, rfl⟩
  | element name attributes within behind =>
      have refused : handleEvent host state (.startElement name attributes) = .error
          (markupError .unknownElement
            "No other elements are allowed inside a <value> element.".toList) state := by
        rw [handleEvent, startElem, elem]
      rw [List.cons_append, parseEvents, refused] at done
      cases done

theorem inner_restored {start : XmlParserState} (disciplined : Disciplined host start events)
    {inner : List MarkupEvent} (nested : Nested inner) {before rest : List MarkupEvent}
    (shape : events = before ++ (inner ++ rest)) {after : XmlParserState}
    (elem : state.curElem = .property) (read : parseEvents host start before = .ok state)
    (done : parseEvents host state inner = .ok after) :
    after.curPath = state.curPath ∧ after.curElem = .property := by
  induction nested generalizing before rest state with
  | nil =>
      cases done
      exact ⟨rfl, elem⟩
  | @element name attributes inner behind within follows _ ih =>
      rw [element_append] at done shape
      obtain ⟨middle, first, second⟩ := parseEvents_split done
      have back : middle.curPath = state.curPath ∧ middle.curElem = .property := by
        have opened := first
        rw [parseEvents] at opened
        cases handled : handleEvent host state (.startElement name attributes) with
        | ok entered =>
            rw [handled] at opened
            rcases startElem_path handled with
              ⟨none, _⟩ | ⟨_, rfl, _⟩ | ⟨_, rfl, path, value⟩
            · rw [elem] at none
              cases none
            · rw [← elem]
              refine disciplined.restored before attributes inner (behind ++ rest) state middle ?_
                within read first
              rw [shape, element_append inner (behind ++ rest), List.append_assoc]
            · obtain ⟨path', elem'⟩ := value_closed within value opened
              exact ⟨path'.trans path, elem'⟩
        | _ =>
            rw [handled] at opened
            cases opened
      have read' := (parseEvents_append read).trans first
      rw [← back.1]
      refine @ih middle _ rest ?_ back.2 read' second
      rw [shape, List.append_assoc, List.append_assoc]

/-- Behind the end of an element whose name has a slash, the parser is not back. -/
theorem slash_kept (path name : CString) (slash : '/' ∈ name) :
    uptoLastSlash (path ++ '/' :: name) ≠ path := by
  obtain ⟨back, front, split, plain⟩ :=
    List.eq_append_cons_of_mem (List.mem_reverse.mpr slash)
  have shape : path ++ '/' :: name = (path ++ '/' :: front.reverse) ++ '/' :: back.reverse := by
    rw [← List.reverse_reverse name, split]
    simp
  rw [shape]
  intro same
  have cut := SeparatedWords.beforeLast_snoc (path ++ '/' :: front.reverse) back.reverse
    (mt List.mem_reverse.mp plain)
  have lengths := congrArg List.length (cut.symm.trans same)
  rw [List.length_append, List.length_cons] at lengths
  omega

theorem first_slash (slashed : ¬PlainNames events) :
    ∃ before attributes rest,
      events = before ++ .startElement "property".toList attributes :: rest ∧
      PlainNames before ∧ '/' ∈ elementName attributes := by
  induction events with
  | nil =>
      refine absurd ?_ slashed
      intro attributes member
      cases member
  | cons event events ih =>
      by_cases here : ∃ attributes, event = .startElement "property".toList attributes ∧
          '/' ∈ elementName attributes
      · obtain ⟨attributes, rfl, slash⟩ := here
        refine ⟨[], attributes, events, rfl, ?_, slash⟩
        intro other member
        cases member
      · have later : ¬PlainNames events := by
          intro plain
          refine slashed fun attributes member slash => ?_
          rcases List.mem_cons.mp member with same | further
          · exact here ⟨attributes, same.symm, slash⟩
          · exact plain attributes further slash
        obtain ⟨before, attributes, rest, rfl, plain, slash⟩ := ih later
        refine ⟨event :: before, attributes, rest, rfl, ?_, slash⟩
        intro other member
        rcases List.mem_cons.mp member with same | further
        · exact fun slash => here ⟨other, same.symm, slash⟩
        · exact plain other further

theorem plain_of_disciplined (nested : Nested events) (short : ShortPaths events)
    (accepted : ∃ last, parseEvents host (startState channel system) events = .ok last)
    (disciplined : Disciplined host (startState channel system) events) : PlainNames events := by
  by_contra slashed
  obtain ⟨before, attributes, rest, shape, plain, slash⟩ := first_slash slashed
  obtain ⟨inner, rest', rfl, within⟩ := nested.at_start shape
  obtain ⟨last, done⟩ := accepted
  rw [shape] at done short
  obtain ⟨state, read, done⟩ := parseEvents_split done
  have tracks := tracks_before plain short read
  have path : elementPath state.curPath (elementName attributes) =
      state.curPath ++ '/' :: elementName attributes := by
    rw [tracks.path, elementPath_snoc (short before attributes _ rfl), partsName_snoc]
  rw [element_append] at done
  obtain ⟨after, first, _⟩ := parseEvents_split done
  obtain ⟨back, _⟩ := disciplined.restored before attributes inner rest' state after shape within
    read first
  rw [parseEvents] at first
  cases handled : handleEvent host state (.startElement "property".toList attributes) with
  | ok entered =>
      rw [handled] at first
      obtain ⟨path', elem'⟩ := xmlHandleProperty_path (property_handled handled)
      obtain ⟨middle, inside, ended⟩ := parseEvents_split first
      have read' : parseEvents host (startState channel system)
          (before ++ [.startElement "property".toList attributes]) = .ok entered := by
        rw [parseEvents_append read, parseEvents, handled]
        rfl
      have opened : events = (before ++ [.startElement "property".toList attributes]) ++
          (inner ++ .endElement "property".toList :: rest') := by
        rw [shape, List.append_assoc]
        rfl
      obtain ⟨path'', elem''⟩ := inner_restored disciplined within opened elem' read' inside
      have up : after.curPath = uptoLastSlash middle.curPath := by
        have ends : endElem middle = after := Handled.ok.inj ended
        have slashed : '/' ∈ middle.curPath := by
          rw [path'', path', path]
          exact List.mem_append_right _ List.mem_cons_self
        rw [← ends, endElem, elem'']
        dsimp only
        rw [if_pos slashed]
      rw [path'', path', path, back] at up
      exact slash_kept _ _ slash up.symm
  | _ =>
      rw [handled] at first
      cases first

/-- A well-nested file that is accepted is stored under its own paths, with every element
restored, exactly if no name of a property element has a slash. -/
theorem path_discipline_iff (host : Host) (channel : EsconfChannel) (system : Bool)
    (events : List MarkupEvent) (nested : Nested events) (short : ShortPaths events)
    (accepted : ∃ last, parseEvents host (startState channel system) events = .ok last) :
    Disciplined host (startState channel system) events ↔ PlainNames events := by
  constructor
  · exact plain_of_disciplined nested short accepted
  · exact fun plain => disciplined_of_plain plain short

end Discipline

def channelAround (inner : List MarkupEvent) : List MarkupEvent :=
  .startElement "channel".toList [("name".toList, "c".toList), ("version".toList, "1.0".toList)] ::
    (inner ++ [.endElement "channel".toList])

def propertyAround (name type value : CString) (inner : List MarkupEvent) : List MarkupEvent :=
  .startElement "property".toList
      [("name".toList, name), ("type".toList, type), ("value".toList, value)] ::
    (inner ++ [.endElement "property".toList])

/-- A property in another one. -/
theorem path_discipline_two :
    Disciplined (.bare []) (startState .root false) (channelAround
      (propertyAround "a".toList "empty".toList []
        (propertyAround "b".toList "int".toList "1".toList []))) := by
  refine (path_discipline_iff (.bare []) .root false _ ?_ ?_ ⟨_, rfl⟩).mpr ?_
  · exact .element _ _ (.element _ _ (.element _ _ .nil .nil) .nil) .nil
  · intro before attributes rest shape
    rcases before with _ | ⟨_, _ | ⟨_, _ | ⟨_, _ | ⟨_, _ | ⟨_, _ | ⟨_, before⟩⟩⟩⟩⟩⟩ <;>
      first | (cases shape; decide) | cases shape | (cases before <;> cases shape)
  · intro attributes member
    rcases member with _ | ⟨_, _ | ⟨_, _ | ⟨_, _ | ⟨_, _ | ⟨_, _ | ⟨_, _ | ⟨_, _⟩⟩⟩⟩⟩⟩⟩ <;> decide

/-- Behind a property with a slash in its name, the next one is misfiled under a part of it. -/
theorem slash_misfiles :
    Nested (channelAround (propertyAround "a/b".toList "empty".toList [] [] ++
      propertyAround "c".toList "int".toList "1".toList [])) ∧
    ∃ last, parseEvents (.bare []) (startState .root false) (channelAround
        (propertyAround "a/b".toList "empty".toList [] [] ++
          propertyAround "c".toList "int".toList "1".toList [])) = .ok last ∧
      (last.properties.slot ["a".toList, "c".toList]).value = .int 1 ∧
      (last.properties.slot ["c".toList]).value = .invalid :=
  ⟨.element _ _ (.element _ _ .nil (.element _ _ .nil .nil)) .nil, _, rfl, rfl, rfl⟩

end Esconf
