import Esconf.EnteredElements

/-! Files of any shape, and where reading them comes to a NULL pointer: at an attribute that is
absent, or at the node of a path that is no property name. -/

namespace Esconf

open NamedTree

def needsText : GType → Bool
  | .uchar | .char | .uint | .int | .uint64 | .int64 | .uint16 | .int16 => true
  | .boolean | .float | .double => true
  | _ => false

/-- A property element with a name and a type is passed over, or its path is a property name
and the text of its value is there if it is asked for. -/
def PropertySafe (host : Host) (state : XmlParserState) (attributes : Attributes) : Prop :=
  ∀ name type, unknownAttribute attributes propertyAttributes = none →
    filled (attributeValue attributes "name".toList) = some name →
    filled (attributeValue attributes "type".toList) = some type →
    Skipped state (elementPath state.curPath name) ∨
      propNameIsValid (elementPath state.curPath name) = true ∧
        (LockRefused host state attributes ∨ needsText (gtypeFromString type) = false ∨
          attributeValue attributes "value".toList ≠ none)

/-- A value element without unknown attributes has a type, and the text that the type asks
for. -/
def ValueSafe (attributes : Attributes) : Prop :=
  unknownAttribute attributes valueAttributes = none →
    ∃ type, attributeValue attributes "type".toList = some type ∧
      (needsText (gtypeFromString type) = false ∨ attributeValue attributes "value".toList ≠ none)

def EventSafe (host : Host) (state : XmlParserState) : MarkupEvent → Prop
  | .startElement element attributes =>
    (state.curElem = .channel ∨ state.curElem = .property → element = "property".toList →
      PropertySafe host state attributes) ∧
    (state.curElem = .property → state.listProperty.isSome = true → state.listValue.isSome = true →
      element = "value".toList → ValueSafe attributes)
  | .endElement _ => True

/-- Every event that a file gets to is one its handler can take. -/
def RunSafe (host : Host) (start : XmlParserState) (events : List MarkupEvent) : Prop :=
  ∀ before event rest state, events = before ++ event :: rest →
    parseEvents host start before = .ok state → EventSafe host state event

def Handled.Faults (handled : Handled) : Prop := ∃ state, handled = .fault state

theorem not_faults_ok (state : XmlParserState) : ¬(Handled.ok state).Faults := by
  rintro ⟨faulty, same⟩
  cases same

theorem not_faults_error (error : GError) (state : XmlParserState) :
    ¬(Handled.error error state).Faults := by
  rintro ⟨faulty, same⟩
  cases same

theorem faults_fault (state : XmlParserState) : (Handled.fault state).Faults := ⟨state, rfl⟩

theorem realHandleInt_ne_fault (convert : CString → Conversion) (low high : Int)
    (make : Int → GValue) (str : CString) : realHandleInt convert low high make str ≠ .fault := by
  unfold realHandleInt
  dsimp only
  split_ifs <;> intro same <;> cases same

theorem handleInt64_ne_fault (convert : CString → Conversion) (make : Int → GValue)
    (str : CString) : handleInt64 convert make str ≠ .fault := by
  unfold handleInt64
  dsimp only
  split_ifs <;> intro same <;> cases same

theorem handleFloating_ne_fault (host : Host) (check : UInt64 → Bool) (make : UInt64 → GValue)
    (str : CString) : handleFloating host check make str ≠ .fault := by
  unfold handleFloating
  dsimp only
  split_ifs <;> intro same <;> cases same

theorem handleBoolean_ne_fault (str : CString) : handleBoolean str ≠ .fault := by
  unfold handleBoolean
  split_ifs <;> intro same <;> cases same

theorem gvalueFromString_fault (host : Host) (type : GType) (str : Option CString) :
    gvalueFromString host type str = .fault ↔ needsText type = true ∧ str = none := by
  cases str with
  | none => cases type <;> simp [gvalueFromString, onString, needsText]
  | some text =>
      have given : ¬(needsText type = true ∧ some text = none) := by
        rintro ⟨_, none⟩
        cases none
      refine iff_of_false ?_ given
      cases type <;> simp only [gvalueFromString, onString]
      case uchar | char | uint | int | uint16 | int16 =>
        exact realHandleInt_ne_fault _ _ _ _ text
      case uint64 | int64 => exact handleInt64_ne_fault _ _ text
      case float | double => exact handleFloating_ne_fault host _ _ text
      case boolean => exact handleBoolean_ne_fault text
      all_goals
        intro same
        cases same

section Handlers

variable {host : Host} {state : XmlParserState} {fullpath type : CString}
  {attributes : Attributes}

theorem xmlPropertyValue_faults (value : Option CString) :
    (xmlPropertyValue host state fullpath type value).Faults ↔
      needsText (gtypeFromString type) = true ∧ value = none := by
  unfold xmlPropertyValue
  cases gtypeFromString type with
  | invalid => exact iff_of_false (not_faults_error _ _) fun asked => Bool.noConfusion asked.1
  | none => exact iff_of_false (not_faults_ok _) fun asked => Bool.noConfusion asked.1
  | _ =>
      rw [← gvalueFromString_fault host]
      dsimp only
      cases gvalueFromString host _ value with
      | fault => exact iff_of_true (faults_fault _) rfl
      | refused => exact iff_of_false (not_faults_error _ _) FromString.noConfusion
      | parsed parsed =>
          refine iff_of_false ?_ FromString.noConfusion
          dsimp only
          split
          · exact not_faults_ok _
          · exact not_faults_ok _

theorem xmlPropertyAt_faults (loadable : Loadable state) (short : fullpath.length < maxPropPath) :
    (xmlPropertyAt host state fullpath type attributes).Faults ↔
      ¬(Skipped state fullpath ∨ propNameIsValid fullpath = true ∧
        (LockRefused host state attributes ∨ needsText (gtypeFromString type) = false ∨
          attributeValue attributes "value".toList ≠ none)) := by
  rcases xmlPropertyAt_cases host loadable short type attributes with
    ⟨skipped, passed⟩ | ⟨unskipped, invalid, faulty⟩ | ⟨unskipped, valid, opened, cleared, _, locks⟩
  · rw [passed]
    exact iff_of_false (not_faults_ok _) (not_not.mpr (.inl skipped))
  · rw [faulty]
    refine iff_of_true (faults_fault state) ?_
    rintro (skipped | ⟨valid, _⟩)
    · exact unskipped skipped
    · exact Bool.false_ne_true (invalid.symm.trans valid)
  rw [locks, or_iff_right unskipped, and_iff_right valid]
  rcases xmlPropertyLocks_cases host cleared type attributes with
    ⟨refused, error, outcome⟩ | ⟨allowed, ready, _, _, outcome⟩
  · rw [outcome]
    exact iff_of_false (not_faults_error _ _) (not_not.mpr (.inl refused))
  · rw [outcome, xmlPropertyValue_faults, or_iff_right allowed, not_or, not_not,
      Bool.not_eq_false]

theorem xmlHandleProperty_faults (loadable : Loadable state) :
    (xmlHandleProperty host state attributes).Faults ↔ ¬PropertySafe host state attributes := by
  unfold xmlHandleProperty PropertySafe
  split
  next unknown given =>
    refine iff_of_false (not_faults_error _ _) (not_not.mpr fun name type known => ?_)
    rw [given] at known
    cases known
  next known =>
    split
    next name type named typed =>
      rw [xmlPropertyAt_faults loadable (elementPath_length state.curPath name)]
      apply not_congr
      constructor
      · intro safe name' type' _ named' typed'
        obtain rfl := Option.some.inj (named.symm.trans named')
        obtain rfl := Option.some.inj (typed.symm.trans typed')
        exact safe
      · exact fun all => all name type known named typed
    next missing =>
      exact iff_of_false (not_faults_error _ _)
        (not_not.mpr fun name type _ named typed => (missing name type named typed).elim)

theorem xmlHandleValue_faults :
    (xmlHandleValue host state attributes).Faults ↔ ¬ValueSafe attributes := by
  unfold xmlHandleValue ValueSafe
  cases unknownAttribute attributes valueAttributes with
  | some unknown =>
      refine iff_of_false (not_faults_error _ _) (not_not.mpr ?_)
      intro known
      cases known
  | none =>
      cases attributeValue attributes "type".toList with
      | none =>
          refine iff_of_true (faults_fault state) ?_
          intro safe
          obtain ⟨type, given, _⟩ := safe rfl
          cases given
      | some type =>
          have asked : ((none : Option CString) = none → ∃ given, some type = some given ∧
              (needsText (gtypeFromString given) = false ∨
                attributeValue attributes "value".toList ≠ none)) ↔
              (needsText (gtypeFromString type) = false ∨
                attributeValue attributes "value".toList ≠ none) := by
            constructor
            · intro safe
              obtain ⟨given, same, enough⟩ := safe rfl
              obtain rfl := Option.some.inj same
              exact enough
            · exact fun enough _ => ⟨type, rfl, enough⟩
          rw [asked, not_or, not_not, Bool.not_eq_false]
          dsimp only
          cases gtypeFromString type with
          | ptrArray | invalid | none =>
              exact iff_of_false (not_faults_error _ _) fun asked => Bool.noConfusion asked.1
          | _ =>
              rw [← gvalueFromString_fault host]
              dsimp only
              cases gvalueFromString host _ (attributeValue attributes "value".toList) with
              | fault => exact iff_of_true (faults_fault _) rfl
              | refused => exact iff_of_false (not_faults_error _ _) FromString.noConfusion
              | parsed parsed =>
                  refine iff_of_false ?_ FromString.noConfusion
                  dsimp only
                  split
                  · exact not_faults_ok _
                  · exact not_faults_ok _

theorem xmlHandleChannel_not_faults : ¬(xmlHandleChannel host state attributes).Faults := by
  rcases xmlHandleChannel_cases host state attributes with
    ⟨error, outcome⟩ | outcome | ⟨_, outcome⟩ <;> rw [outcome]
  · exact not_faults_error _ _
  · exact not_faults_ok _
  · exact not_faults_ok _

/-- A handler faults exactly at an event that it cannot take. -/
theorem handleEvent_faults (loadable : Loadable state) (event : MarkupEvent) :
    (handleEvent host state event).Faults ↔ ¬EventSafe host state event := by
  cases event with
  | endElement element => exact iff_of_false (not_faults_ok _) (not_not.mpr trivial)
  | startElement element attributes =>
      unfold handleEvent startElem EventSafe
      cases elem : state.curElem with
      | none =>
          refine iff_of_false ?_ (not_not.mpr ⟨by simp, by simp⟩)
          dsimp only
          split
          · exact xmlHandleChannel_not_faults
          · exact not_faults_error _ _
      | value => exact iff_of_false (not_faults_error _ _) (not_not.mpr ⟨by simp, by simp⟩)
      | channel =>
          dsimp only
          by_cases property : element = "property".toList
          · rw [if_pos property, xmlHandleProperty_faults loadable]
            simp [property]
          · rw [if_neg property]
            exact iff_of_false (not_faults_error _ _)
              (not_not.mpr ⟨fun _ same => absurd same property, by simp⟩)
      | property =>
          dsimp only
          by_cases property : element = "property".toList
          · rw [if_pos property, xmlHandleProperty_faults loadable]
            simp [property]
          · rw [if_neg property]
            by_cases value : (state.listProperty.isSome && state.listValue.isSome &&
                element == "value".toList) = true
            · rw [if_pos value, xmlHandleValue_faults]
              rw [Bool.and_eq_true, Bool.and_eq_true, beq_iff_eq] at value
              simp [value]
            · rw [if_neg value]
              refine iff_of_false (not_faults_error _ _) (not_not.mpr ⟨?_, ?_⟩)
              · exact fun _ same => absurd same property
              · intro _ open' slot same
                refine absurd ?_ value
                rw [open', slot, same]
                rfl

structure SameFile (before after : XmlParserState) : Prop where
  kind : after.isSystemFile = before.isSystemFile
  locked : after.channel.locked = before.channel.locked

theorem SameFile.loadable {before after : XmlParserState} (same : SameFile before after)
    (loadable : Loadable before) : Loadable after := by
  intro locked
  rw [same.locked] at locked
  exact same.kind.trans (loadable locked)

theorem xmlHandleProperty_sameFile {entered : XmlParserState}
    (done : xmlHandleProperty host state attributes = .ok entered) : SameFile state entered := by
  rcases xmlHandleProperty_entered done with ⟨_, rfl⟩ | ⟨_, enters⟩
  · exact ⟨rfl, rfl⟩
  · exact ⟨enters.kind, enters.channelLocked⟩

theorem xmlHandleChannel_loadable {entered : XmlParserState} (loadable : Loadable state)
    (done : xmlHandleChannel host state attributes = .ok entered) : Loadable entered := by
  rcases xmlHandleChannel_cases host state attributes with
    ⟨error, outcome⟩ | outcome | ⟨system, outcome⟩ <;> rw [outcome] at done <;> cases done
  · exact loadable
  · exact fun _ => system

theorem xmlHandleValue_loadable {entered : XmlParserState} (loadable : Loadable state)
    (done : xmlHandleValue host state attributes = .ok entered) : Loadable entered := by
  rcases xmlHandleValue_cases host attributes with ⟨error, outcome⟩ | outcome | ⟨parsed, outcome⟩ <;>
    rw [outcome] at done <;> cases done
  unfold addElement
  split
  · exact loadable
  · exact loadable

theorem handleEvent_loadable (loadable : Loadable state) {event : MarkupEvent}
    {next : XmlParserState} (done : handleEvent host state event = .ok next) : Loadable next := by
  cases event with
  | endElement element =>
      cases done
      obtain ⟨channel, system, _⟩ := endElem_keeps state
      intro locked
      rw [channel] at locked
      exact system.trans (loadable locked)
  | startElement element attributes =>
      change startElem host state element attributes = .ok next at done
      rcases startElem_cases host state element attributes with
        ⟨error, outcome⟩ | ⟨_, _, outcome⟩ | ⟨_, _, outcome⟩ | ⟨_, _, outcome⟩ <;>
        rw [outcome] at done
      · cases done
      · exact xmlHandleChannel_loadable loadable done
      · exact (xmlHandleProperty_sameFile done).loadable loadable
      · exact xmlHandleValue_loadable loadable done

theorem eventSafe_of_handled (loadable : Loadable state) {event : MarkupEvent}
    (handled : ¬(handleEvent host state event).Faults) : EventSafe host state event := by
  rw [handleEvent_faults loadable, not_not] at handled
  exact handled

theorem parseEvents_faults (loadable : Loadable state) (events : List MarkupEvent) :
    ¬(parseEvents host state events).Faults ↔ RunSafe host state events := by
  induction events generalizing state with
  | nil =>
      refine iff_of_true (not_faults_ok state) ?_
      intro before event rest middle shape
      cases before <;> cases shape
  | cons event events ih =>
      rw [parseEvents]
      cases step : handleEvent host state event with
      | ok next =>
          dsimp only
          rw [ih (handleEvent_loadable loadable step)]
          constructor
          · intro safe before event' rest middle shape read
            cases before with
            | nil =>
                cases shape
                cases read
                apply eventSafe_of_handled loadable
                rw [step]
                exact not_faults_ok next
            | cons first before =>
                cases shape
                rw [parseEvents, step] at read
                exact safe before event' rest middle rfl read
          · intro safe before event' rest middle shape read
            refine safe (event :: before) event' rest middle ?_ ?_
            · rw [shape]
              rfl
            · rw [parseEvents, step]
              exact read
      | error error after =>
          refine iff_of_true (not_faults_error error after) ?_
          intro before event' rest middle shape read
          cases before with
          | nil =>
              cases shape
              cases read
              apply eventSafe_of_handled loadable
              rw [step]
              exact not_faults_error error after
          | cons first before =>
              cases shape
              rw [parseEvents, step] at read
              cases read
      | fault after =>
          refine iff_of_false (not_not.mpr (faults_fault after)) ?_
          intro safe
          have taken := safe [] event events state rfl rfl
          apply (handleEvent_faults loadable event).mp _ taken
          rw [step]
          exact faults_fault after

end Handlers

/-- No handler comes to a NULL pointer exactly if every event a file gets to finds what its
handler needs. -/
theorem reports_iff (host : Host) (channel : EsconfChannel) (system : Bool)
    (events : List MarkupEvent) (loadable : channel.locked = true → system = true) :
    (∀ faulty, parseEvents host (startState channel system) events ≠ .fault faulty) ↔
      RunSafe host (startState channel system) events := by
  have start : Loadable (startState channel system) := loadable
  rw [← parseEvents_faults start]
  exact not_exists.symm

def channelTag : MarkupEvent :=
  .startElement "channel".toList [("name".toList, "c".toList), ("version".toList, "1.0".toList)]

/-- A property element of an unknown type is reported. -/
theorem reports_unknown_type :
    RunSafe (.bare []) (startState .root false) [channelTag, .startElement "property".toList
      [("name".toList, "a".toList), ("type".toList, "number".toList)]] := by
  refine (reports_iff (.bare []) .root false _ fun locked => locked).mp ?_
  rintro faulty read
  cases read

/-- A name that starts with a slash, a number without text and a value element without a type. -/
theorem malformed_dereferenced :
    (parseEvents (.bare []) (startState .root false) [channelTag, .startElement "property".toList
      [("name".toList, "/x".toList), ("type".toList, "empty".toList)]]).Faults ∧
    (parseEvents (.bare []) (startState .root false) [channelTag, .startElement "property".toList
      [("name".toList, "a".toList), ("type".toList, "int".toList)]]).Faults ∧
    (parseEvents (.bare []) (startState .root false) [channelTag, .startElement "property".toList
      [("name".toList, "a".toList), ("type".toList, "array".toList)],
      .startElement "value".toList [("value".toList, "1".toList)]]).Faults :=
  ⟨⟨_, rfl⟩, ⟨_, rfl⟩, ⟨_, rfl⟩⟩

end Esconf
