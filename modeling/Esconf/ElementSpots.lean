import Esconf.EnteredElements

/-! Files of value and property elements in any order and depth. The path of an element is cut to
a buffer, and cut at its last slash at each end of a property: where the parser is then, which
elements it takes, and what they write. -/

namespace Esconf

open NamedTree

inductive MarkupElement where
  | value (attributes : Attributes) (contents : List MarkupElement)
  | property (attributes : Attributes) (contents : List MarkupElement)

def arrayTyped (attributes : Attributes) : Bool :=
  gtypeFromString (elementType attributes) == .ptrArray

/-- Where the parser is: the path of the elements around it, as far as it fits, and the element it
is in. -/
structure Spot where
  path : CString
  elem : XmlParserElem

namespace Spot

def top : Spot := ⟨[], .channel⟩

def enter (spot : Spot) (name : CString) : Spot := ⟨elementPath spot.path name, .property⟩

def leave (spot : Spot) : Spot :=
  match spot.elem with
  | .channel => ⟨[], .none⟩
  | .property =>
    if '/' ∈ spot.path then
      ⟨uptoLastSlash spot.path, if uptoLastSlash spot.path = [] then .channel else .property⟩
    else ⟨spot.path, .channel⟩
  | .value => ⟨spot.path, .property⟩
  | .none => spot

def passes (spot : Spot) (system : Bool) (locked : List CString → Bool)
    (attributes : Attributes) : Bool :=
  !system && locked (nameParts (spot.enter (elementName attributes)).path)

/-- A property element may stand here, and it has no lock attributes in a user file that does not
pass over it. -/
def allows (spot : Spot) (host : Host) (system : Bool) (locked : List CString → Bool)
    (attributes : Attributes) : Bool :=
  (spot.elem == .channel || spot.elem == .property) &&
    (system || spot.passes system locked attributes || (lockedState host attributes).isNone)

def opensArray (spot : Spot) (system : Bool) (locked : List CString → Bool)
    (attributes : Attributes) : Bool :=
  arrayTyped attributes && !spot.passes system locked attributes

def writes (spot : Spot) (host : Host) (system : Bool) (locked : List CString → Bool)
    (attributes : Attributes) : List (List CString × (GValue → GValue)) :=
  if spot.passes system locked attributes then []
  else [(nameParts (spot.enter (elementName attributes)).path,
    fun _ => (startValue host attributes).getD .invalid)]

end Spot

namespace MarkupElement

theorem byContents {motive : MarkupElement → Prop}
    (value : ∀ attributes contents, (∀ element ∈ contents, motive element) →
      motive (.value attributes contents))
    (property : ∀ attributes contents, (∀ element ∈ contents, motive element) →
      motive (.property attributes contents)) : ∀ element, motive element
  | .value attributes contents =>
    value attributes contents fun element _ => byContents value property element
  | .property attributes contents =>
    property attributes contents fun element _ => byContents value property element

mutual

def events : MarkupElement → List MarkupEvent
  | value attributes contents =>
    .startElement "value".toList attributes :: (eventsAll contents ++ [.endElement "value".toList])
  | property attributes contents =>
    .startElement "property".toList attributes ::
      (eventsAll contents ++ [.endElement "property".toList])

def eventsAll : List MarkupElement → List MarkupEvent
  | [] => []
  | element :: rest => events element ++ eventsAll rest

end

mutual

def Valid (host : Host) : MarkupElement → Prop
  | value attributes contents =>
    (itemValue host attributes).isSome = true ∧ ValidAll host contents
  | property attributes contents =>
    Opens host attributes ∧ '/' ∉ elementName attributes ∧ ValidAll host contents

def ValidAll (host : Host) : List MarkupElement → Prop
  | [] => True
  | element :: rest => Valid host element ∧ ValidAll host rest

end

def isValue : MarkupElement → Bool
  | value _ _ => true
  | property _ _ => false

mutual

def spotAfter (spot : Spot) : MarkupElement → Spot
  | value _ _ => spot
  | property attributes contents =>
    (spotAfterAll (spot.enter (elementName attributes)) contents).leave

def spotAfterAll (spot : Spot) : List MarkupElement → Spot
  | [] => spot
  | element :: rest => spotAfterAll (spotAfter spot element) rest

end

mutual

/-- An empty value element is taken where an array is known, and a property element where it is
allowed. -/
def taken (host : Host) (system : Bool) (locked : List CString → Bool) (spot : Spot)
    (known : Bool) : MarkupElement → Bool
  | value _ contents => known && contents.isEmpty
  | property attributes contents =>
    spot.allows host system locked attributes &&
      takenAll host system locked (spot.enter (elementName attributes))
        (known || spot.opensArray system locked attributes) contents

def takenAll (host : Host) (system : Bool) (locked : List CString → Bool) (spot : Spot)
    (known : Bool) : List MarkupElement → Bool
  | [] => true
  | element :: rest =>
    taken host system locked spot known element &&
      takenAll host system locked (spotAfter spot element) (known && element.isValue) rest

end

mutual

/-- What reading an element does to the values of its layer, one slot after the other: a value
element adds to the array that is known. -/
def filed (host : Host) (system : Bool) (locked : List CString → Bool) (spot : Spot)
    (known : Option CString) : MarkupElement → List (List CString × (GValue → GValue))
  | value attributes _ => known.toList.map fun path =>
    (nameParts path, ptrArrayAdd ((itemValue host attributes).getD .invalid))
  | property attributes contents =>
    spot.writes host system locked attributes ++
      filedAll host system locked (spot.enter (elementName attributes))
        (if spot.opensArray system locked attributes then
          some (spot.enter (elementName attributes)).path else known) contents

def filedAll (host : Host) (system : Bool) (locked : List CString → Bool) (spot : Spot)
    (known : Option CString) : List MarkupElement → List (List CString × (GValue → GValue))
  | [] => []
  | element :: rest =>
    filed host system locked spot known element ++
      filedAll host system locked (spotAfter spot element)
        (if element.isValue then known else none) rest

end

end MarkupElement

def CutPath (path : CString) : Prop :=
  ∃ names : List CString, (∀ name ∈ names, name ≠ [] ∧ '/' ∉ name) ∧
    path = (partsName names).take (maxPropPath - 1)

theorem cutPath_nil : CutPath [] :=
  ⟨[], fun _ member => absurd member List.not_mem_nil, rfl⟩

theorem propNameIsValid_take {path : CString} (valid : propNameIsValid path = true) {n : Nat}
    (two : 2 ≤ n) : propNameIsValid (path.take n) = true := by
  obtain ⟨c, rest, rfl, clean⟩ := propNameIsValid_iff.mp valid
  obtain ⟨more, rfl⟩ := Nat.exists_eq_add_of_le' two
  exact propNameIsValid_iff.mpr ⟨c, rest.take more, rfl, hasDoubleSlash_take clean _⟩

namespace CutPath

variable {path : CString}

theorem enter (cut : CutPath path) {name : CString} (full : name ≠ []) (plain : '/' ∉ name) :
    CutPath (elementPath path name) ∧ propNameIsValid (elementPath path name) = true := by
  obtain ⟨names, named, rfl⟩ := cut
  have longer : ∀ other ∈ names ++ [name], other ≠ [] ∧ '/' ∉ other := by
    intro other member
    rcases List.mem_append.mp member with before | last
    · exact named other before
    · rw [List.mem_singleton.mp last]
      exact ⟨full, plain⟩
  have whole : elementPath ((partsName names).take (maxPropPath - 1)) name =
      (partsName (names ++ [name])).take (maxPropPath - 1) := by
    unfold elementPath gStrlcat gStrlcpy
    rw [partsName_snoc, List.take_take, Nat.min_self]
    by_cases fits : (partsName names).length < maxPropPath - 1
    · have slash : (partsName names ++ "/".toList).length ≤ maxPropPath - 1 := by
        have one : ("/".toList : CString).length = 1 := rfl
        rw [List.length_append, one]
        omega
      rw [List.take_of_length_le (Nat.le_of_lt fits), List.take_of_length_le slash,
        List.append_assoc]
      rfl
    · have size : ((partsName names).take (maxPropPath - 1)).length = maxPropPath - 1 := by
        rw [List.length_take]
        omega
      rw [List.take_append_of_le_length (Nat.le_of_eq size.symm), List.take_take, Nat.min_self,
        List.take_append_of_le_length (Nat.le_of_eq size.symm), List.take_take, Nat.min_self,
        List.take_append_of_le_length (by omega)]
  refine ⟨⟨names ++ [name], longer, whole⟩, ?_⟩
  rw [whole]
  exact propNameIsValid_take (propNameIsValid_partsName (by simp) longer) (by decide)

theorem upto (cut : CutPath path) : CutPath (uptoLastSlash path) := by
  obtain ⟨names, named, rfl⟩ := cut
  by_cases top : names = []
  · rw [top]
    exact cutPath_nil
  have plain : SeparatedWords.Plain '/' names := fun name member => (named name member).2
  obtain ⟨above, below, _, same⟩ := uptoLastSlash_take plain top
    (Nat.min_le_right (maxPropPath - 1) (partsName names).length)
  rw [← List.take_eq_take_min] at same
  have short : (uptoLastSlash ((partsName names).take (maxPropPath - 1))).length ≤
      maxPropPath - 1 :=
    (SeparatedWords.beforeLast_length _ _).trans (List.length_take_le _ _)
  rw [same] at short ⊢
  exact ⟨above, fun name member => named name (below.subset member),
    (List.take_of_length_le short).symm⟩

theorem leave {spot : Spot} (cut : CutPath spot.path) : CutPath spot.leave.path := by
  unfold Spot.leave
  cases spot.elem with
  | channel => exact cutPath_nil
  | property =>
      dsimp only
      split
      · exact cut.upto
      · exact cut
  | value => exact cut
  | none => exact cut

end CutPath

structure At (system : Bool) (locked : List CString → Bool) (spot : Spot)
    (state : XmlParserState) : Prop where
  kind : state.isSystemFile = system
  loadable : Loadable state
  path : state.curPath = spot.path
  elem : state.curElem = spot.elem
  outer : spot.elem ≠ .value
  cut : CutPath spot.path
  locks : system = false → ∀ path, (state.properties.slot path).locked = locked path

def ArrayAt (known : Option CString) (state : XmlParserState) : Prop :=
  match known with
  | none => state.listProperty = none ∧ state.listValue = none
  | some path =>
    (state.listProperty = some path ∧ state.listValue = some path) ∧
      (descend state.properties (nameParts path)).isSome = true

def layerOf (system : Bool) (state : XmlParserState) (path : List CString) : GValue :=
  layerValue system (state.properties.slot path)

def perform (acts : List (List CString × (GValue → GValue))) (layer : List CString → GValue) :
    List CString → GValue :=
  Assignments.carryOut (fun act old => act old) acts layer

theorem perform_append (first second : List (List CString × (GValue → GValue)))
    (layer : List CString → GValue) :
    perform (first ++ second) layer = perform second (perform first layer) :=
  Assignments.carryOut_append _ first second layer

theorem Spot.leave_outer {spot : Spot} (outer : spot.elem ≠ .value) :
    spot.leave.elem ≠ .value := by
  unfold Spot.leave
  split
  · exact XmlParserElem.noConfusion
  · split
    · dsimp only
      split <;> exact XmlParserElem.noConfusion
    · exact XmlParserElem.noConfusion
  · exact XmlParserElem.noConfusion
  · exact outer

theorem endElem_spot (state : XmlParserState) :
    (⟨(endElem state).curPath, (endElem state).curElem⟩ : Spot) =
      Spot.leave ⟨state.curPath, state.curElem⟩ := by
  unfold endElem Spot.leave
  cases elem : state.curElem with
  | channel => rfl
  | property =>
      dsimp only
      split <;> rfl
  | value => rfl
  | none => exact congrArg (Spot.mk state.curPath) elem

section Reading

variable {host : Host} {system : Bool} {locked : List CString → Bool} {spot : Spot}
  {known : Option CString} {state : XmlParserState} {attributes : Attributes}

theorem At.leave (here : At system locked spot state) :
    At system locked spot.leave (endElem state) := by
  obtain ⟨channel, kind, _⟩ := endElem_keeps state
  have moved := endElem_spot state
  rw [here.path, here.elem] at moved
  refine ⟨kind.trans here.kind, ?_, congrArg Spot.path moved, congrArg Spot.elem moved,
    Spot.leave_outer here.outer, here.cut.leave, ?_⟩
  · intro lock
    rw [channel] at lock
    exact kind.trans (here.loadable lock)
  · unfold XmlParserState.properties
    rw [channel]
    exact here.locks

theorem layerOf_endElem (state : XmlParserState) : layerOf system (endElem state) =
    layerOf system state := by
  obtain ⟨channel, _⟩ := endElem_keeps state
  unfold layerOf XmlParserState.properties
  rw [channel]

theorem ArrayAt.forget (array : state.curElem = .property ∨ ArrayAt none state) :
    ArrayAt none (endElem state) := by
  unfold endElem
  split
  next elem =>
    rw [elem] at array
    exact array.resolve_left XmlParserElem.noConfusion
  next =>
    dsimp only
    split
    · exact ⟨rfl, rfl⟩
    · exact ⟨rfl, rfl⟩
  next elem =>
    rw [elem] at array
    exact array.resolve_left XmlParserElem.noConfusion
  next elem =>
    rw [elem] at array
    exact array.resolve_left XmlParserElem.noConfusion

theorem At.skipped_iff (here : At system locked spot state)
    (valid : propNameIsValid (spot.enter (elementName attributes)).path = true) :
    Skipped state (spot.enter (elementName attributes)).path ↔
      spot.passes system locked attributes = true := by
  rw [Esconf.skipped_iff valid, here.kind, Spot.passes, Bool.and_eq_true, Bool.not_eq_true']
  apply and_congr_right
  intro user
  rw [here.locks user]

theorem At.lockRefused_iff (here : At system locked spot state) :
    LockRefused host state attributes ↔
      (system || (lockedState host attributes).isNone) = false := by
  rw [LockRefused, here.kind]
  cases system <;> cases lockedState host attributes <;> simp

theorem At.entered {entered : XmlParserState} (here : At system locked spot state)
    (cut : CutPath (spot.enter (elementName attributes)).path)
    (enters : EntersAt host state (spot.enter (elementName attributes)).path attributes entered)
    (allowed : ¬LockRefused host state attributes) :
    At system locked (spot.enter (elementName attributes)) entered := by
  refine ⟨enters.kind.trans here.kind, ?_, ?_, enters.elem, XmlParserElem.noConfusion, cut, ?_⟩
  · intro lock
    rw [enters.channelLocked] at lock
    exact enters.kind.trans (here.loadable lock)
  · exact enters.path.trans
      (List.take_of_length_le (Nat.le_sub_one_of_lt (elementPath_length _ _)))
  · intro user other
    have kind := here.kind.trans user
    have free : lockedState host attributes = none := by
      rw [← Option.not_isSome_iff_eq_none]
      exact fun given => allowed ⟨given, kind⟩
    rw [← here.locks user other]
    by_cases same : other = nameParts (spot.enter (elementName attributes)).path
    · rw [same]
      exact enters.locks (here.loadable.unlocked kind) free
    · rw [enters.others other same]

theorem EntersAt.array {fullpath : CString} {entered : XmlParserState}
    (enters : EntersAt host state fullpath attributes entered) (array : ArrayAt known state) :
    ArrayAt (if arrayTyped attributes then some fullpath else known) entered := by
  have list := enters.list
  by_cases own : arrayTyped attributes = true
  · rw [if_pos (beq_iff_eq.mp own)] at list
    rw [if_pos own]
    exact ⟨list, enters.there⟩
  · rw [if_neg (mt beq_iff_eq.mpr own)] at list
    rw [if_neg own]
    unfold ArrayAt at array ⊢
    rw [list.1, list.2]
    cases known with
    | none => exact array
    | some outer => exact ⟨array.1, enters.kept _ array.2⟩

theorem EntersAt.layer {fullpath : CString} {entered : XmlParserState}
    (enters : EntersAt host state fullpath attributes entered)
    (kind : state.isSystemFile = system) :
    layerOf system entered = Function.update (layerOf system state) (nameParts fullpath)
      ((startValue host attributes).getD .invalid) := by
  funext other
  rw [Function.update_apply]
  unfold layerOf
  by_cases same : other = nameParts fullpath
  · rw [if_pos same, same, ← kind]
    exact enters.value
  · rw [if_neg same, enters.others other same]

theorem At.misplaced (here : At system locked spot state)
    (misplaced : ¬(spot.elem = .channel ∨ spot.elem = .property)) (after : XmlParserState) :
    startElem host state "property".toList attributes ≠ .ok after := by
  intro done
  rcases startElem_cases host state "property".toList attributes with
    ⟨error, outcome⟩ | ⟨_, wrong, _⟩ | ⟨stands, _⟩ | ⟨_, wrong, _⟩
  · rw [outcome] at done
    cases done
  · exact absurd wrong (by decide)
  · rw [here.elem] at stands
    exact misplaced stands
  · exact absurd wrong (by decide)

theorem At.startElem_property (here : At system locked spot state)
    (stands : spot.elem = .channel ∨ spot.elem = .property) (attributes : Attributes) :
    startElem host state "property".toList attributes =
      xmlHandleProperty host state attributes := by
  rw [startElem, here.elem]
  rcases stands with elem | elem
  · rw [elem]
    rfl
  · rw [elem]
    rfl

theorem At.property (here : At system locked spot state) (array : ArrayAt known state)
    (opens : Opens host attributes) (plain : '/' ∉ elementName attributes) :
    (spot.allows host system locked attributes = false ∧
      ∀ after, startElem host state "property".toList attributes ≠ .ok after) ∨
    (spot.allows host system locked attributes = true ∧ ∃ entered,
      startElem host state "property".toList attributes = .ok entered ∧
      At system locked (spot.enter (elementName attributes)) entered ∧
      ArrayAt (if spot.opensArray system locked attributes then
        some (spot.enter (elementName attributes)).path else known) entered ∧
      layerOf system entered =
        perform (spot.writes host system locked attributes) (layerOf system state)) := by
  obtain ⟨cut, valid⟩ := here.cut.enter opens.named plain
  have path : elementPath state.curPath (elementName attributes) =
      (spot.enter (elementName attributes)).path := by
    rw [here.path]
    rfl
  have skips := here.skipped_iff valid
  rw [← path] at skips
  unfold Spot.allows Spot.opensArray Spot.writes
  by_cases stands : spot.elem = .channel ∨ spot.elem = .property
  · have placed : (spot.elem == .channel || spot.elem == .property) = true := by
      rw [Bool.or_eq_true, beq_iff_eq, beq_iff_eq]
      exact stands
    simp only [here.startElem_property stands, placed, Bool.true_and]
    by_cases skipped : spot.passes system locked attributes = true
    · right
      simp only [skipped, Bool.or_true, Bool.true_or, Bool.not_true, Bool.and_false]
      have passed := xmlHandleProperty_skipped here.loadable opens (skips.mpr skipped)
      rw [path] at passed
      refine ⟨trivial, _, passed, ⟨here.kind, here.loadable, ?_, rfl, XmlParserElem.noConfusion,
        cut, here.locks⟩, array, rfl⟩
      exact List.take_of_length_le (Nat.le_sub_one_of_lt (elementPath_length _ _))
    · rw [Bool.not_eq_true] at skipped
      have unskipped := mt skips.mp (by rw [skipped]; decide)
      simp only [skipped, Bool.or_false, Bool.not_false, Bool.and_true]
      by_cases refused : LockRefused host state attributes
      · left
        refine ⟨here.lockRefused_iff.mp refused, ?_⟩
        intro after done
        rcases xmlHandleProperty_entered done with ⟨skips', _⟩ | ⟨⟨_, allowed⟩, _⟩
        · exact unskipped skips'
        · exact allowed refused
      · right
        have free := mt here.lockRefused_iff.mpr refused
        rw [Bool.not_eq_false] at free
        obtain ⟨entered, done⟩ := xmlHandleProperty_accepts here.loadable opens refused
          (path.symm ▸ valid) unskipped
        rcases xmlHandleProperty_entered done with ⟨skips', _⟩ | ⟨_, enters⟩
        · exact absurd skips' unskipped
        rw [path] at enters
        exact ⟨free, entered, done, here.entered cut enters refused, enters.array array,
          enters.layer here.kind⟩
  · left
    rw [not_or] at stands
    have misplaced : (spot.elem == .channel || spot.elem == .property) = false := by
      rw [beq_false_of_ne stands.1, beq_false_of_ne stands.2]
      rfl
    rw [misplaced]
    exact ⟨rfl, here.misplaced (not_or.mpr stands)⟩

theorem At.value (here : At system locked spot state) {path : CString}
    (array : ArrayAt (some path) state) (inside : spot.elem = .property)
    (given : (itemValue host attributes).isSome = true) :
    ∃ added, startElem host state "value".toList attributes = .ok added ∧
      added.curElem = .value ∧ At system locked spot (endElem added) ∧
      ArrayAt (some path) (endElem added) ∧
      layerOf system (endElem added) = perform
        [(nameParts path, ptrArrayAdd ((itemValue host attributes).getD .invalid))]
          (layerOf system state) := by
  obtain ⟨⟨property, list⟩, there⟩ := array
  obtain ⟨parsed, item⟩ := Option.isSome_iff_exists.mp given
  have handled : startElem host state "value".toList attributes =
      .ok { state.updateSlot path (ptrArrayAdd parsed) with curElem := .value } := by
    rw [startElem, here.elem, inside, property, list]
    rcases xmlHandleValue_itemValue host attributes with ⟨refused, _⟩ | ⟨other, given', ok⟩
    · rw [item] at refused
      cases refused
    · obtain rfl := Option.some.inj (item.symm.trans given')
      refine (ok state).trans ?_
      rw [addElement, list]
  have slots := slot_updateSlot_system here.kind path (ptrArrayAdd parsed)
  simp only [there, and_true] at slots
  refine ⟨_, handled, rfl, ⟨here.kind, here.loadable, here.path, inside.symm, here.outer, here.cut,
    ?_⟩, ⟨⟨property, list⟩, descend_update_isSome _ _ _ _ there⟩, ?_⟩
  · intro user other
    rw [← here.locks user other]
    refine (congrArg EsconfProperty.locked (slots other)).trans ?_
    split_ifs <;> rfl
  · funext other
    refine Eq.trans ?_ (Function.update_apply _ _ _ _).symm
    rw [item]
    refine (congrArg (layerValue system) (slots other)).trans ?_
    by_cases same : other = nameParts path
    · rw [if_pos same, if_pos same, same]
      cases system <;> rfl
    · rw [if_neg same, if_neg same]
      rfl

theorem value_refused_outside (array : ArrayAt none state) (attributes : Attributes)
    (after : XmlParserState) : startElem host state "value".toList attributes ≠ .ok after := by
  intro done
  rw [startElem, array.1] at done
  cases elem : state.curElem <;> rw [elem] at done <;> cases done

/-- Nothing is accepted inside a value element. -/
theorem inner_refused (elem : state.curElem = .value) (element : MarkupElement)
    (rest : List MarkupEvent) (last : XmlParserState) :
    parseEvents host state (element.events ++ rest) ≠ .ok last := by
  have refused : ∀ name attributes next,
      handleEvent host state (.startElement name attributes) ≠ .ok next := by
    intro name attributes next done
    rw [handleEvent, startElem, elem] at done
    cases done
  cases element with
  | value attributes contents | property attributes contents =>
      rw [MarkupElement.events, List.cons_append, parseEvents]
      intro done
      split at done
      next next handled => exact refused _ attributes next handled
      next stopped => exact stopped last done

theorem parseEvents_start {element : CString} {next : XmlParserState}
    (done : startElem host state element attributes = .ok next) (events : List MarkupEvent) :
    parseEvents host state (.startElement element attributes :: events) =
      parseEvents host next events := by
  rw [parseEvents, handleEvent, done]

theorem parseEvents_refused {element : CString}
    (refused : ∀ next, startElem host state element attributes ≠ .ok next)
    (events : List MarkupEvent) (last : XmlParserState) :
    parseEvents host state (.startElement element attributes :: events) ≠ .ok last := by
  intro done
  rw [parseEvents, handleEvent] at done
  split at done
  next next handled => exact refused next handled
  next stopped => exact stopped last done

variable (host system locked)

def ReadsAll (contents : List MarkupElement) : Prop :=
  ∀ spot known state, At system locked spot state → ArrayAt known state →
    (known.isSome = true → spot.elem = .property) → MarkupElement.ValidAll host contents →
    (MarkupElement.takenAll host system locked spot known.isSome contents = false ∧
      ∀ rest last, parseEvents host state (MarkupElement.eventsAll contents ++ rest) ≠ .ok last) ∨
    (MarkupElement.takenAll host system locked spot known.isSome contents = true ∧ ∃ after,
      (∀ rest, parseEvents host state (MarkupElement.eventsAll contents ++ rest) =
        parseEvents host after rest) ∧
      At system locked (MarkupElement.spotAfterAll spot contents) after ∧
      ArrayAt (if contents.all (·.isValue) then known else none) after ∧
      layerOf system after =
        perform (MarkupElement.filedAll host system locked spot known contents)
          (layerOf system state))

def ReadsElement (element : MarkupElement) : Prop :=
  ∀ spot known state, At system locked spot state → ArrayAt known state →
    (known.isSome = true → spot.elem = .property) → element.Valid host →
    (element.taken host system locked spot known.isSome = false ∧
      ∀ rest last, parseEvents host state (element.events ++ rest) ≠ .ok last) ∨
    (element.taken host system locked spot known.isSome = true ∧ ∃ after,
      (∀ rest, parseEvents host state (element.events ++ rest) = parseEvents host after rest) ∧
      At system locked (element.spotAfter spot) after ∧
      ArrayAt (if element.isValue then known else none) after ∧
      layerOf system after =
        perform (element.filed host system locked spot known) (layerOf system state))

variable {host system locked}

theorem reads_all {contents : List MarkupElement}
    (each : ∀ element ∈ contents, ReadsElement host system locked element) :
    ReadsAll host system locked contents := by
  induction contents with
  | nil =>
      intro spot known state here array _ _
      exact .inr ⟨rfl, state, fun _ => rfl, here, array, rfl⟩
  | cons element rest ih =>
      have follows := ih fun other member => each other (List.mem_cons_of_mem _ member)
      intro spot known state here array nested valid
      obtain ⟨first, later⟩ := valid
      have knows : (if element.isValue then known else none).isSome =
          (known.isSome && element.isValue) := by
        cases element <;> cases known <;> rfl
      unfold MarkupElement.takenAll MarkupElement.eventsAll MarkupElement.filedAll
        MarkupElement.spotAfterAll
      simp only [List.append_assoc]
      rcases each element List.mem_cons_self spot known state here array nested first with
        ⟨refused, stops⟩ | ⟨takes, middle, read, here', array', layer⟩
      · left
        rw [refused]
        exact ⟨rfl, fun rest' last => stops _ last⟩
      · rw [takes, ← knows, perform_append, ← layer, List.all_cons]
        simp only [read]
        have inside : (if element.isValue then known else none).isSome = true →
            (element.spotAfter spot).elem = .property := by
          rw [knows, Bool.and_eq_true]
          rintro ⟨some, value⟩
          cases element with
          | value attributes contents => exact nested some
          | property attributes contents => cases value
        have kept : (if (element.isValue && rest.all (·.isValue)) = true then known else none) =
            if rest.all (·.isValue) = true then if element.isValue = true then known else none
            else none := by
          cases element.isValue <;> cases rest.all (·.isValue) <;> rfl
        rw [kept]
        exact follows _ _ middle here' array' inside later

theorem reads_value (attributes : Attributes) (contents : List MarkupElement) :
    ReadsElement host system locked (.value attributes contents) := by
  intro spot known state here array nested valid
  obtain ⟨given, _⟩ := valid
  cases known with
  | none =>
      refine .inl ⟨rfl, ?_⟩
      intro rest last
      exact parseEvents_refused (value_refused_outside array attributes) _ last
  | some path =>
      obtain ⟨added, done, elem, here', array', layer⟩ := here.value array (nested rfl) given
      cases contents with
      | nil =>
          refine .inr ⟨rfl, endElem added, ?_, here', array', layer⟩
          exact fun rest => parseEvents_start done _
      | cons first more =>
          refine .inl ⟨rfl, ?_⟩
          intro rest last
          rw [MarkupElement.events, List.cons_append, parseEvents_start done,
            MarkupElement.eventsAll, List.append_assoc, List.append_assoc]
          exact inner_refused elem first _ last

theorem spotAfterAll_values (spot : Spot) {contents : List MarkupElement}
    (values : contents.all (·.isValue) = true) :
    MarkupElement.spotAfterAll spot contents = spot := by
  induction contents with
  | nil => rfl
  | cons element rest ih =>
      rw [List.all_cons, Bool.and_eq_true] at values
      cases element with
      | value attributes inner => exact ih values.2
      | property attributes inner => cases values.1

theorem reads_property (attributes : Attributes) (contents : List MarkupElement)
    (reads : ReadsAll host system locked contents) :
    ReadsElement host system locked (.property attributes contents) := by
  intro spot known state here array _ valid
  obtain ⟨opens, plain, validInner⟩ := valid
  unfold MarkupElement.taken MarkupElement.filed MarkupElement.spotAfter MarkupElement.events
  simp only [List.cons_append, List.append_assoc]
  rcases here.property array opens plain with
    ⟨refused, stops⟩ | ⟨allowed, entered, done, here', array', layer⟩
  · left
    rw [refused]
    exact ⟨rfl, fun rest last => parseEvents_refused stops _ last⟩
  have knows : (if spot.opensArray system locked attributes = true then
      some (spot.enter (elementName attributes)).path else known).isSome =
        (known.isSome || spot.opensArray system locked attributes) := by
    cases spot.opensArray system locked attributes <;> cases known <;> rfl
  rw [allowed, ← knows, perform_append, ← layer]
  simp only [parseEvents_start done]
  rcases reads (spot.enter (elementName attributes)) _ entered here' array' (fun _ => rfl)
      validInner with
    ⟨strays, stops⟩ | ⟨tame, filled, read, inner, array'', layer'⟩
  · exact .inl ⟨strays, fun rest => stops _⟩
  · refine .inr ⟨tame, endElem filled, ?_, inner.leave, ArrayAt.forget ?_, ?_⟩
    · exact fun rest => read _
    · by_cases values : contents.all (·.isValue) = true
      · left
        rw [inner.elem, spotAfterAll_values _ values]
        rfl
      · right
        rw [if_neg values] at array''
        exact array''
    · rw [layerOf_endElem, layer']

theorem reads_one (element : MarkupElement) : ReadsElement host system locked element := by
  induction element using MarkupElement.byContents with
  | value attributes contents _ => exact reads_value attributes contents
  | property attributes contents ih => exact reads_property attributes contents (reads_all ih)

end Reading

end Esconf
