import Esconf.LockedOpenings
import Esconf.TidyTrees

/-! Reading a written file over locked properties: the parser does to the user values what
the elements say, and stops where they do. -/

namespace Esconf

open NamedTree

structure Place where
  front : List CString
  array : Option (List CString)

structure Stands (locked : List CString → Bool) (place : Place)
    (values : List CString → GValue) (state : XmlParserState) : Prop where
  reading : Reading place.front state
  locks : ∀ path, (state.properties.slot path).locked = locked path
  values : ∀ path, (state.properties.slot path).value = values path
  list : state.listProperty = place.array.map partsName ∧
    state.listValue = place.array.map partsName
  anchor : ∀ path, place.array = some path →
    Writable path ∧ (descend state.properties path).isSome

theorem updateSlot_kept (state : XmlParserState) (name : CString) (f : GValue → GValue)
    {path : List CString} (held : (descend state.properties path).isSome) :
    (descend (state.updateSlot name f).properties path).isSome :=
  descend_update_isSome _ _ _ _ held

section Header

variable {host : Host} {locked : List CString → Bool} {front : List CString}
  {array : Option (List CString)} {values : List CString → GValue} {state : XmlParserState}
  {name : CString} {value : GValue}

/-- The element of a locked property changes the place only; the open array stays open. -/
theorem Stands.passed (stands : Stands locked ⟨front, array⟩ values state)
    (prints : isFloating value = true → PrintsDoubles host) (writable : Writable (front ++ [name]))
    (clean : CleanText name) (lock : locked (front ++ [name]) = true) :
    ∃ entered, startElem host state "property".toList
        (readAttributes (nameAttribute name :: headAttributes host value)) = .ok entered ∧
      Stands locked ⟨front ++ [name], array⟩ values entered := by
  have named : name ≠ [] := (writable.named name (by simp)).1
  have held : (state.properties.slot (front ++ [name])).locked = true :=
    (stands.locks _).trans lock
  obtain ⟨type, text, typed, attributes, _⟩ := headAttributes_read prints clean
  refine ⟨enterProperty (partsName (front ++ [name])) state, ?_, ?_⟩
  · rw [attributes, startElem_property host stands.reading text named typed,
      elementPath_snoc writable.short, xmlPropertyAt_skipped host stands.reading writable held]
  · constructor
    · exact ⟨stands.reading.user, stands.reading.unlocked, writable.strlcpy,
        (if_neg writable.full).symm⟩
    · exact stands.locks
    · exact stands.values
    · exact stands.list
    · exact stands.anchor

def openedValue (host : Host) (value : GValue) : GValue :=
  if isArray value then .ptrArray [] else reread host value

theorem array_typed {type : CString} {text : Option CString} (readable : rereads value = true)
    (prints : isFloating value = true → PrintsDoubles host)
    (shape : (∃ spelled, spelling host value = some spelled ∧ type = spelled.1 ∧
        text = some (normalizeAttribute spelled.2.value)) ∨
      spelling host value = none ∧ text = none ∧
        type = if isArray value then "array".toList else "empty".toList) :
    gtypeFromString type = .ptrArray ↔ isArray value = true := by
  rcases shape with ⟨spelled, scalar, rfl, _⟩ | ⟨_, _, rfl⟩
  · have plain := (spelling_scalar host scalar).1
    have typed := (spelling_spelledAs prints scalar).typed
    have single := (scalarRereads_gtype (scalarRereads_of_spelling scalar readable)).2.2
    apply iff_of_false
    · rw [typed]
      exact single
    · rw [plain]
      exact Bool.false_ne_true
  · cases isArray value with
    | true => exact iff_of_true (by decide) rfl
    | false => exact iff_of_false (by decide) Bool.false_ne_true

theorem Stands.entered (stands : Stands locked ⟨front, array⟩ values state)
    (writable : Writable (front ++ [name])) {entered : XmlParserState} {parsed : GValue}
    {inner : Option (List CString)} (reading : Reading (front ++ [name]) entered)
    (there : (descend entered.properties (front ++ [name])).isSome)
    (kept : ∀ path, (descend state.properties path).isSome →
      (descend entered.properties path).isSome)
    (slots : ∀ path, entered.properties.slot path =
      if path = front ++ [name] then (state.properties.slot path).withValue parsed
      else state.properties.slot path)
    (list : entered.listProperty = inner.map partsName ∧
      entered.listValue = inner.map partsName)
    (origin : inner = array ∨ inner = some (front ++ [name])) :
    Stands locked ⟨front ++ [name], inner⟩ (Function.update values (front ++ [name]) parsed)
      entered := by
  constructor
  · exact reading
  · intro path
    rw [slots path, ← stands.locks path]
    split <;> rfl
  · intro path
    rw [slots path, Function.update_apply]
    split
    · rfl
    · exact stands.values path
  · exact list
  · intro path anchored
    dsimp only at anchored
    rcases origin with before | new
    · obtain ⟨fits, held⟩ := stands.anchor path (before.symm.trans anchored)
      exact ⟨fits, kept path held⟩
    · have same : front ++ [name] = path := Option.some.inj (new.symm.trans anchored)
      rw [← same]
      exact ⟨writable, there⟩

theorem Stands.opened (stands : Stands locked ⟨front, array⟩ values state)
    (prints : isFloating value = true → PrintsDoubles host) (writable : Writable (front ++ [name]))
    (clean : CleanText name) (readable : rereads value = true)
    (free : locked (front ++ [name]) = false) :
    ∃ entered, startElem host state "property".toList
        (readAttributes (nameAttribute name :: headAttributes host value)) = .ok entered ∧
      Stands locked
        ⟨front ++ [name], if isArray value then some (front ++ [name]) else array⟩
        (Function.update values (front ++ [name]) (openedValue host value)) entered := by
  have named : name ≠ [] := (writable.named name (by simp)).1
  have start := startValue_head prints clean readable
  obtain ⟨type, text, typed, attributes, shape⟩ := headAttributes_read prints clean
  have free' : (state.properties.slot (nameParts (partsName (front ++ [name])))).locked =
      false := by
    rw [writable.nameParts_eq, stands.locks, free]
  obtain ⟨opened, outcome, there, slots, kept⟩ := xmlPropertyAt_opened host stands.reading.user
    stands.reading.unlocked writable.valid writable.short free' type
    (writtenAttributes name type text)
  rw [writable.nameParts_eq] at there slots
  have started : startElem host state "property".toList
      (readAttributes (nameAttribute name :: headAttributes host value)) =
      xmlPropertyValue host (state.withProperties opened) (partsName (front ++ [name])) type
        text := by
    rw [attributes, startElem_property host stands.reading text named typed,
      elementPath_snoc writable.short, outcome, xmlPropertyLocks_written]
  have given := xmlPropertyValue_startValue host (writtenAttributes name type text)
    (partsName (front ++ [name]))
  rw [elementType_written, attributeValue_written, ← attributes, start] at given
  have lists := array_typed readable prints shape
  have reading : Reading (front ++ [name])
      (enterProperty (partsName (front ++ [name])) (state.withProperties opened)) :=
    ⟨stands.reading.user, stands.reading.unlocked, writable.strlcpy, (if_neg writable.full).symm⟩
  have there : (descend (enterProperty (partsName (front ++ [name]))
      (state.withProperties opened)).properties (front ++ [name])).isSome := there
  have kept : ∀ path, (descend state.properties path).isSome →
      (descend (enterProperty (partsName (front ++ [name]))
        (state.withProperties opened)).properties path).isSome := kept
  have written : ∀ parsed path, ((enterProperty (partsName (front ++ [name]))
      (state.withProperties opened)).updateSlot (partsName (front ++ [name]))
        fun _ => parsed).properties.slot path =
      if path = front ++ [name] then (state.properties.slot path).withValue parsed
      else state.properties.slot path := by
    intro parsed path
    rw [slot_updateSlot reading.user, writable.nameParts_eq]
    simp only [there, and_true]
    change (if _ then (opened.slot path).withValue _ else opened.slot path) = _
    rw [slots path]
    split <;> rfl
  rw [started]
  rcases given with ⟨refused, _⟩ | ⟨none, plain, entered⟩ | ⟨parsed, some', given⟩
  · cases refused
  · rw [Ne, lists, Bool.not_eq_true] at plain
    refine ⟨_, entered _, ?_⟩
    rw [openedValue, Option.some.inj none, plain]
    exact stands.entered writable reading there kept slots stands.list (Or.inl rfl)
  · have reading' : Reading (front ++ [name]) ((enterProperty (partsName (front ++ [name]))
        (state.withProperties opened)).updateSlot (partsName (front ++ [name]))
          fun _ => parsed) :=
      ⟨reading.user, reading.unlocked, reading.path, reading.elem⟩
    have there' := updateSlot_kept _ (partsName (front ++ [name])) (fun _ => parsed) there
    have kept' := fun path (held : (descend state.properties path).isSome) =>
      updateSlot_kept _ (partsName (front ++ [name])) (fun _ => parsed) (kept path held)
    rw [openedValue, Option.some.inj some']
    rcases given with ⟨plain, entered⟩ | ⟨array', entered⟩
    · rw [Ne, lists, Bool.not_eq_true] at plain
      refine ⟨_, entered _, ?_⟩
      rw [plain]
      exact stands.entered writable reading' there' kept' (written parsed) stands.list
        (Or.inl rfl)
    · refine ⟨_, entered _, ?_⟩
      rw [if_pos (lists.mp array')]
      exact stands.entered writable
        ⟨reading'.user, reading'.unlocked, reading'.path, reading'.elem⟩ there' kept'
        (written parsed) ⟨rfl, rfl⟩ (Or.inr rfl)

end Header

section Items

variable {host : Host} {locked : List CString → Bool} {front : List CString}
  {values : List CString → GValue} {state : XmlParserState}

theorem Stands.item {array : List CString}
    (stands : Stands locked ⟨front, some array⟩ values state) (inside : front ≠ []) {item : GValue}
    (prints : isFloating item = true → PrintsDoubles host) (readable : scalarRereads item = true) :
    ∃ after, (∀ rest, parseEvents host state (valueEvents (writtenItem host item) ++ rest) =
        parseEvents host after rest) ∧
      Stands locked ⟨front, some array⟩ (Function.update values array
        (ptrArrayAdd (rereadScalar host item) (values array))) after := by
  obtain ⟨writable, there⟩ := stands.anchor array rfl
  have elem : state.curElem = .property := by
    rw [stands.reading.elem, if_neg inside]
  have property : state.listProperty = some (partsName array) := stands.list.1
  have list : state.listValue = some (partsName array) := stands.list.2
  have handled : xmlHandleValue host state (writtenItem host item) =
      .ok (addElement (rereadScalar host item) state) := by
    have given := itemValue_written prints readable
    rcases xmlHandleValue_itemValue host (writtenItem host item) with
      ⟨refused, _⟩ | ⟨parsed, same, ok⟩
    · rw [given] at refused
      cases refused
    · rw [given] at same
      cases same
      exact ok state
  have started : startElem host state "value".toList (writtenItem host item) =
      .ok (addElement (rereadScalar host item) state) := by
    rw [← handled, startElem, elem]
    simp only [property, list]
    rfl
  have added : addElement (rereadScalar host item) state = { state.updateSlot (partsName array)
      (ptrArrayAdd (rereadScalar host item)) with curElem := .value } := by
    rw [addElement, list]
  have slots : ∀ path, (state.updateSlot (partsName array)
      (ptrArrayAdd (rereadScalar host item))).properties.slot path =
        if path = array then (state.properties.slot path).withValue
          (ptrArrayAdd (rereadScalar host item) (state.properties.slot path).value)
        else state.properties.slot path := by
    intro path
    rw [slot_updateSlot stands.reading.user, writable.nameParts_eq]
    simp only [there, and_true]
  refine ⟨endElem (addElement (rereadScalar host item) state), ?_, ?_⟩
  · intro rest
    change parseEvents host state (.startElement "value".toList _ :: .endElement _ :: rest) = _
    rw [parseEvents, handleEvent, started]
    rfl
  · rw [added]
    constructor
    · exact ⟨stands.reading.user, stands.reading.unlocked, stands.reading.path,
        (if_neg inside).symm⟩
    · intro path
      refine Eq.trans ?_ (stands.locks path)
      change (PropTree.slot (state.updateSlot _ _).properties path).locked = _
      rw [slots path]
      split <;> rfl
    · intro path
      change (PropTree.slot (state.updateSlot _ _).properties path).value = _
      rw [slots path, Function.update_apply]
      split
      · next same =>
          rw [← stands.values array, same]
          rfl
      · exact stands.values path
    · exact stands.list
    · intro path anchored
      obtain ⟨fits, held⟩ := stands.anchor path anchored
      exact ⟨fits, updateSlot_kept _ _ _ held⟩

theorem Stands.items {array : List CString}
    (stands : Stands locked ⟨front, some array⟩ values state) (inside : front ≠ [])
    {items : List GValue}
    (prints : ∀ item ∈ items, isFloating item = true → PrintsDoubles host)
    (readable : ∀ item ∈ items, scalarRereads item = true) :
    ∃ after, (∀ rest, parseEvents host state
        ((items.map (writtenItem host)).flatMap valueEvents ++ rest) =
          parseEvents host after rest) ∧
      Stands locked ⟨front, some array⟩ (Function.update values array
        (appendAll (items.map (rereadScalar host)) (values array))) after := by
  induction items generalizing values state with
  | nil =>
      refine ⟨state, fun _ => rfl, ?_⟩
      rw [List.map_nil, appendAll, List.foldl_nil, Function.update_eq_self]
      exact stands
  | cons item rest ih =>
      obtain ⟨middle, first, grown⟩ := stands.item inside (prints item List.mem_cons_self)
        (readable item List.mem_cons_self)
      obtain ⟨after, second, whole⟩ :=
        ih grown (fun other member => prints other (List.mem_cons_of_mem _ member))
          fun other member => readable other (List.mem_cons_of_mem _ member)
      refine ⟨after, ?_, ?_⟩
      · intro more
        rw [List.map_cons, List.flatMap_cons, List.append_assoc, first, second]
      · rw [Function.update_idem, Function.update_self] at whole
        exact whole

theorem Stands.stops (stands : Stands locked ⟨front, none⟩ values state) (inside : front ≠ [])
    (attributes : Attributes) :
    ∃ error, ∀ rest, parseEvents host state (valueEvents attributes ++ rest) =
      .error error state := by
  refine ⟨notAllowed "value".toList .property, ?_⟩
  have elem : state.curElem = .property := by
    rw [stands.reading.elem, if_neg inside]
  have closed : state.listProperty = none := stands.list.1
  have started : startElem host state "value".toList attributes =
      .error (notAllowed "value".toList .property) state := by
    rw [startElem, elem]
    simp only [closed]
    rfl
  intro rest
  change parseEvents host state (.startElement "value".toList _ :: _) = _
  rw [parseEvents, handleEvent, started]

end Items

section Reads

variable (host : Host) (locked : List CString → Bool)

/-- Reading events does to the user values what elements say, and leads from one place to
another unless it ends with an error. -/
def Reads (here there : Place) (events : List MarkupEvent) (list : List Opening) : Prop :=
  ∀ values state, Stands locked here values state →
    (∃ next after, readAll locked host list values = (next, true) ∧
      (∀ rest, parseEvents host state (events ++ rest) = parseEvents host after rest) ∧
      Stands locked there next after) ∨
    ∃ next error stopped, readAll locked host list values = (next, false) ∧
      (∀ rest, parseEvents host state (events ++ rest) = .error error stopped) ∧
      ∀ path, (stopped.properties.slot path).value = next path

variable {host locked}

theorem reads_nil (place : Place) : Reads host locked place place [] [] := by
  intro values state stands
  exact Or.inl ⟨values, state, rfl, fun _ => rfl, stands⟩

theorem Reads.append {here middle there : Place} {first second : List MarkupEvent}
    {list later : List Opening} (one : Reads host locked here middle first list)
    (two : Reads host locked middle there second later) :
    Reads host locked here there (first ++ second) (list ++ later) := by
  intro values state stands
  rcases one values state stands with
    ⟨next, after, done, parsed, stands'⟩ | ⟨next, error, stopped, ends, failed, held⟩
  · rcases two next after stands' with
      ⟨last, final, done', parsed', stands''⟩ | ⟨last, error, stopped, ends, failed, held⟩
    · refine Or.inl ⟨last, final, (readAll_append done).trans done', ?_, stands''⟩
      intro rest
      rw [List.append_assoc, parsed, parsed']
    · refine Or.inr ⟨last, error, stopped, (readAll_append done).trans ends, ?_, held⟩
      intro rest
      rw [List.append_assoc, parsed, failed]
  · refine Or.inr ⟨next, error, stopped, readAll_stops ends later, ?_, held⟩
    intro rest
    rw [List.append_assoc, failed]

theorem reads_children {front : List CString} {array : Option (List CString)}
    {children : List PropTree}
    (each : ∀ child ∈ children, ∀ array, Reads host locked ⟨front, array⟩ ⟨front, none⟩
      (documentElement host child).events (openings locked front array child)) :
    ∃ left, Reads host locked ⟨front, array⟩ ⟨front, left⟩
      (PropertyElement.eventsAll (documentElements host children))
      (openingsAll locked front array children) := by
  induction children generalizing array with
  | nil => exact ⟨array, reads_nil _⟩
  | cons child rest ih =>
      obtain ⟨left, later⟩ :=
        @ih none fun other member => each other (List.mem_cons_of_mem _ member)
      exact ⟨left, (each child List.mem_cons_self array).append later⟩

theorem reads_header {front : List CString} {name : CString}
    (writable : Writable (front ++ [name])) (clean : CleanText name) {value : GValue}
    (prints : Prints host value) (readable : rereads value = true) (array : Option (List CString)) :
    Reads host locked ⟨front, array⟩
      ⟨front ++ [name], openInside locked ⟨front ++ [name], value, array⟩⟩
      (.startElement "property".toList
          (readAttributes (nameAttribute name :: headAttributes host value)) ::
        ((writtenItems value).map (writtenItem host)).flatMap valueEvents)
      [⟨front ++ [name], value, array⟩] := by
  intro values state stands
  have items := writtenItems_reread readable
  cases lock : locked (front ++ [name]) with
  | true =>
      obtain ⟨entered, started, inside⟩ := stands.passed prints.own writable clean lock
      have first : ∀ rest, parseEvents host state (.startElement "property".toList
          (readAttributes (nameAttribute name :: headAttributes host value)) :: rest) =
            parseEvents host entered rest := by
        intro rest
        rw [parseEvents, handleEvent, started]
      have place : openInside locked ⟨front ++ [name], value, array⟩ = array := by
        rw [openInside, lock]
        rfl
      rw [place]
      by_cases none : writtenItems value = []
      · refine Or.inl ⟨values, entered, ?_, ?_, inside⟩
        · rw [readAll, Opening.read, if_pos lock, if_pos none]
          rfl
        · intro rest
          rw [none]
          exact first rest
      · cases array with
        | none =>
            obtain ⟨item, rest, shape⟩ := List.exists_cons_of_ne_nil none
            obtain ⟨error, failed⟩ := @Stands.stops host _ _ _ _ inside writable.full
              (writtenItem host item)
            refine Or.inr ⟨values, error, entered, ?_, ?_, inside.values⟩
            · rw [readAll, Opening.read, if_pos lock, if_neg none]
              rfl
            · intro more
              rw [List.cons_append, first, shape, List.map_cons, List.flatMap_cons,
                List.append_assoc, failed]
        | some open' =>
            obtain ⟨after, added, whole⟩ := inside.items writable.full prints.items items
            refine Or.inl ⟨_, after, ?_, ?_, whole⟩
            · rw [readAll, Opening.read, if_pos lock, if_neg none]
              rfl
            · intro rest
              rw [List.cons_append, first, added]
  | false =>
      obtain ⟨entered, started, inside⟩ := stands.opened prints.own writable clean readable lock
      have first : ∀ rest, parseEvents host state (.startElement "property".toList
          (readAttributes (nameAttribute name :: headAttributes host value)) :: rest) =
            parseEvents host entered rest := by
        intro rest
        rw [parseEvents, handleEvent, started]
      have place : openInside locked ⟨front ++ [name], value, array⟩ =
          if isArray value then some (front ++ [name]) else array := by
        rw [openInside, lock]
        rfl
      rw [place]
      have whole : readAll locked host [⟨front ++ [name], value, array⟩] values =
          (Function.update values (front ++ [name]) (reread host value), true) := by
        rw [readAll, Opening.read, if_neg (by simp [lock])]
        rfl
      cases list : isArray value with
      | true =>
          rw [list, if_pos rfl, openedValue, list, if_pos rfl] at inside
          obtain ⟨after, added, whole'⟩ := inside.items writable.full prints.items items
          rw [Function.update_idem, Function.update_self, appendAll_ptrArray,
            List.nil_append] at whole'
          refine Or.inl ⟨_, after, whole, ?_, ?_⟩
          · intro rest
            rw [List.cons_append, first, added]
          · rw [reread, list, if_pos rfl]
            exact whole'
      | false =>
          rw [list, if_neg Bool.false_ne_true, openedValue, list,
            if_neg Bool.false_ne_true] at inside
          refine Or.inl ⟨_, entered, whole, ?_, inside⟩
          intro rest
          rw [writtenItems_plain list]
          exact first rest

theorem reads_close {front : List CString} {name : CString} (plain : '/' ∉ name)
    (array : Option (List CString)) :
    Reads host locked ⟨front ++ [name], array⟩ ⟨front, none⟩
      [.endElement "property".toList] [] := by
  intro values state stands
  have elem : state.curElem = .property := by
    rw [stands.reading.elem, if_neg (by simp)]
  have closed := endElem_property elem stands.reading.path plain
  refine Or.inl ⟨values, endElem state, rfl, fun _ => rfl, ?_⟩
  rw [closed]
  constructor
  · exact ⟨stands.reading.user, stands.reading.unlocked, rfl, rfl⟩
  · exact stands.locks
  · exact stands.values
  · exact ⟨rfl, rfl⟩
  · intro path anchored
    cases anchored

/-- Reading the element of a node does what the elements below it say. -/
theorem reads_node {tree : PropTree} (tidy : Tidy tree)
    (prints : ∀ path, path ≠ [] → Prints host (tree.slot path).value)
    (readable : ∀ path, path ≠ [] → rereads (tree.slot path).value = true) (node : PropTree) :
    ∀ front array, descend tree (front ++ [node.key]) = some node →
      Reads host locked ⟨front, array⟩ ⟨front, none⟩ (documentElement host node).events
        (openings locked front array node) := by
  induction node using byChildren with
  | step name prop children ih =>
      intro front array here
      have names := tidy.names _ _ here
      obtain ⟨_, plain, clean⟩ := names name (by simp)
      have slot : tree.slot (front ++ [name]) = prop := lookup_of_descend here
      have known : rereads prop.value = true := by
        rw [← slot]
        exact readable _ (by simp)
      have printed : Prints host prop.value := by
        rw [← slot]
        exact prints _ (by simp)
      have writable : Writable (front ++ [name]) :=
        ⟨by simp, fun other member => ⟨(names other member).1, (names other member).2.1⟩,
          tidy.short _ _ here⟩
      have header : Reads host locked _ _ _ _ :=
        reads_header writable clean printed known array
      obtain ⟨left, below⟩ := reads_children fun child member array =>
        ih child member (front ++ [name]) array (tidy.child here member)
      have whole := header.append (below.append (reads_close plain left))
      rw [List.append_nil] at whole
      exact whole

end Reads

theorem locked_document_read {host : Host} {tree : PropTree} (tidy : Tidy tree)
    (prints : ∀ path, path ≠ [] → Prints host (tree.slot path).value)
    (readable : ∀ path, path ≠ [] → rereads (tree.slot path).value = true)
    {channelName : CString} (valid : esconfChannelIsValid channelName = none)
    {base : EsconfChannel} (unlocked : base.locked = false) (none : NoUserValues base)
    {locked : List CString → Bool}
    (locks : ∀ path, (base.properties.slot path).locked = locked path) :
    ∃ handled, parseEvents host (startState base false)
        (writtenDocument host channelName tree).events = handled ∧
      (∀ state, handled ≠ .fault state) ∧
      ((readAll locked host (openingsAll locked [] Option.none tree.children)
        fun _ => .invalid).2 = true → ∃ state, handled = .ok state) ∧
      ∀ path, (handled.state.properties.slot path).value = (readAll locked host
        (openingsAll locked [] Option.none tree.children) fun _ => .invalid).1 path := by
  obtain ⟨named, cleanName, _⟩ := acceptedName_plain valid
  have attributes : (writtenDocument host channelName tree).attributes =
      [("name".toList, channelName), ("version".toList, "1.0".toList)] := by
    have version : normalizeAttribute "1.0".toList = "1.0".toList :=
      normalizeAttribute_clean (by decide)
    change [("name".toList, normalizeAttribute channelName),
      ("version".toList, normalizeAttribute "1.0".toList)] = _
    rw [normalizeAttribute_clean cleanName, version]
  have start : Stands locked ⟨[], Option.none⟩ (fun _ => .invalid)
      { startState base false with curElem := .channel } := by
    constructor
    · exact ⟨rfl, unlocked, rfl, rfl⟩
    · exact locks
    · exact none
    · exact ⟨rfl, rfl⟩
    · intro path anchored
      cases anchored
  obtain ⟨left, body⟩ := reads_children fun child member array =>
    (reads_node tidy prints readable child [] array
      (tidy.child (descend_nil tree) member) : Reads host locked _ _ _ _)
  rw [ChannelDocument.events, attributes, parseEvents, handleEvent,
    startElem_channel host base named]
  refine ⟨_, rfl, ?_⟩
  rcases body _ _ start with
    ⟨next, after, done, parsed, stands⟩ | ⟨next, error, stopped, ends, failed, held⟩
  · have whole := parsed [.endElement "channel".toList]
    dsimp only [writtenDocument]
    rw [whole, done]
    refine ⟨?_, fun _ => ⟨_, rfl⟩, ?_⟩
    · intro state fault
      cases fault
    · intro path
      change ((endElem after).properties.slot path).value = _
      rw [endElem_properties]
      exact stands.values path
  · have whole := failed [.endElement "channel".toList]
    dsimp only [writtenDocument]
    rw [whole, ends]
    refine ⟨?_, ?_, held⟩
    · intro state fault
      cases fault
    · intro complete
      cases complete

end Esconf
