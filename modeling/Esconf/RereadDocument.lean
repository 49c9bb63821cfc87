import Esconf.IntegerParsing
import Esconf.WrittenDocument

/-! The document that is read from a written channel, and the values it gives. -/

namespace Esconf

open NamedTree

variable (host : Host)

/-- What reading gives for a scalar that was written. -/
def rereadScalar (value : GValue) : GValue :=
  match spelling host value with
  | some (type, text) =>
    match gvalueFromString host (gtypeFromString type)
        (some (normalizeAttribute text.value)) with
    | .parsed read => read
    | _ => .invalid
  | none => .invalid

def reread (value : GValue) : GValue :=
  if isArray value then .ptrArray ((writtenItems value).map (rereadScalar host))
  else rereadScalar host value

def scalarRereads : GValue → Bool
  | .string _ | .uchar _ | .char _ | .uint _ | .int _ | .uint64 _ | .int64 _ | .double _
  | .boolean _ => true
  | _ => false

def rereads : GValue → Bool
  | .ptrArray elements => elements.all scalarRereads
  | .ptrArrayNull | .float _ => false
  | _ => true

/-- The scalar types with an exact text, a string being one without tabs and
line ends. -/
inductive ScalarValue : GValue → Prop where
  | string (text : CString) (clean : CleanText text) : ScalarValue (.string (some text))
  | uchar (n : UInt8) : ScalarValue (.uchar n)
  | uint (n : UInt32) : ScalarValue (.uint n)
  | int (n : Int32) : ScalarValue (.int n)
  | uint64 (n : UInt64) : ScalarValue (.uint64 n)
  | int64 (n : Int64) : ScalarValue (.int64 n)
  | boolean (b : Bool) : ScalarValue (.boolean b)

theorem ScalarValue.spelling_eq {value : GValue} (scalar : ScalarValue value) :
    ∃ type text, spelling host value = some (type, text) ∧ CleanText text.value ∧
      gvalueFromString host (gtypeFromString type) (some text.value) = .parsed value := by
  cases scalar with
  | string text clean =>
      have typed : gtypeFromString "string".toList = .string := by decide
      refine ⟨_, _, rfl, clean, ?_⟩
      rw [typed]
      rfl
  | boolean b =>
      have typed : gtypeFromString "bool".toList = .boolean := by decide
      refine ⟨_, _, rfl, ?_, ?_⟩
      · cases b <;> decide
      · rw [typed]
        cases b <;> rfl
  | uchar n =>
      have typed : gtypeFromString "uchar".toList = .uchar := by decide
      have read := @GValue.number_reads host (.uchar n) _ rfl
      refine ⟨_, _, rfl, (printNat_plain _).1, ?_⟩
      rw [typed]
      exact read
  | uint n =>
      have typed : gtypeFromString "uint".toList = .uint := by decide
      have read := @GValue.number_reads host (.uint n) _ rfl
      refine ⟨_, _, rfl, (printNat_plain _).1, ?_⟩
      rw [typed]
      exact read
  | int n =>
      have typed : gtypeFromString "int".toList = .int := by decide
      have read := @GValue.number_reads host (.int n) _ rfl
      refine ⟨_, _, rfl, (printInt_plain _).1, ?_⟩
      rw [typed]
      exact read
  | uint64 n =>
      have typed : gtypeFromString "uint64".toList = .uint64 := by decide
      have read := @GValue.number_reads host (.uint64 n) _ rfl
      refine ⟨_, _, rfl, (printNat_plain _).1, ?_⟩
      rw [typed]
      exact read
  | int64 n =>
      have typed : gtypeFromString "int64".toList = .int64 := by decide
      have read := @GValue.number_reads host (.int64 n) _ rfl
      refine ⟨_, _, rfl, (printInt_plain _).1, ?_⟩
      rw [typed]
      exact read

variable {host}

theorem rereadScalar_scalar {value : GValue} (scalar : ScalarValue value) :
    rereadScalar host value = value := by
  obtain ⟨type, text, spelled, clean, parsed⟩ := scalar.spelling_eq host
  rw [rereadScalar, spelled]
  dsimp only
  rw [normalizeAttribute_clean clean, parsed]

theorem rereadScalar_string (text : CString) :
    rereadScalar host (.string (some text)) = .string (some (normalizeAttribute text)) := by
  have typed : gtypeFromString "string".toList = .string := by decide
  rw [rereadScalar, spelling]
  dsimp only
  rw [typed]
  rfl

theorem spelling_char_parsed (host : Host) (n : Int8) :
    gvalueFromString host (gtypeFromString "char".toList) (some (normalizeAttribute
      (plainAttribute "value" (printNat (GValue.getUchar (.char n)).toNat)).value)) =
      .parsed (.char 0) := by
  have typed : gtypeFromString "char".toList = .char := by decide
  have clean : CleanText (printNat 0) := (printNat_plain 0).1
  have read := @GValue.number_reads host (.char 0) _ rfl
  have nothing : (GValue.getUchar (.char n)).toNat = 0 := rfl
  rw [typed, nothing, plainAttribute, normalizeAttribute_clean clean]
  exact read

theorem rereadScalar_char (n : Int8) : rereadScalar host (.char n) = .char 0 := by
  rw [rereadScalar, spelling]
  dsimp only
  rw [spelling_char_parsed host n]

theorem scalarRereads_cases {value : GValue} (readable : scalarRereads value = true) :
    ScalarValue value ∨ (∃ text, value = .string text) ∨ (∃ n, value = .char n) ∨
      ∃ bits, value = .double bits := by
  cases value with
  | string text => exact Or.inr (Or.inl ⟨text, rfl⟩)
  | char n => exact Or.inr (Or.inr (Or.inl ⟨n, rfl⟩))
  | double bits => exact Or.inr (Or.inr (Or.inr ⟨bits, rfl⟩))
  | uchar n => exact Or.inl (.uchar n)
  | uint n => exact Or.inl (.uint n)
  | int n => exact Or.inl (.int n)
  | uint64 n => exact Or.inl (.uint64 n)
  | int64 n => exact Or.inl (.int64 n)
  | boolean b => exact Or.inl (.boolean b)
  | _ => cases readable

theorem scalarRereads_parsed {value : GValue}
    (prints : isFloating value = true → PrintsDoubles host) (readable : scalarRereads value = true) :
    ∃ type text, spelling host value = some (type, text) ∧
      gvalueFromString host (gtypeFromString type) (some (normalizeAttribute text.value)) =
        .parsed (rereadScalar host value) := by
  have found : ∃ type text read, spelling host value = some (type, text) ∧
      gvalueFromString host (gtypeFromString type) (some (normalizeAttribute text.value)) =
        .parsed read := by
    rcases scalarRereads_cases readable with
      scalar | ⟨text, rfl⟩ | ⟨n, rfl⟩ | ⟨bits, rfl⟩
    · obtain ⟨type, text, spelled, clean, parsed⟩ := scalar.spelling_eq host
      rw [← normalizeAttribute_clean clean] at parsed
      exact ⟨type, text, value, spelled, parsed⟩
    · have typed : gtypeFromString "string".toList = .string := by decide
      cases text with
      | none =>
          refine ⟨_, _, .string (some (normalizeAttribute "(null)".toList)), rfl, ?_⟩
          rw [typed]
          rfl
      | some text =>
          refine ⟨_, _, .string (some (normalizeAttribute text)), rfl, ?_⟩
          rw [typed]
          rfl
    · exact ⟨_, _, .char 0, rfl, spelling_char_parsed host n⟩
    · have typed : gtypeFromString "double".toList = .double := by decide
      obtain ⟨back, reads⟩ := (prints rfl).reads bits
      refine ⟨_, _, back, rfl, ?_⟩
      rw [typed]
      change gvalueFromString host .double
        (some (normalizeAttribute (host.printDouble bits))) = _
      rw [normalizeAttribute_clean ((prints rfl).clean bits), reads]
  obtain ⟨type, text, read, spelled, parsed⟩ := found
  refine ⟨type, text, spelled, ?_⟩
  rw [rereadScalar, spelled]
  dsimp only
  rw [parsed]

variable (host)

def writtenItem (item : GValue) : Attributes := readAttributes (itemAttributes host item)

mutual

def documentElement : PropTree → PropertyElement
  | .node name prop children =>
    .property (readAttributes (nameAttribute name :: headAttributes host prop.value))
      ((writtenItems prop.value).map (writtenItem host)) (documentElements children)

def documentElements : List PropTree → List PropertyElement
  | [] => []
  | child :: rest => documentElement child :: documentElements rest

end

def writtenDocument (channelName : CString) (properties : PropTree) : ChannelDocument where
  attributes :=
    readAttributes [plainAttribute "name" channelName, plainAttribute "version" "1.0".toList]
  properties := documentElements host properties.children

theorem documentElements_map (nodes : List PropTree) :
    documentElements host nodes = nodes.map (documentElement host) := by
  induction nodes with
  | nil => rfl
  | cons child rest ih => rw [documentElements, ih, List.map_cons]

theorem itemTags_delivered (depth : Nat) (items : List GValue) :
    deliveredEvents (items.flatMap (itemTags host depth)) =
      (items.map (writtenItem host)).flatMap valueEvents := by
  rw [deliveredEvents, List.flatMap_assoc, List.flatMap_map]
  rfl

theorem documentNodes_delivered {depth : Nat} {nodes : List PropTree}
    (each : ∀ child ∈ nodes, ∀ depth,
      deliveredEvents (documentNode host depth child) = (documentElement host child).events) :
    deliveredEvents (documentNodes host depth nodes) =
      PropertyElement.eventsAll (documentElements host nodes) := by
  induction nodes with
  | nil => rfl
  | cons child rest ih =>
      rw [documentNodes, deliveredEvents_append, each child List.mem_cons_self,
        ih fun other member => each other (List.mem_cons_of_mem _ member), documentElements,
        PropertyElement.eventsAll]

theorem documentNode_delivered (node : PropTree) :
    ∀ depth, deliveredEvents (documentNode host depth node) =
      (documentElement host node).events := by
  induction node using byChildren with
  | step name prop children ih =>
      intro depth
      rw [documentNode, documentElement, PropertyElement.events]
      split
      · rw [deliveredEvents_append]
        change .startElement _ _ :: (deliveredEvents
          ((writtenItems prop.value).flatMap (itemTags host depth) ++
            documentNodes host (clampDepth depth + 1) children) ++ _) = _
        rw [deliveredEvents_append, itemTags_delivered, documentNodes_delivered host ih,
          List.append_assoc]
        rfl
      · next single =>
          rw [Bool.or_eq_true, not_or] at single
          rw [writtenItems_plain (Bool.eq_false_iff.mpr single.1)]
          cases children with
          | nil => rfl
          | cons child rest => exact absurd rfl single.2

theorem documentTags_delivered (channelName : CString) (properties : PropTree) :
    deliveredEvents (documentTags host channelName properties) =
      (writtenDocument host channelName properties).events := by
  rw [documentTags, ChannelDocument.events, writtenDocument, deliveredEvents_append]
  change .startElement _ _ :: (deliveredEvents (documentNodes host 1 properties.children) ++ _) = _
  rw [documentNodes_delivered host fun child _ => documentNode_delivered host child]
  rfl

theorem written_delivered {host : Host} {channelName text : CString} {properties : PropTree}
    (plain : PlainText channelName)
    (prints : ∀ child ∈ properties.children, All (fun prop => Prints host prop.value) child)
    (markup : GMarkupNormalizes host (documentTags host channelName properties))
    (written : flushText host channelName properties = .ok text) :
    host.markupParse text = ((writtenDocument host channelName properties).events, none) := by
  rw [flushText_document host written, ← documentTags_delivered]
  apply markup (nesting_document host channelName properties)
  have body : ∀ tag ∈ documentNodes host 1 properties.children, tag.Escaped :=
    documentNodes_escaped fun child member => documentNode_escaped child (prints child member) 1
  have breaks : (Tag.layout "\n\n".toList).Escaped := by
    intro c member
    exact Or.inr (List.eq_of_mem_replicate (n := 2) member)
  have opening : ∀ pair ∈ [plainAttribute "name" channelName,
      plainAttribute "version" "1.0".toList], pair.Escaped := by
    intro pair member
    rcases List.mem_cons.mp member with rfl | second
    · exact escaped_plain _ plain
    · rw [List.mem_singleton.mp second]
      exact escaped_plain _ (by decide)
  intro tag member
  rw [documentTags] at member
  rcases List.mem_append.mp member with front | last
  · rcases List.mem_cons.mp front with rfl | front
    · trivial
    rcases List.mem_cons.mp front with rfl | front
    · exact breaks
    rcases List.mem_cons.mp front with rfl | front
    · exact opening
    rcases List.mem_cons.mp front with rfl | front
    · exact escaped_newline
    · exact body tag front
  · rcases List.mem_cons.mp last with rfl | last
    · trivial
    · rw [List.mem_singleton.mp last]
      exact escaped_newline

theorem startElem_channel (base : EsconfChannel) {channelName : CString}
    (named : channelName ≠ []) :
    startElem host (startState base false) "channel".toList
        [("name".toList, channelName), ("version".toList, "1.0".toList)] =
      .ok { startState base false with curElem := .channel } := by
  have known : unknownAttribute [("name".toList, channelName), ("version".toList, "1.0".toList)]
      channelAttributes = none := rfl
  have first : attributeValue [("name".toList, channelName), ("version".toList, "1.0".toList)]
      "name".toList = some channelName := rfl
  have second : attributeValue [("name".toList, channelName), ("version".toList, "1.0".toList)]
      "version".toList = some "1.0".toList := rfl
  have fine : channelError [("name".toList, channelName), ("version".toList, "1.0".toList)] =
      none := by
    unfold channelError
    rw [known, first, second, filled_some named]
    rfl
  have unmentioned : lockedState host
      [("name".toList, channelName), ("version".toList, "1.0".toList)] = none := rfl
  have handled : xmlHandleChannel host (startState base false)
      [("name".toList, channelName), ("version".toList, "1.0".toList)] =
        .ok { startState base false with curElem := .channel } := by
    unfold xmlHandleChannel
    rw [fine, unmentioned]
  rw [← handled]
  rfl

theorem acceptedName_plain {channelName : CString}
    (accepted : esconfChannelIsValid channelName = none) :
    channelName ≠ [] ∧ CleanText channelName ∧ PlainText channelName := by
  unfold esconfChannelIsValid at accepted
  split at accepted
  · cases accepted
  · next named =>
      split at accepted
      · next allowed =>
          have char : ∀ c ∈ channelName, isNameChar c = true := List.all_eq_true.mp allowed
          refine ⟨named, ?_, ?_⟩
          all_goals
            intro c member
            have fine := char c member
            refine ⟨?_, ?_, ?_⟩ <;> rintro rfl <;> revert fine <;> decide
      · cases accepted

section Elements

variable {host}

theorem headAttributes_read {value : GValue} (prints : isFloating value = true → PrintsDoubles host)
    {name : CString} (clean : CleanText name) :
    ∃ type text, type ≠ [] ∧
      readAttributes (nameAttribute name :: headAttributes host value) =
        writtenAttributes name type text ∧
      ((∃ spelled, spelling host value = some spelled ∧ type = spelled.1 ∧
          text = some (normalizeAttribute spelled.2.value)) ∨
        spelling host value = none ∧ text = none ∧
          type = if isArray value then "array".toList else "empty".toList) := by
  have same := normalizeAttribute_clean clean
  unfold headAttributes
  cases scalar : spelling host value with
  | some spelled =>
      have as := spelling_spelledAs prints scalar
      refine ⟨spelled.1, _, as.type.2.2, ?_, Or.inl ⟨spelled, rfl, rfl, rfl⟩⟩
      have type := normalizeAttribute_clean as.type.2.1
      change [("name".toList, normalizeAttribute name),
        ("type".toList, normalizeAttribute spelled.1),
        (spelled.2.name, normalizeAttribute spelled.2.value)] = _
      rw [same, type, as.named]
      rfl
  | none =>
      have empty : normalizeAttribute "empty".toList = "empty".toList :=
        normalizeAttribute_clean (by decide)
      have array : normalizeAttribute "array".toList = "array".toList :=
        normalizeAttribute_clean (by decide)
      refine ⟨_, none, ?_, ?_, Or.inr ⟨rfl, rfl, rfl⟩⟩
      · cases isArray value <;> decide
      · change [("name".toList, normalizeAttribute name), ("type".toList, normalizeAttribute
          (if isArray value then "array".toList else "empty".toList))] = _
        rw [same]
        cases isArray value with
        | true =>
            rw [if_pos rfl, array]
            rfl
        | false =>
            rw [if_neg Bool.false_ne_true, empty]
            rfl

theorem elementName_written (name type : CString) (text : Option CString) :
    elementName (writtenAttributes name type text) = name := by
  cases text <;> rfl

theorem elementType_written (name type : CString) (text : Option CString) :
    elementType (writtenAttributes name type text) = type := by
  cases text <;> rfl

theorem attributeValue_written (name type : CString) (text : Option CString) :
    attributeValue (writtenAttributes name type text) "value".toList = text := by
  cases text <;> rfl

theorem known_written (name type : CString) (text : Option CString) :
    unknownAttribute (writtenAttributes name type text) propertyAttributes = none := by
  cases text <;> rfl

theorem free_written (name type : CString) (text : Option CString) :
    lockedState host (writtenAttributes name type text) = none := by
  cases text <;> rfl

theorem scalarRereads_of_spelling {value : GValue} {spelled : CString × TagAttribute}
    (scalar : spelling host value = some spelled) (readable : rereads value = true) :
    scalarRereads value = true := by
  cases value <;> first | rfl | (cases scalar; done) | cases readable

theorem scalarRereads_gtype {value : GValue} (readable : scalarRereads value = true) :
    value.gtype ≠ .invalid ∧ value.gtype ≠ .none ∧ value.gtype ≠ .ptrArray := by
  cases value <;> first | (cases readable; done) | exact ⟨nofun, nofun, nofun⟩

theorem startValue_parsed {attributes : Attributes} {read : GValue}
    (set : gtypeFromString (elementType attributes) ≠ .invalid)
    (full : gtypeFromString (elementType attributes) ≠ .none)
    (parsed : gvalueFromString host (gtypeFromString (elementType attributes))
      (attributeValue attributes "value".toList) = .parsed read) :
    startValue host attributes = some read := by
  unfold startValue
  split
  · next wrong => exact absurd wrong set
  · next wrong => exact absurd wrong full
  · rw [parsed]

theorem startValue_head {value : GValue} (prints : isFloating value = true → PrintsDoubles host)
    {name : CString} (clean : CleanText name) (readable : rereads value = true) :
    startValue host (readAttributes (nameAttribute name :: headAttributes host value)) =
      some (if isArray value then .ptrArray [] else reread host value) := by
  obtain ⟨type, text, _, attributes, shape⟩ := headAttributes_read prints clean
  rw [attributes]
  rcases shape with ⟨spelled, scalar, rfl, rfl⟩ | ⟨other, rfl, rfl⟩
  · have known := scalarRereads_of_spelling scalar readable
    obtain ⟨type, text, same, parsed⟩ := scalarRereads_parsed prints known
    rw [scalar] at same
    cases same
    have plain := (spelling_scalar host scalar).1
    have typed := (spelling_spelledAs prints scalar).typed
    obtain ⟨set, full, _⟩ := scalarRereads_gtype known
    rw [plain, if_neg Bool.false_ne_true, reread, plain, if_neg Bool.false_ne_true]
    apply startValue_parsed
    · rw [elementType_written, typed]
      exact set
    · rw [elementType_written, typed]
      exact full
    · rw [elementType_written, attributeValue_written]
      exact parsed
  · cases array : isArray value with
    | true => rfl
    | false =>
        rw [reread, array, if_neg Bool.false_ne_true, if_neg Bool.false_ne_true, rereadScalar, other]
        rfl

theorem itemValue_written {item : GValue} (prints : isFloating item = true → PrintsDoubles host)
    (readable : scalarRereads item = true) :
    itemValue host (writtenItem host item) = some (rereadScalar host item) := by
  obtain ⟨type, text, scalar, parsed⟩ := scalarRereads_parsed prints readable
  have as := spelling_spelledAs prints scalar
  obtain ⟨set, full, single⟩ := scalarRereads_gtype readable
  have clean := normalizeAttribute_clean as.type.2.1
  have attributes : writtenItem host item =
      [("type".toList, type), ("value".toList, normalizeAttribute text.value)] := by
    rw [writtenItem, itemAttributes, scalar]
    change [("type".toList, normalizeAttribute type),
      (text.name, normalizeAttribute text.value)] = _
    have type' : normalizeAttribute type = type := clean
    have named : text.name = "value".toList := as.named
    rw [type', named]
  have known : unknownAttribute
      [("type".toList, type), ("value".toList, normalizeAttribute text.value)] valueAttributes =
      none := rfl
  have first : attributeValue
      [("type".toList, type), ("value".toList, normalizeAttribute text.value)] "type".toList =
      some type := rfl
  have second : attributeValue
      [("type".toList, type), ("value".toList, normalizeAttribute text.value)] "value".toList =
      some (normalizeAttribute text.value) := rfl
  unfold itemValue
  rw [attributes, known, first]
  have typed : gtypeFromString type = item.gtype := as.typed
  dsimp only
  rw [typed, second]
  rw [typed] at parsed
  split
  · next wrong => exact absurd wrong single
  · next wrong => exact absurd wrong set
  · next wrong => exact absurd wrong full
  · rw [parsed]

variable (host)

def nodeMention (path : List CString) (node : PropTree) : Mention where
  path := path
  attributes := readAttributes (nameAttribute node.key :: headAttributes host node.data.value)
  values := (writtenItems node.data.value).map (writtenItem host)

variable {host}

theorem writtenItems_reread {value : GValue} (readable : rereads value = true) :
    ∀ item ∈ writtenItems value, scalarRereads item = true := by
  cases value with
  | ptrArray elements => exact List.all_eq_true.mp readable
  | strv list =>
      intro item member
      obtain ⟨text, _, rfl⟩ := List.mem_map.mp member
      rfl
  | _ =>
      intro item member
      cases member

theorem nodeMention_gives (prints : PrintsDoubles host) (path : List CString) {node : PropTree}
    (clean : CleanText node.key) (readable : rereads node.data.value = true) :
    (nodeMention host path node).gives host = reread host node.data.value := by
  rw [Mention.gives, nodeMention]
  dsimp only
  rw [startValue_head (fun _ => prints) clean readable, Option.getD_some]
  cases array : isArray node.data.value with
  | false =>
      rw [writtenItems_plain array]
      rfl
  | true =>
      rw [if_pos rfl, foldl_ptrArrayAdd, List.nil_append, List.map_map, reread, array, if_pos rfl]
      congr 1
      apply List.map_congr_left
      intro item member
      have item_readable := writtenItems_reread readable item member
      rw [Function.comp, itemValue_written (fun _ => prints) item_readable, Option.getD_some]

theorem nodeMention_accepted (prints : PrintsDoubles host) (path : List CString) {node : PropTree}
    (named : node.key ≠ []) (clean : CleanText node.key)
    (readable : rereads node.data.value = true) :
    (nodeMention host path node).Accepted host := by
  obtain ⟨type, text, full, attributes, _⟩ :=
    @headAttributes_read _ node.data.value (fun _ => prints) _ clean
  have start := startValue_head (fun _ => prints) clean readable
  constructor
  · constructor
    · rw [nodeMention, attributes]
      exact known_written _ _ _
    · rw [nodeMention, attributes, elementName_written]
      exact named
    · rw [nodeMention, attributes, elementType_written]
      exact full
    · rw [nodeMention, start]
      rfl
  · intro item member
    obtain ⟨value, inside, rfl⟩ := List.mem_map.mp member
    rw [itemValue_written (fun _ => prints) (writtenItems_reread readable value inside)]
    rfl

theorem nodeMention_regular (prints : PrintsDoubles host) {path : List CString} {node : PropTree}
    (clean : CleanText node.key) (plain : '/' ∉ node.key)
    (short : (partsName path).length < maxPropPath) :
    (nodeMention host path node).Regular host := by
  obtain ⟨type, text, full, attributes, shape⟩ :=
    @headAttributes_read _ node.data.value (fun _ => prints) _ clean
  constructor
  · rw [nodeMention, attributes]
    exact free_written _ _ _
  · rw [nodeMention, attributes, elementName_written]
    exact plain
  · exact short
  · intro some'
    have array : isArray node.data.value = true := by
      by_contra none
      rw [nodeMention, writtenItems_plain (Bool.eq_false_iff.mpr none)] at some'
      exact some' rfl
    rw [nodeMention, attributes, elementType_written]
    rcases shape with ⟨spelled, scalar, _, _⟩ | ⟨_, _, rfl⟩
    · rw [(spelling_scalar host scalar).1] at array
      cases array
    · rw [array]
      decide

end Elements

end Esconf
