import Esconf.LoadLayers
import Esconf.WritableTrees

/-! The file a channel is written as, whatever types its values have: its tags, and
the document that is read from them. -/

namespace Esconf

open NamedTree

/-- What an XML parser makes of white space in an attribute value. -/
def normalizeAttribute : CString → CString
  | [] => []
  | '\r' :: '\n' :: rest => ' ' :: normalizeAttribute rest
  | c :: rest =>
    (if c = '\t' ∨ c = '\n' ∨ c = '\r' then ' ' else c) :: normalizeAttribute rest

def readAttributes (attributes : List TagAttribute) : Attributes :=
  attributes.map fun pair => (pair.name, normalizeAttribute pair.value)

/-- What a parser hands on for a tag, with the values of attributes normalized. -/
def Tag.delivered : Tag → List MarkupEvent
  | declaration => []
  | layout _ => []
  | start name attributes => [.startElement name (readAttributes attributes)]
  | finish name => [.endElement name]
  | empty name attributes => [.startElement name (readAttributes attributes), .endElement name]

def deliveredEvents (tags : List Tag) : List MarkupEvent := tags.flatMap Tag.delivered

def TagAttribute.Escaped (pair : TagAttribute) : Prop := pair.escaped = false → PlainText pair.value

def Tag.Escaped : Tag → Prop
  | declaration => True
  | layout text => ∀ c ∈ text, c = ' ' ∨ c = '\n'
  | start _ attributes => ∀ pair ∈ attributes, pair.Escaped
  | finish _ => True
  | empty _ attributes => ∀ pair ∈ attributes, pair.Escaped

/-- What is relied on of GMarkup for a document, white space in attribute values
included, which `g_markup_escape_text` does not protect. -/
def GMarkupNormalizes (host : Host) (tags : List Tag) : Prop :=
  nesting [] tags = some [] → (∀ tag ∈ tags, tag.Escaped) →
    host.markupParse (tagsText host tags) = (deliveredEvents tags, none)

theorem normalizeAttribute_clean {text : CString} (clean : CleanText text) :
    normalizeAttribute text = text := by
  induction text using normalizeAttribute.induct with
  | case1 => rfl
  | case2 rest ih => exact absurd rfl (clean '\r' List.mem_cons_self).2.2
  | case3 c rest apart ih =>
      obtain ⟨tab, newline, carriage⟩ := clean c List.mem_cons_self
      rw [normalizeAttribute.eq_3 c rest apart,
        ih fun other member => clean other (List.mem_cons_of_mem _ member), if_neg]
      rintro (same | same | same)
      · exact tab same
      · exact newline same
      · exact carriage same

theorem cleanText_normalized (text : CString) : CleanText (normalizeAttribute text) := by
  induction text using normalizeAttribute.induct with
  | case1 =>
      intro c member
      cases member
  | case2 rest ih =>
      rw [normalizeAttribute]
      intro c member
      rcases List.mem_cons.mp member with rfl | later
      · decide
      · exact ih c later
  | case3 c rest apart ih =>
      rw [normalizeAttribute.eq_3 c rest apart]
      intro other member
      rcases List.mem_cons.mp member with same | later
      · subst same
        split
        · decide
        · next clean =>
            obtain ⟨tab, others⟩ := not_or.mp clean
            obtain ⟨newline, carriage⟩ := not_or.mp others
            exact ⟨tab, newline, carriage⟩
      · exact ih other later

theorem normalizeAttribute_eq_iff {text : CString} :
    normalizeAttribute text = text ↔ CleanText text := by
  constructor
  · intro same
    rw [← same]
    exact cleanText_normalized text
  · exact normalizeAttribute_clean

theorem deliveredEvents_append (front back : List Tag) :
    deliveredEvents (front ++ back) = deliveredEvents front ++ deliveredEvents back :=
  List.flatMap_append

variable (host : Host)

/-- The type a value is written with and the attribute with its text, for the values
that `esconf_format_xml_tag` has a case for. -/
def spelling : GValue → Option (CString × TagAttribute)
  | .string (some text) => some ("string".toList, ⟨"value".toList, text, true⟩)
  | .string none => some ("string".toList, plainAttribute "value" "(null)".toList)
  | .uchar n => some ("uchar".toList, plainAttribute "value" (printNat n.toNat))
  | .char n =>
    some ("char".toList, plainAttribute "value" (printNat (GValue.getUchar (.char n)).toNat))
  | .uint n => some ("uint".toList, plainAttribute "value" (printNat n.toNat))
  | .int n => some ("int".toList, plainAttribute "value" (printInt n.toInt))
  | .uint64 n => some ("uint64".toList, plainAttribute "value" (printNat n.toNat))
  | .int64 n => some ("int64".toList, plainAttribute "value" (printInt n.toInt))
  | .float bits =>
    some ("float".toList, plainAttribute "value" (host.printDouble (host.doubleOfFloat bits)))
  | .double bits => some ("double".toList, plainAttribute "value" (host.printDouble bits))
  | .boolean b =>
    some ("bool".toList, plainAttribute "value" (if b then "true".toList else "false".toList))
  | _ => none

def isArray : GValue → Bool
  | .ptrArray _ | .strv _ => true
  | _ => false

def writtenItems : GValue → List GValue
  | .ptrArray elements => elements
  | .strv list => list.map fun text => .string (some text)
  | _ => []

def itemAttributes (value : GValue) : List TagAttribute :=
  match spelling host value with
  | some (type, text) => [plainAttribute "type" type, text]
  | none => []

def headAttributes (value : GValue) : List TagAttribute :=
  match spelling host value with
  | some (type, text) => [plainAttribute "type" type, text]
  | none => [plainAttribute "type" (if isArray value then "array".toList else "empty".toList)]

def itemTags (depth : Nat) (item : GValue) : List Tag :=
  [.layout (spacesAt depth ++ "  ".toList), .empty "value".toList (itemAttributes host item), newline]

mutual

def documentNode (depth : Nat) : PropTree → List Tag
  | .node name prop children =>
    if isArray prop.value || !children.isEmpty then
      .layout (spacesAt depth) ::
        .start "property".toList (nameAttribute name :: headAttributes host prop.value) :: newline ::
        ((writtenItems prop.value).flatMap (itemTags host depth) ++
          documentNodes (clampDepth depth + 1) children) ++ closingTags depth
    else
      [.layout (spacesAt depth),
        .empty "property".toList (nameAttribute name :: headAttributes host prop.value), newline]

def documentNodes (depth : Nat) : List PropTree → List Tag
  | [] => []
  | child :: rest => documentNode depth child ++ documentNodes depth rest

end

def documentTags (channelName : CString) (properties : PropTree) : List Tag :=
  .declaration :: .layout "\n\n".toList ::
    .start "channel".toList
      [plainAttribute "name" channelName, plainAttribute "version" "1.0".toList] :: newline ::
    documentNodes host 1 properties.children ++ [.finish "channel".toList, newline]

theorem formatXmlValue_spelling (value : GValue) :
    formatXmlValue host value = (spelling host value).map fun spelled =>
      [plainAttribute "type" spelled.1, spelled.2].flatMap (TagAttribute.text host) := by
  cases value with
  | string text =>
      cases text with
      | none => exact congrArg some (typeValue_plain host _ _)
      | some text => exact congrArg some (typeValue_escaped host _ text)
  | uchar | char | uint | int | uint64 | int64 | float | double | boolean =>
      exact congrArg some (typeValue_plain host _ _)
  | _ => rfl

theorem itemAttributes_text {value : GValue} {text : CString}
    (written : formatXmlValue host value = some text) :
    (itemAttributes host value).flatMap (TagAttribute.text host) = text := by
  rw [formatXmlValue_spelling] at written
  obtain ⟨spelled, here, same⟩ := Option.map_eq_some_iff.mp written
  rw [itemAttributes, here, ← same]

theorem itemTags_text (depth : Nat) {item : GValue} {text : CString}
    (written : formatXmlValue host item = some text) :
    tagsText host (itemTags host depth item) =
      spacesAt depth ++ ("  <value".toList ++ (text ++ "/>\n".toList)) := by
  have first : "  <value".toList = "  ".toList ++ ("<".toList ++ "value".toList) := rfl
  have last : "/>\n".toList = "/>".toList ++ "\n".toList := rfl
  rw [itemTags, tagsText_cons, tagsText_cons, tagsText_cons, tagsText_nil, layout_text,
    empty_text, newline_text, itemAttributes_text host written, first, last]
  simp only [List.append_assoc, List.append_nil]

theorem formatElements_items {depth : Nat} {elements : List GValue} {text : CString}
    (written : formatElements host (spacesAt depth) elements = .ok text) :
    text = tagsText host (elements.flatMap (itemTags host depth)) := by
  induction elements generalizing text with
  | nil =>
      cases written
      rfl
  | cons element rest ih =>
      rw [formatElements] at written
      cases first : formatXmlValue host element with
      | none =>
          rw [first] at written
          cases written
      | some front =>
          rw [first] at written
          cases second : formatElements host (spacesAt depth) rest with
          | error stop =>
              rw [second] at written
              cases written
          | ok back =>
              rw [second] at written
              cases written
              rw [ih second, List.flatMap_cons, tagsText_append, itemTags_text host depth first]
              simp only [List.append_assoc]

theorem strv_items (depth : Nat) (list : List CString) :
    (list.flatMap fun text => spacesAt depth ++ "  <value type=\"string\" value=\"".toList ++
      host.markupEscape text ++ "\"/>\n".toList) =
      tagsText host ((writtenItems (.strv list)).flatMap (itemTags host depth)) := by
  have opening : "  <value type=\"string\" value=\"".toList = "  <value".toList ++
      (" type=\"".toList ++ ("string".toList ++ "\" value=\"".toList)) := rfl
  have closing : "\"/>\n".toList = "\"".toList ++ "/>\n".toList := rfl
  have regrouped : ∀ spaces start type middle value last finish string : CString,
      spaces ++ (start ++ (type ++ (string ++ middle))) ++ value ++ (last ++ finish) =
        spaces ++ (start ++ ((type ++ string ++ middle ++ value ++ last) ++ finish)) := by
    intro spaces start type middle value last finish string
    simp only [List.append_assoc]
  have one : ∀ text, spacesAt depth ++ "  <value type=\"string\" value=\"".toList ++
      host.markupEscape text ++ "\"/>\n".toList =
        tagsText host (itemTags host depth (.string (some text))) := by
    intro text
    have written : formatXmlValue host (.string (some text)) =
        some (typeValue "string".toList (host.markupEscape text)) := rfl
    rw [itemTags_text host depth written, opening, closing]
    exact regrouped _ _ _ _ _ _ _ _
  rw [writtenItems, tagsText, List.flatMap_assoc, List.flatMap_map]
  apply List.flatMap_congr
  intro text _
  exact one text

theorem spelling_scalar {value : GValue} {spelled : CString × TagAttribute}
    (scalar : spelling host value = some spelled) :
    isArray value = false ∧ writtenItems value = [] := by
  cases value <;> first | exact ⟨rfl, rfl⟩ | cases scalar

theorem typeAttribute_text (type : String) :
    [plainAttribute "type" type.toList].flatMap (TagAttribute.text host) =
      " ".toList ++ ("type".toList ++ ("=\"".toList ++ (type.toList ++ "\"".toList))) := by
  rw [List.flatMap_cons, List.flatMap_nil, List.append_nil, plainAttribute_text]

theorem formatXmlTag_tags {depth : Nat} {value : GValue} {tag : CString × Bool}
    (written : formatXmlTag host (spacesAt depth) value = .ok tag) :
    tag.2 = isArray value ∧ tag.1 =
      (headAttributes host value).flatMap (TagAttribute.text host) ++
        ((if isArray value then ">\n".toList else []) ++
          tagsText host ((writtenItems value).flatMap (itemTags host depth))) := by
  have array : " type=\"array\">\n".toList =
      [plainAttribute "type" "array".toList].flatMap (TagAttribute.text host) ++ ">\n".toList := by
    rw [typeAttribute_text]
    rfl
  have empty : " type=\"empty\"".toList =
      [plainAttribute "type" "empty".toList].flatMap (TagAttribute.text host) := by
    rw [typeAttribute_text]
    rfl
  cases scalar : spelling host value with
  | some spelled =>
      obtain ⟨plain, none⟩ := spelling_scalar host scalar
      have formatted : formatXmlValue host value = some ([plainAttribute "type" spelled.1,
          spelled.2].flatMap (TagAttribute.text host)) := by
        rw [formatXmlValue_spelling, scalar]
        rfl
      have same := (formatXmlTag_plain host (spacesAt depth) formatted).symm.trans written
      cases same
      have head : headAttributes host value = [plainAttribute "type" spelled.1, spelled.2] := by
        rw [headAttributes, scalar]
      refine ⟨plain.symm, ?_⟩
      rw [head, plain, none, List.flatMap_nil, tagsText_nil, List.append_nil,
        if_neg Bool.false_ne_true, List.append_nil]
  | none =>
      have other : formatXmlValue host value = none := by
        rw [formatXmlValue_spelling, scalar]
        rfl
      unfold formatXmlTag at written
      rw [other] at written
      dsimp only at written
      rw [headAttributes, scalar]
      dsimp only
      split at written
      · next list =>
          have same := Except.ok.inj written
          subst same
          refine ⟨rfl, ?_⟩
          rw [strv_items, array, List.append_assoc]
          rfl
      · next elements =>
          cases items : formatElements host (spacesAt depth) elements with
          | error stop =>
              rw [items] at written
              cases written
          | ok text =>
              rw [items] at written
              have same := Except.ok.inj written
              subst same
              refine ⟨rfl, ?_⟩
              rw [formatElements_items host items, array]
              dsimp only
              rw [List.append_assoc]
              rfl
      · cases written
      · next strv elements null =>
          have same := Except.ok.inj written
          subst same
          have plain : isArray value = false ∧ writtenItems value = [] := by
            cases value with
            | strv list => exact absurd rfl (strv list)
            | ptrArray list => exact absurd rfl (elements list)
            | _ => exact ⟨rfl, rfl⟩
          refine ⟨plain.1.symm, ?_⟩
          rw [plain.1, plain.2, List.flatMap_nil, tagsText_nil, if_neg Bool.false_ne_true,
            if_neg Bool.false_ne_true, List.append_nil, List.append_nil, empty]

theorem writtenItems_plain {value : GValue} (plain : isArray value = false) :
    writtenItems value = [] := by
  cases value <;> first | rfl | cases plain

theorem writeNodes_document {depth : Nat} {nodes : List PropTree} {text : CString}
    (each : ∀ child ∈ nodes, ∀ depth text, writeNode host depth child = .ok text →
      text = tagsText host (documentNode host depth child))
    (written : writeNodes host depth nodes = .ok text) :
    text = tagsText host (documentNodes host depth nodes) := by
  induction nodes generalizing text with
  | nil =>
      cases written
      rfl
  | cons child rest ih =>
      rw [writeNodes] at written
      cases first : writeNode host depth child with
      | error stop =>
          rw [first] at written
          cases written
      | ok front =>
          cases second : writeNodes host depth rest with
          | error stop =>
              rw [first, Except.bind, second] at written
              cases written
          | ok back =>
              rw [first, Except.bind, second] at written
              cases written
              rw [each child List.mem_cons_self depth front first,
                ih (fun other member => each other (List.mem_cons_of_mem _ member)) second,
                documentNodes, tagsText_append]

theorem writeNode_document (node : PropTree) :
    ∀ depth text, writeNode host depth node = .ok text →
      text = tagsText host (documentNode host depth node) := by
  induction node using byChildren with
  | step name prop children ih =>
      intro depth text written
      rw [writeNode] at written
      split at written
      · cases formatted : formatXmlTag host (spacesAt depth) prop.value with
        | error stop =>
            rw [formatted] at written
            cases written
        | ok tag =>
            cases nodes : writeNodes host (clampDepth depth + 1) children with
            | error stop =>
                rw [formatted, Except.bind, nodes] at written
                cases written
            | ok below =>
                rw [formatted, Except.bind, nodes] at written
                cases written
                obtain ⟨array, front⟩ := formatXmlTag_tags host formatted
                rw [array, front, writeNodes_document host ih nodes, documentNode]
                rw [apply_ite (tagsText host), branchTags_text, leafTags_text, tagsText_append]
                cases array : isArray prop.value with
                | true =>
                    rw [Bool.true_or, if_pos rfl, if_pos rfl, if_pos rfl]
                    simp only [List.append_assoc, List.nil_append, if_true]
                | false =>
                    rw [writtenItems_plain array, List.flatMap_nil, tagsText_nil, Bool.false_or,
                      if_neg Bool.false_ne_true, if_neg Bool.false_ne_true]
                    cases children with
                    | nil =>
                        simp only [documentNodes, tagsText_nil, List.append_assoc,
                          List.append_nil, List.isEmpty_nil, Bool.not_true, Bool.false_eq_true,
                          if_true, if_false]
                    | cons child rest =>
                        simp only [List.append_assoc, List.nil_append, List.isEmpty_cons,
                          Bool.not_false, Bool.false_eq_true, if_true, if_false]
      · cases written

theorem flushText_document {channelName text : CString} {properties : PropTree}
    (written : flushText host channelName properties = .ok text) :
    text = tagsText host (documentTags host channelName properties) := by
  cases nodes : writeNodes host 1 properties.children with
  | error stop =>
      rw [flushText, nodes] at written
      cases written
  | ok body =>
      have inner := writeNodes_document host (fun child _ => writeNode_document host child) nodes
      rw [flushText_framed host nodes inner] at written
      exact (Except.ok.inj written).symm

theorem balanced_items (depth : Nat) (items : List GValue) :
    Balanced (items.flatMap (itemTags host depth)) := by
  induction items with
  | nil => exact fun _ => rfl
  | cons item rest ih => exact Balanced.append (fun _ => rfl) ih

theorem balanced_documentNodes {depth : Nat} {nodes : List PropTree}
    (each : ∀ child ∈ nodes, Balanced (documentNode host depth child)) :
    Balanced (documentNodes host depth nodes) := by
  induction nodes with
  | nil => exact fun _ => rfl
  | cons child rest ih =>
      rw [documentNodes]
      apply (each child List.mem_cons_self).append
      exact ih fun other member => each other (List.mem_cons_of_mem _ member)

theorem balanced_documentNode (node : PropTree) :
    ∀ depth, Balanced (documentNode host depth node) := by
  induction node using byChildren with
  | step name prop children ih =>
      intro depth
      rw [documentNode]
      split
      · apply balanced_property
        apply (balanced_items host depth _).append
        exact balanced_documentNodes host fun child member => ih child member _
      · exact fun _ => rfl

theorem nesting_document (channelName : CString) (properties : PropTree) :
    nesting [] (documentTags host channelName properties) = some [] := by
  have body : Balanced (documentNodes host 1 properties.children) :=
    balanced_documentNodes host fun child _ => balanced_documentNode host child 1
  change nesting ["channel".toList] (documentNodes host 1 properties.children ++ _) = some []
  rw [nesting_append _ (body _), nesting, if_pos rfl]
  rfl

/-- What is relied on of `printf ("%f")` and `g_ascii_strtod`: the text of a double is
plain, and read as some double. -/
structure PrintsDoubles (host : Host) : Prop where
  plain : ∀ bits, PlainText (host.printDouble bits)
  clean : ∀ bits, CleanText (host.printDouble bits)
  reads : ∀ bits, ∃ back,
    gvalueFromString host .double (some (host.printDouble bits)) = .parsed back

def isFloating : GValue → Bool
  | .float _ | .double _ => true
  | _ => false

structure Prints (host : Host) (value : GValue) : Prop where
  own : isFloating value = true → PrintsDoubles host
  items : ∀ item ∈ writtenItems value, isFloating item = true → PrintsDoubles host

variable {host}

theorem PrintsDoubles.prints (prints : PrintsDoubles host) (value : GValue) :
    Prints host value := ⟨fun _ => prints, fun _ _ _ => prints⟩

theorem PrintsDoubles.all (prints : PrintsDoubles host) (node : PropTree) :
    All (fun prop => Prints host prop.value) node := by
  induction node using byChildren with
  | step name prop children ih => exact .node (prints.prints _) ih

theorem escaped_plain (name : String) {value : CString} (plain : PlainText value) :
    (plainAttribute name value).Escaped := fun _ => plain

structure SpelledAs (value : GValue) (spelled : CString × TagAttribute) : Prop where
  type : PlainText spelled.1 ∧ CleanText spelled.1 ∧ spelled.1 ≠ []
  typed : gtypeFromString spelled.1 = value.gtype
  named : spelled.2.name = "value".toList
  escaped : spelled.2.Escaped

theorem writtenTypes : ∀ type ∈ ["string", "uchar", "char", "uint", "int", "uint64", "int64",
    "float", "double", "bool", "array", "empty"],
    PlainText type.toList ∧ CleanText type.toList ∧ type.toList ≠ [] := by
  decide

theorem spelling_spelledAs {value : GValue} (prints : isFloating value = true → PrintsDoubles host)
    {spelled : CString × TagAttribute} (scalar : spelling host value = some spelled) :
    SpelledAs value spelled := by
  cases value with
  | string text =>
      have typed : gtypeFromString "string".toList = .string := by decide
      cases text with
      | none =>
          cases scalar
          exact ⟨writtenTypes _ (by decide), typed, rfl, escaped_plain _ (by decide)⟩
      | some text =>
          cases scalar
          refine ⟨writtenTypes _ (by decide), typed, rfl, ?_⟩
          intro plain
          cases plain
  | uchar n =>
      have typed : gtypeFromString "uchar".toList = .uchar := by decide
      cases scalar
      exact ⟨writtenTypes _ (by decide), typed, rfl, escaped_plain _ (printNat_plain _).2⟩
  | char n =>
      have typed : gtypeFromString "char".toList = .char := by decide
      cases scalar
      exact ⟨writtenTypes _ (by decide), typed, rfl, escaped_plain _ (printNat_plain _).2⟩
  | uint n =>
      have typed : gtypeFromString "uint".toList = .uint := by decide
      cases scalar
      exact ⟨writtenTypes _ (by decide), typed, rfl, escaped_plain _ (printNat_plain _).2⟩
  | int n =>
      have typed : gtypeFromString "int".toList = .int := by decide
      cases scalar
      exact ⟨writtenTypes _ (by decide), typed, rfl, escaped_plain _ (printInt_plain _).2⟩
  | uint64 n =>
      have typed : gtypeFromString "uint64".toList = .uint64 := by decide
      cases scalar
      exact ⟨writtenTypes _ (by decide), typed, rfl, escaped_plain _ (printNat_plain _).2⟩
  | int64 n =>
      have typed : gtypeFromString "int64".toList = .int64 := by decide
      cases scalar
      exact ⟨writtenTypes _ (by decide), typed, rfl, escaped_plain _ (printInt_plain _).2⟩
  | float bits =>
      have typed : gtypeFromString "float".toList = .float := by decide
      cases scalar
      exact ⟨writtenTypes _ (by decide), typed, rfl, escaped_plain _ ((prints rfl).plain _)⟩
  | double bits =>
      have typed : gtypeFromString "double".toList = .double := by decide
      cases scalar
      exact ⟨writtenTypes _ (by decide), typed, rfl, escaped_plain _ ((prints rfl).plain _)⟩
  | boolean b =>
      have typed : gtypeFromString "bool".toList = .boolean := by decide
      cases scalar
      refine ⟨writtenTypes _ (by decide), typed, rfl, escaped_plain _ ?_⟩
      cases b <;> decide
  | _ => cases scalar

theorem itemAttributes_escaped {value : GValue}
    (prints : isFloating value = true → PrintsDoubles host) :
    ∀ pair ∈ itemAttributes host value, pair.Escaped := by
  intro pair member
  unfold itemAttributes at member
  cases scalar : spelling host value with
  | none =>
      rw [scalar] at member
      cases member
  | some spelled =>
      have as := spelling_spelledAs prints scalar
      rw [scalar] at member
      rcases List.mem_cons.mp member with rfl | last
      · exact escaped_plain _ as.type.1
      · rw [List.mem_singleton.mp last]
        exact as.escaped

theorem headAttributes_escaped {value : GValue}
    (prints : isFloating value = true → PrintsDoubles host) :
    ∀ pair ∈ headAttributes host value, pair.Escaped := by
  have items := itemAttributes_escaped prints
  unfold itemAttributes at items
  unfold headAttributes
  cases scalar : spelling host value with
  | none =>
      intro pair member
      rw [List.mem_singleton.mp member]
      apply escaped_plain
      cases isArray value <;> decide
  | some spelled =>
      rw [scalar] at items
      exact items

theorem escaped_newline : newline.Escaped :=
  fun _ member => Or.inr (List.mem_singleton.mp member)

theorem escaped_spaces (depth : Nat) : (Tag.layout (spacesAt depth)).Escaped :=
  fun _ member => Or.inl (List.eq_of_mem_replicate member)

theorem itemTags_escaped (depth : Nat) {item : GValue}
    (prints : isFloating item = true → PrintsDoubles host) :
    ∀ tag ∈ itemTags host depth item, tag.Escaped := by
  have indent : (Tag.layout (spacesAt depth ++ "  ".toList)).Escaped := by
    intro c member
    rcases List.mem_append.mp member with front | back
    · exact escaped_spaces depth c front
    · exact Or.inl (List.eq_of_mem_replicate (n := 2) back)
  exact List.forall_mem_cons.mpr ⟨indent, List.forall_mem_cons.mpr
    ⟨itemAttributes_escaped prints, List.forall_mem_singleton.mpr escaped_newline⟩⟩

theorem documentNodes_escaped {depth : Nat} {nodes : List PropTree}
    (each : ∀ child ∈ nodes, ∀ tag ∈ documentNode host depth child, tag.Escaped) :
    ∀ tag ∈ documentNodes host depth nodes, tag.Escaped := by
  induction nodes with
  | nil =>
      intro tag member
      cases member
  | cons child rest ih =>
      rw [documentNodes]
      intro tag member
      rcases List.mem_append.mp member with first | second
      · exact each child List.mem_cons_self tag first
      · exact ih (fun other inside => each other (List.mem_cons_of_mem _ inside)) tag second

theorem documentNode_escaped (node : PropTree)
    (prints : All (fun prop => Prints host prop.value) node) :
    ∀ depth, ∀ tag ∈ documentNode host depth node, tag.Escaped := by
  induction node using byChildren with
  | step name prop children ih =>
      intro depth
      cases prints with
      | node here later =>
          have attributes : ∀ pair ∈ nameAttribute name :: headAttributes host prop.value,
              pair.Escaped := by
            have named : (nameAttribute name).Escaped := by
              intro plain
              cases plain
            exact List.forall_mem_cons.mpr ⟨named, headAttributes_escaped here.own⟩
          have items : ∀ tag ∈ (writtenItems prop.value).flatMap (itemTags host depth),
              tag.Escaped := by
            intro tag member
            obtain ⟨item, written, inside⟩ := List.mem_flatMap.mp member
            exact itemTags_escaped depth (here.items item written) tag inside
          have below : ∀ tag ∈ documentNodes host (clampDepth depth + 1) children, tag.Escaped :=
            documentNodes_escaped fun child member => ih child member (later child member) _
          have closing : ∀ tag ∈ closingTags depth, tag.Escaped :=
            List.forall_mem_cons.mpr ⟨escaped_spaces depth,
              List.forall_mem_cons.mpr ⟨trivial, List.forall_mem_singleton.mpr escaped_newline⟩⟩
          rw [documentNode]
          split
          · intro tag member
            rcases List.mem_append.mp member with front | last
            · rcases List.mem_cons.mp front with rfl | front
              · exact escaped_spaces depth
              rcases List.mem_cons.mp front with rfl | front
              · exact attributes
              rcases List.mem_cons.mp front with rfl | front
              · exact escaped_newline
              rcases List.mem_append.mp front with item | child
              · exact items tag item
              · exact below tag child
            · exact closing tag last
          · exact List.forall_mem_cons.mpr ⟨escaped_spaces depth,
              List.forall_mem_cons.mpr ⟨attributes, List.forall_mem_singleton.mpr escaped_newline⟩⟩

end Esconf
