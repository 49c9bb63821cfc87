import Esconf.FileContents
import Esconf.RereadDocument

/-! The documented format of a user file, and the values it can give: which of them
a flush of the channel writes so that they are read again as they were. -/

namespace Esconf

variable (host : Host)

def scalarTypes : List CString :=
  ["string".toList, "uchar".toList, "char".toList, "uint16".toList, "int16".toList, "uint".toList,
    "int".toList, "uint64".toList, "int64".toList, "bool".toList]

structure DocumentedValue (attributes : Attributes) : Prop where
  type : elementType attributes ∈ scalarTypes
  text : ∃ text value, attributeValue attributes "value".toList = some text ∧
    gvalueFromString host (gtypeFromString (elementType attributes)) (some text) = .parsed value

structure DocumentedItem (attributes : Attributes) : Prop extends
    DocumentedValue host attributes where
  known : unknownAttribute attributes valueAttributes = none

/-- A property element as the format describes it for a file of the user, with a name
that keeps to itself. -/
structure Documented (mention : Mention) : Prop where
  known : unknownAttribute mention.attributes propertyAttributes = none
  free : lockedState host mention.attributes = none
  named : elementName mention.attributes ≠ []
  plain : '/' ∉ elementName mention.attributes
  clean : CleanText (elementName mention.attributes)
  value : (DocumentedValue host mention.attributes ∧ mention.values = []) ∨
    (elementType mention.attributes = "array".toList ∧
      ∀ item ∈ mention.values, DocumentedItem host item) ∨
    (elementType mention.attributes = "empty".toList ∧ mention.values = [])

structure Conforms (file : ChannelContents) : Prop where
  opening : channelError file.attributes = none
  free : lockedState host file.attributes = none
  top : Content.values file.contents = []
  each : ∀ mention ∈ file.document.mentions, Documented host mention

def PathsFit (file : ChannelContents) : Prop :=
  ∀ mention ∈ file.document.mentions, (partsName mention.path).length < maxPropPath

def scalarSetting : GValue → Bool
  | .string (some _) | .uchar _ | .char _ | .uint16 _ | .int16 _ | .uint _ | .int _ | .uint64 _
  | .int64 _ | .boolean _ => true
  | _ => false

def setting : GValue → Bool
  | .invalid => true
  | .ptrArray elements => elements.all scalarSetting
  | value => scalarSetting value

def restorableScalar : GValue → Bool
  | .string (some text) => decide (CleanText text)
  | .char n => n == 0
  | .uint16 _ | .int16 _ => false
  | _ => true

/-- A value without 16-bit numbers, characters other than the one of code 0, and strings
with white space that is not a blank. -/
def restorable : GValue → Bool
  | .ptrArray elements => elements.all restorableScalar
  | value => restorableScalar value

variable {host}

theorem realHandleInt_parsed {convert : CString → Conversion} {minval maxval : Int}
    {make : Int → GValue} {text : CString} {value : GValue}
    (parsed : realHandleInt convert minval maxval make text = .parsed value) :
    ∃ n, value = make n := by
  unfold realHandleInt at parsed
  dsimp only at parsed
  split at parsed
  · cases parsed
  split at parsed
  · cases parsed
  split at parsed
  · cases parsed
  · cases parsed
    exact ⟨_, rfl⟩

theorem handleInt64_parsed {convert : CString → Conversion} {make : Int → GValue} {text : CString}
    {value : GValue} (parsed : handleInt64 convert make text = .parsed value) :
    ∃ n, value = make n := by
  unfold handleInt64 at parsed
  dsimp only at parsed
  split at parsed
  · cases parsed
  split at parsed
  · cases parsed
  · cases parsed
    exact ⟨_, rfl⟩

theorem handleBoolean_parsed {text : CString} {value : GValue}
    (parsed : handleBoolean text = .parsed value) : ∃ b, value = .boolean b := by
  unfold handleBoolean at parsed
  split at parsed
  · cases parsed
    exact ⟨true, rfl⟩
  split at parsed
  · cases parsed
    exact ⟨false, rfl⟩
  · cases parsed

theorem scalarTypes_gtype : ∀ type ∈ scalarTypes, gtypeFromString type ∈
    [GType.string, .uchar, .char, .uint16, .int16, .uint, .int, .uint64, .int64, .boolean] := by
  decide

theorem scalarSetting_parsed {type text : CString} {value : GValue} (known : type ∈ scalarTypes)
    (parsed : gvalueFromString host (gtypeFromString type) (some text) = .parsed value) :
    scalarSetting value = true := by
  have typed := scalarTypes_gtype type known
  generalize gtypeFromString type = gtype at typed parsed
  cases gtype with
  | string =>
      cases parsed
      rfl
  | boolean =>
      simp only [gvalueFromString, onString] at parsed
      obtain ⟨b, rfl⟩ := handleBoolean_parsed parsed
      rfl
  | uint64 | int64 =>
      simp only [gvalueFromString, onString] at parsed
      obtain ⟨n, rfl⟩ := handleInt64_parsed parsed
      rfl
  | uchar | char | uint16 | int16 | uint | int =>
      simp only [gvalueFromString, onString] at parsed
      obtain ⟨n, rfl⟩ := realHandleInt_parsed parsed
      rfl
  | _ => simp at typed

theorem DocumentedValue.startValue {attributes : Attributes}
    (documented : DocumentedValue host attributes) :
    ∃ value, startValue host attributes = some value ∧ scalarSetting value = true := by
  obtain ⟨text, value, given, parsed⟩ := documented.text
  have typed := scalarTypes_gtype _ documented.type
  refine ⟨value, startValue_parsed ?_ ?_ ?_, scalarSetting_parsed documented.type parsed⟩
  · intro none
    rw [none] at typed
    simp at typed
  · intro none
    rw [none] at typed
    simp at typed
  · rw [given]
    exact parsed

theorem DocumentedItem.itemValue {attributes : Attributes}
    (documented : DocumentedItem host attributes) :
    ∃ value, itemValue host attributes = some value ∧ scalarSetting value = true := by
  obtain ⟨text, value, given, parsed⟩ := documented.text
  have known := documented.type
  have typed := scalarTypes_gtype _ known
  refine ⟨value, ?_, scalarSetting_parsed known parsed⟩
  unfold elementType at known typed parsed
  unfold Esconf.itemValue
  rw [documented.known]
  cases type : attributeValue attributes "type".toList with
  | none =>
      rw [type] at known
      exact absurd known (by decide)
  | some type' =>
      rw [type, Option.getD_some] at typed parsed
      dsimp only
      rw [given]
      split
      · next wrong =>
          rw [wrong] at typed
          simp at typed
      · next wrong =>
          rw [wrong] at typed
          simp at typed
      · next wrong =>
          rw [wrong] at typed
          simp at typed
      · rw [parsed]

namespace Documented

variable {mention : Mention}

theorem accepted (documented : Documented host mention) : mention.Accepted host := by
  have array : gtypeFromString "array".toList = .ptrArray := by decide
  have empty : gtypeFromString "empty".toList = .none := by decide
  rcases documented.value with ⟨value, none⟩ | ⟨type, items⟩ | ⟨type, none⟩
  · obtain ⟨given, start, _⟩ := value.startValue
    refine ⟨⟨documented.known, documented.named, ?_, ?_⟩, ?_⟩
    · intro empty
      have known := value.type
      rw [empty] at known
      exact absurd known (by decide)
    · rw [start]
      rfl
    · rw [none]
      intro item member
      cases member
  · refine ⟨⟨documented.known, documented.named, ?_, ?_⟩, ?_⟩
    · rw [type]
      decide
    · unfold startValue
      rw [type, array]
      rfl
    · intro item member
      obtain ⟨given, value, _⟩ := (items item member).itemValue
      rw [value]
      rfl
  · refine ⟨⟨documented.known, documented.named, ?_, ?_⟩, ?_⟩
    · rw [type]
      decide
    · unfold startValue
      rw [type, empty]
      rfl
    · rw [none]
      intro item member
      cases member

theorem regular (documented : Documented host mention)
    (short : (partsName mention.path).length < maxPropPath) : mention.Regular host := by
  refine ⟨documented.free, documented.plain, short, ?_⟩
  intro some'
  rcases documented.value with ⟨_, none⟩ | ⟨type, _⟩ | ⟨_, none⟩
  · exact absurd none some'
  · rw [type]
    decide
  · exact absurd none some'

theorem gives (documented : Documented host mention) : setting (mention.gives host) = true := by
  have array : gtypeFromString "array".toList = .ptrArray := by decide
  have empty : gtypeFromString "empty".toList = .none := by decide
  unfold Mention.gives
  rcases documented.value with ⟨value, none⟩ | ⟨type, items⟩ | ⟨type, none⟩
  · obtain ⟨given, start, known⟩ := value.startValue
    rw [none, List.foldl_nil, start, Option.getD_some]
    cases given <;> first | exact known | cases known
  · have start : startValue host mention.attributes = some (.ptrArray []) := by
      unfold startValue
      rw [type, array]
      rfl
    rw [start, Option.getD_some, foldl_ptrArrayAdd, List.nil_append]
    apply List.all_eq_true.mpr
    intro element member
    obtain ⟨item, inside, same⟩ := List.mem_map.mp member
    obtain ⟨given, value, known⟩ := (items item inside).itemValue
    rw [← same, value]
    exact known
  · have start : startValue host mention.attributes = some .invalid := by
      unfold startValue
      rw [type, empty]
    rw [none, List.foldl_nil, start]
    rfl

end Documented

def documentedText : GValue → Option (CString × CString)
  | .string (some text) => some ("string".toList, text)
  | .uchar n => some ("uchar".toList, printNat n.toNat)
  | .char n => some ("char".toList, printInt n.toInt)
  | .uint16 n => some ("uint16".toList, printNat n.toNat)
  | .int16 n => some ("int16".toList, printInt n.toInt)
  | .uint n => some ("uint".toList, printNat n.toNat)
  | .int n => some ("int".toList, printInt n.toInt)
  | .uint64 n => some ("uint64".toList, printNat n.toNat)
  | .int64 n => some ("int64".toList, printInt n.toInt)
  | .boolean b => some ("bool".toList, if b then "true".toList else "false".toList)
  | _ => none

/-- Every text of the format is read as the value it is for. -/
theorem documentedText_read {value : GValue} {type text : CString}
    (written : documentedText value = some (type, text)) :
    type ∈ scalarTypes ∧
      gvalueFromString host (gtypeFromString type) (some text) = .parsed value := by
  have known : type ∈ scalarTypes ∧ gtypeFromString type = value.gtype ∧ value.textual = true ∧
      stringFromGvalue host value = some text := by
    cases value with
    | string content =>
        cases content with
        | none => cases written
        | some content =>
            cases written
            exact ⟨by decide, rfl, rfl, rfl⟩
    | uchar _ | char _ | uint _ | int _ | uint64 _ | int64 _ | uint16 _ | int16 _ | boolean _ =>
        cases written
        exact ⟨by decide, rfl, rfl, rfl⟩
    | _ => cases written
  obtain ⟨listed, typed, textual, spelled⟩ := known
  rw [typed]
  exact ⟨listed, GValue.text_reads host textual spelled⟩

theorem scalarSetting_rereads {value : GValue} (set : scalarSetting value = true)
    (known : knownType value = true) : scalarRereads value = true := by
  cases value <;> first | rfl | (cases set; done) | cases known

theorem setting_rereads {value : GValue} (set : setting value = true)
    (known : formattable value = true) : rereads value = true := by
  cases value with
  | ptrArray elements =>
      apply List.all_eq_true.mpr
      intro element member
      exact scalarSetting_rereads (List.all_eq_true.mp set element member)
        (List.all_eq_true.mp known element member)
  | _ => first | rfl | cases set

theorem restorableScalar_iff {value : GValue} (readable : scalarRereads value = true)
    (set : scalarSetting value = true) :
    rereadScalar host value = value ↔ restorableScalar value = true := by
  cases value with
  | string text =>
      cases text with
      | none => cases set
      | some text =>
          rw [rereadScalar_string, GValue.string.injEq, Option.some.injEq,
            normalizeAttribute_eq_iff]
          exact decide_eq_true_iff.symm
  | char n =>
      rw [rereadScalar_char, GValue.char.injEq, restorableScalar, beq_iff_eq, eq_comm]
  | uchar n => exact iff_of_true (rereadScalar_scalar (.uchar n)) rfl
  | uint n => exact iff_of_true (rereadScalar_scalar (.uint n)) rfl
  | int n => exact iff_of_true (rereadScalar_scalar (.int n)) rfl
  | uint64 n => exact iff_of_true (rereadScalar_scalar (.uint64 n)) rfl
  | int64 n => exact iff_of_true (rereadScalar_scalar (.int64 n)) rfl
  | boolean b => exact iff_of_true (rereadScalar_scalar (.boolean b)) rfl
  | _ => first | (cases set; done) | cases readable

theorem restorable_plain {value : GValue} (readable : scalarRereads value = true)
    (set : scalarSetting value = true) :
    (formattable value = true ∧ formattedValue value = value ∧ reread host value = value) ↔
      restorable value = true := by
  have plain : formattable value = true ∧ formattedValue value = value ∧
      reread host value = rereadScalar host value ∧
      restorable value = restorableScalar value := by
    cases value <;> first | exact ⟨rfl, rfl, rfl, rfl⟩ | (cases set; done) | cases readable
  obtain ⟨known, formatted, read, back⟩ := plain
  rw [read, back, ← restorableScalar_iff readable set]
  exact ⟨fun each => each.2.2, fun same => ⟨known, formatted, same⟩⟩

/-- The values that are written, kept in memory and read again as they are. -/
theorem restorable_iff (host : Host) {value : GValue} (set : setting value = true) :
    (formattable value = true ∧ formattedValue value = value ∧ reread host value = value) ↔
      restorable value = true := by
  cases value with
  | ptrArray elements =>
      constructor
      · rintro ⟨known, _, same⟩
        have images : elements.map (rereadScalar host) = elements.map id := by
          rw [List.map_id]
          exact GValue.ptrArray.inj same
        apply List.all_eq_true.mpr
        intro element member
        have readable := scalarSetting_rereads (List.all_eq_true.mp set element member)
          (List.all_eq_true.mp known element member)
        apply (restorableScalar_iff readable (List.all_eq_true.mp set element member)).mp
        exact List.map_inj_left.mp images element member
      · intro each
        have readable : ∀ element ∈ elements, scalarRereads element = true := by
          intro element member
          have single := List.all_eq_true.mp set element member
          have back := List.all_eq_true.mp each element member
          cases element <;> first | rfl | (cases single; done) | cases back
        refine ⟨?_, rfl, ?_⟩
        · apply List.all_eq_true.mpr
          intro element member
          have known := readable element member
          cases element <;> first | rfl | cases known
        · apply congrArg GValue.ptrArray
          apply (List.map_inj_left.mpr _).trans (List.map_id elements)
          intro element member
          exact (restorableScalar_iff (readable element member)
            (List.all_eq_true.mp set element member)).mpr (List.all_eq_true.mp each element member)
  | invalid => exact iff_of_true ⟨rfl, rfl, rfl⟩ rfl
  | uint16 n =>
      refine iff_of_false ?_ Bool.false_ne_true
      rintro ⟨_, same, _⟩
      cases same
  | int16 n =>
      refine iff_of_false ?_ Bool.false_ne_true
      rintro ⟨_, same, _⟩
      cases same
  | string | uchar | char | uint | int | uint64 | int64 | boolean =>
      exact restorable_plain rfl set
  | _ => cases set

end Esconf
