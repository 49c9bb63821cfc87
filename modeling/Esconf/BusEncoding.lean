import Esconf.ReadPaths
import Esconf.StructValues

/-! What travels over the bus: values that come back as they were, tables of them, and the
arrays of `esconf_channel_set_array_valist`, which can lose elements. -/

namespace Esconf

namespace GValue

/-- A scalar value with a type on the bus. -/
def carried : GValue → Bool
  | string (some _) | boolean _ | uchar _ | char _ => true
  | int _ | uint _ | int64 _ | uint64 _ | double _ => true
  | _ => false

/-- A scalar with a type on the bus, or an array of such. -/
inductive Carried : GValue → Prop where
  | scalar {value : GValue} (carried : value.carried = true) : Carried value
  | array {elements : List GValue} (each : ∀ element ∈ elements, element.carried = true) :
      Carried (.ptrArray elements)

def scalarBack : GValue → GValue
  | char n => int (.ofInt n.toInt)
  | value => value

def comesBack : GValue → GValue
  | ptrArray elements => ptrArray (elements.map scalarBack)
  | value => scalarBack value

def texts : GValue → List CString
  | string (some text) => [text]
  | ptrArray elements => elements.filterMap fun element =>
      match element with
      | string text => text
      | _ => none
  | _ => []

end GValue

/-- GLib makes the variants of the strings in a value that they stand for. -/
def FaithfulStrings (host : Host) (value : GValue) : Prop :=
  ∀ text ∈ value.texts, stringVariant host (some text) = some (.string text)

section Values

variable {host : Host} {value : GValue}

theorem carried_basic (carried : value.carried = true)
    (faithful : ∀ text, value = .string (some text) →
      stringVariant host (some text) = some (.string text)) :
    ∃ sent, esconfBasicGvalueToGvariant host value = some sent ∧
      esconfBasicGvariantToGvalue sent = some value.scalarBack := by
  cases value with
  | string text =>
      cases text with
      | none => cases carried
      | some text => exact ⟨.string text, faithful text rfl, rfl⟩
  | char n =>
      refine ⟨.int16 n.toInt16, rfl, ?_⟩
      have widened : n.toInt16.toInt32 = Int32.ofInt n.toInt := by
        rw [← Int8.toInt_toInt16, ← Int16.toInt_toInt32, Int32.ofInt_toInt]
      rw [GValue.scalarBack, ← widened]
      rfl
  | boolean b => exact ⟨_, rfl, rfl⟩
  | uchar n => exact ⟨_, rfl, rfl⟩
  | int n => exact ⟨_, rfl, rfl⟩
  | uint n => exact ⟨_, rfl, rfl⟩
  | int64 n => exact ⟨_, rfl, rfl⟩
  | uint64 n => exact ⟨_, rfl, rfl⟩
  | double bits => exact ⟨_, rfl, rfl⟩
  | _ => cases carried

theorem basic_unboxed {sent : GVariant} (decoded : esconfBasicGvariantToGvalue sent = some value) :
    esconfGvariantToGvalue sent = some value ∧
      esconfGvariantToGvalue (.variant sent) = some value := by
  cases sent <;> first | cases decoded; done | exact ⟨decoded, decoded⟩

theorem carried_toGvariant (carried : value.carried = true) :
    esconfGvalueToGvariant host value = esconfBasicGvalueToGvariant host value := by
  cases value <;> first | cases carried; done | rfl

theorem comesBack_scalar (carried : value.carried = true) : value.comesBack = value.scalarBack := by
  cases value <;> first | cases carried; done | rfl

theorem FaithfulStrings.element {elements : List GValue}
    (faithful : FaithfulStrings host (.ptrArray elements)) {text : CString}
    (member : .string (some text) ∈ elements) :
    stringVariant host (some text) = some (.string text) :=
  faithful text (List.mem_filterMap.mpr ⟨_, member, rfl⟩)

theorem FaithfulStrings.scalar (faithful : FaithfulStrings host value) {text : CString}
    (same : value = .string (some text)) : stringVariant host (some text) = some (.string text) := by
  apply faithful
  rw [same]
  exact List.mem_singleton_self text

theorem carried_filterMap {elements : List GValue}
    (each : ∀ element ∈ elements, element.carried = true)
    (faithful : FaithfulStrings host (.ptrArray elements)) :
    elements.filterMap (Client.travelled host) = elements.map GValue.scalarBack := by
  rw [← List.filterMap_eq_map]
  apply List.filterMap_congr
  intro element member
  obtain ⟨sent, encoded, decoded⟩ := carried_basic (each element member)
    fun text same => faithful.element (same ▸ member)
  change Option.map _ _ = some _
  rw [encoded, Option.map_some, elementValue, decoded]
  rfl

theorem carried_sent {elements : List GValue}
    (each : ∀ element ∈ elements, element.carried = true)
    (faithful : FaithfulStrings host (.ptrArray elements)) :
    elements = [] ∨ elements.filterMap (esconfBasicGvalueToGvariant host) ≠ [] := by
  cases elements with
  | nil => exact Or.inl rfl
  | cons first rest =>
      right
      obtain ⟨sent, encoded, _⟩ := carried_basic (each first List.mem_cons_self)
        fun text same => faithful.element (same ▸ List.mem_cons_self)
      rw [List.filterMap_cons, encoded]
      exact List.cons_ne_nil _ _

theorem carried_encoded (carried : value.Carried) (faithful : FaithfulStrings host value) :
    ∃ sent, esconfGvalueToGvariant host value = some sent ∧
      Daemon.tableVariant host value = some sent ∧
      esconfGvariantToGvalue sent = some value.comesBack ∧
      esconfGvariantToGvalue (.variant sent) = some value.comesBack := by
  cases carried with
  | scalar plain =>
      obtain ⟨sent, encoded, decoded⟩ := carried_basic plain fun text same => faithful.scalar same
      rw [carried_toGvariant plain, comesBack_scalar plain]
      refine ⟨sent, encoded, ?_, basic_unboxed decoded⟩
      rw [← encoded]
      cases value <;> first | cases plain; done | rfl
  | array each =>
      have encoded := Client.ptrArray_sent (carried_sent each faithful)
      refine ⟨_, encoded, rfl, ?_⟩
      rw [GValue.comesBack, ← carried_filterMap each faithful]
      exact Client.esconfGvalueToGvariant_ptrArray encoded

theorem carried_table {inserted : List (CString × GValue)}
    (carried : ∀ entry ∈ inserted, entry.2.Carried) :
    Daemon.esconfHashToGvariant host inserted =
      some fun key => (hashTable inserted key).bind (Daemon.tableVariant host) := by
  unfold Daemon.esconfHashToGvariant
  rw [if_neg]
  rw [Bool.not_eq_true, List.any_eq_false]
  intro entry member null
  have held := Assignments.mem_of_last (of_decide_eq_true null)
  cases carried _ held with
  | scalar plain => cases plain

end Values

/-- A value with a type on the bus is sent as a variant that gives it back, a char as an
int, both bare and in another variant; and a table of such values has, under each key, the
variant that the value is sent as on its own. -/
theorem bus_round_trips (host : Host) :
    (∀ value : GValue, value.Carried → FaithfulStrings host value →
      ∃ sent, esconfGvalueToGvariant host value = some sent ∧
        esconfGvariantToGvalue sent = some value.comesBack ∧
        esconfGvariantToGvalue (.variant sent) = some value.comesBack) ∧
    ∀ inserted : List (CString × GValue),
      (∀ entry ∈ inserted, entry.2.Carried ∧ FaithfulStrings host entry.2) →
      ∃ table, Daemon.esconfHashToGvariant host inserted = some table ∧
        ∀ key, table key = (hashTable inserted key).bind (esconfGvalueToGvariant host) ∧
          ((table key).isSome = true ↔ (hashTable inserted key).isSome = true) := by
  constructor
  · intro value carried faithful
    obtain ⟨sent, encoded, _, decoded⟩ := carried_encoded carried faithful
    exact ⟨sent, encoded, decoded⟩
  · intro inserted fine
    refine ⟨_, carried_table fun entry member => (fine entry member).1, ?_⟩
    intro key
    cases held : hashTable inserted key with
    | none => simp
    | some value =>
        obtain ⟨carried, faithful⟩ := fine _ (Assignments.mem_of_last held)
        obtain ⟨sent, encoded, tabled, _⟩ := carried_encoded carried faithful
        rw [Option.bind_some, Option.bind_some, tabled, encoded]
        simp

/-- A list of a negative char and a string, in a table too. -/
theorem bus_round_trips_list :
    (∃ sent, esconfGvalueToGvariant (.bare []) (.ptrArray [.char (-3), .string (some "a".toList)]) =
        some sent ∧
      esconfGvariantToGvalue (.variant sent) =
        some (.ptrArray [.int (-3), .string (some "a".toList)])) ∧
    ∃ table, Daemon.esconfHashToGvariant (.bare []) [("/a".toList, .uchar 7)] = some table ∧
      ∀ key, (table key).isSome = true ↔
        (hashTable [("/a".toList, .uchar 7)] key).isSome = true := by
  obtain ⟨values, tables⟩ := bus_round_trips (.bare [])
  constructor
  · have carried : GValue.Carried (.ptrArray [.char (-3), .string (some "a".toList)]) := by
      apply GValue.Carried.array
      intro element member
      rcases List.mem_cons.mp member with rfl | later
      · rfl
      · rw [List.mem_singleton.mp later]
        rfl
    obtain ⟨sent, encoded, _, boxed⟩ := values _ carried fun _ _ => rfl
    exact ⟨sent, encoded, boxed⟩
  · obtain ⟨table, sent, held⟩ := tables [("/a".toList, .uchar 7)] (by
      intro entry member
      obtain rfl := List.mem_singleton.mp member
      exact ⟨.scalar rfl, fun _ _ => rfl⟩)
    exact ⟨table, sent, fun key => (held key).2⟩

namespace Client

/-- An argument of `esconf_channel_set_array_valist`: a GType and what its pointer points to. -/
inductive ArrayArgument where
  | uchar (n : UInt8)
  | char (n : Int8)
  | uint (n : UInt32)
  | int (n : Int32)
  | uint64 (n : UInt64)
  | int64 (n : Int64)
  | float (bits : UInt32)
  | double (bits : UInt64)
  | boolean (b : Bool)
  | string (text : Option CString)
  | uint16 (n : UInt16)
  | int16 (n : Int16)
  | strv (list : List CString)
  | unknown (type : GType)

/-- The GValue made of an argument; the 16-bit types are stored as uint and int. -/
def ArrayArgument.value : ArrayArgument → Option GValue
  | uchar n => some (.uchar n)
  | char n => some (.char n)
  | uint n => some (.uint n)
  | int n => some (.int n)
  | uint64 n => some (.uint64 n)
  | int64 n => some (.int64 n)
  | float bits => some (.float bits)
  | double bits => some (.double bits)
  | boolean b => some (.boolean b)
  | string text => some (.string text)
  | uint16 n => some (.uint n.toUInt32)
  | int16 n => some (.int n.toInt32)
  | strv list => some (.strv list)
  | unknown _ => none

/-- The loop of `esconf_channel_set_array_valist`; `none` when it jumps out. -/
def arrayValues : List ArrayArgument → Option (List GValue)
  | [] => some []
  | argument :: rest =>
    match argument.value with
    | none => none
    | some val => (arrayValues rest).map (val :: ·)

/-- `esconf_channel_set_array_valist`, whose first type must not be G_TYPE_INVALID;
`none` when the old item has been freed. -/
def esconfChannelSetArrayValist (host : Host) (daemon : Daemon) (channel : EsconfChannel)
    (property : CString) (arguments : List ArrayArgument) : Option (Outcome Bool) :=
  if arguments = [] then some ⟨false, channel.cache, none⟩
  else match arrayValues arguments with
    | none => some ⟨false, channel.cache, none⟩
    | some arr => esconfChannelSetArrayv host daemon channel property arr

inductive Encodes : GValue → GVariant → Prop where
  | uchar (n : UInt8) : Encodes (.uchar n) (.byte n)
  | char (n : Int8) (m : Int16) (same : m.toInt = n.toInt) : Encodes (.char n) (.int16 m)
  | uint (n : UInt32) : Encodes (.uint n) (.uint32 n)
  | int (n : Int32) : Encodes (.int n) (.int32 n)
  | uint64 (n : UInt64) : Encodes (.uint64 n) (.uint64 n)
  | int64 (n : Int64) : Encodes (.int64 n) (.int64 n)
  | double (bits : UInt64) : Encodes (.double bits) (.double bits)
  | boolean (b : Bool) : Encodes (.boolean b) (.boolean b)
  | string (text : CString) : Encodes (.string (some text)) (.string text)
  | null : Encodes (.string none) (.string [])

/-- Either the array is not sent, or all of it is, in order. -/
def NoSilentLoss (host : Host) (arr : List GValue) : Prop :=
  ∀ sent, esconfGvalueToGvariant host (.ptrArray arr) = some sent →
    ∃ children, sent = .variants children ∧
      List.Forall₂ (fun element child => ∃ inner, child = .variant inner ∧ Encodes element inner)
        arr children

def ArrayArgument.encodable (host : Host) : ArrayArgument → Bool
  | float _ | strv _ | unknown _ => false
  | string text => host.utf8Validate (text.getD [])
  | _ => true

section Arrays

variable {host : Host}

theorem encodable_value {argument : ArrayArgument} {value : GValue}
    (taken : argument.value = some value) (encodable : argument.encodable host = true) :
    ∃ inner, esconfBasicGvalueToGvariant host value = some inner ∧ Encodes value inner := by
  cases argument <;> cases taken <;> first | cases encodable; done | skip
  case uchar n => exact ⟨_, rfl, .uchar n⟩
  case char n => exact ⟨_, rfl, .char n _ (Int8.toInt_toInt16 n)⟩
  case uint n => exact ⟨_, rfl, .uint n⟩
  case int n => exact ⟨_, rfl, .int n⟩
  case uint64 n => exact ⟨_, rfl, .uint64 n⟩
  case int64 n => exact ⟨_, rfl, .int64 n⟩
  case double bits => exact ⟨_, rfl, .double bits⟩
  case boolean b => exact ⟨_, rfl, .boolean b⟩
  case uint16 n => exact ⟨_, rfl, .uint _⟩
  case int16 n => exact ⟨_, rfl, .int _⟩
  case string text =>
    refine ⟨.string (text.getD []), if_pos encodable, ?_⟩
    cases text with
    | none => exact .null
    | some text => exact .string text

theorem unencodable_value {argument : ArrayArgument} {value : GValue}
    (taken : argument.value = some value) (lost : argument.encodable host = false) :
    esconfBasicGvalueToGvariant host value = none := by
  cases argument <;> cases taken <;> first | cases lost; done | skip
  case float bits => rfl
  case strv list => rfl
  case string text => exact if_neg (by rw [Bool.not_eq_true]; exact lost)

theorem arrayValues_forall₂ {arguments : List ArrayArgument} {arr : List GValue}
    (built : arrayValues arguments = some arr) :
    List.Forall₂ (fun argument value => argument.value = some value) arguments arr := by
  induction arguments generalizing arr with
  | nil =>
      cases built
      exact .nil
  | cons argument rest ih =>
      rw [arrayValues] at built
      cases taken : argument.value with
      | none =>
          rw [taken] at built
          cases built
      | some value =>
          rw [taken] at built
          obtain ⟨later, built', rfl⟩ := Option.map_eq_some_iff.mp built
          exact .cons taken (ih built')

theorem filterMap_encodable {arguments : List ArrayArgument} {arr : List GValue}
    (built : List.Forall₂ (fun argument value => argument.value = some value) arguments arr)
    (all : ∀ argument ∈ arguments, argument.encodable host = true) :
    List.Forall₂ Encodes arr (arr.filterMap (esconfBasicGvalueToGvariant host)) := by
  induction built with
  | nil => exact .nil
  | cons taken _ ih =>
      obtain ⟨inner, encoded, stands⟩ := encodable_value taken (all _ List.mem_cons_self)
      rw [List.filterMap_cons, encoded]
      exact .cons stands (ih fun other member => all other (List.mem_cons_of_mem _ member))

theorem filterMap_length {arguments : List ArrayArgument} {arr : List GValue}
    (built : List.Forall₂ (fun argument value => argument.value = some value) arguments arr) :
    (arr.filterMap (esconfBasicGvalueToGvariant host)).length =
      arguments.countP (ArrayArgument.encodable host) := by
  induction built with
  | nil => rfl
  | cons taken _ ih =>
      rw [List.filterMap_cons, List.countP_cons, ← ih]
      cases encodable : ArrayArgument.encodable host _ with
      | true =>
          obtain ⟨inner, encoded, _⟩ := encodable_value taken encodable
          rw [encoded]
          simp
      | false =>
          rw [unencodable_value taken encodable]
          simp

end Arrays

/-- An array built from arguments loses nothing exactly if all of its elements can be
encoded, or none, when it is not sent at all. -/
theorem no_silent_loss_iff (host : Host) (arguments : List ArrayArgument) (arr : List GValue)
    (built : arrayValues arguments = some arr) :
    NoSilentLoss host arr ↔ (∀ argument ∈ arguments, argument.encodable host = true) ∨
      ∀ argument ∈ arguments, argument.encodable host = false := by
  have each := arrayValues_forall₂ built
  have count := @filterMap_length host _ _ each
  constructor
  · intro kept
    by_cases empty : arr.filterMap (esconfBasicGvalueToGvariant host) = []
    · right
      rw [empty, List.length_nil, eq_comm, List.countP_eq_zero] at count
      intro argument member
      exact Bool.eq_false_iff.mpr (count argument member)
    · left
      obtain ⟨children, shape, whole⟩ := kept _ (ptrArray_sent (Or.inr empty))
      have same := GVariant.variants.inj shape
      have lengths := whole.length_eq
      rw [← same, List.length_map, count, ← each.length_eq] at lengths
      exact List.countP_eq_length.mp lengths.symm
  · intro condition sent encoded
    rcases condition with all | nothing
    · refine ⟨_, ptrArray_variants encoded, ?_⟩
      rw [List.forall₂_map_right_iff]
      exact (filterMap_encodable each all).imp fun element inner stands => ⟨inner, rfl, stands⟩
    · have none : arguments.countP (ArrayArgument.encodable host) = 0 :=
        List.countP_eq_zero.mpr fun argument member => Bool.eq_false_iff.mp (nothing argument member)
      rw [none, List.length_eq_zero_iff] at count
      cases arr with
      | nil =>
          cases encoded
          exact ⟨[], rfl, .nil⟩
      | cons first rest =>
          rw [esconfGvalueToGvariant, count] at encoded
          · cases encoded
          · exact List.cons_ne_nil first rest

/-- A string, a number, a boolean and the uint that a 16-bit number becomes are all sent. -/
theorem no_silent_loss_mixed : NoSilentLoss (.bare [])
    [.string (some "x".toList), .double 1, .boolean true, .uint 7] := by
  apply (no_silent_loss_iff (.bare [])
    [.string (some "x".toList), .double 1, .boolean true, .uint16 7] _ rfl).mpr
  left
  decide

/-- Of an int, a float and another int, the set that returns TRUE sends the ints only. -/
theorem float_element_lost :
    (∃ outcome, esconfChannelSetArrayValist (Host.bare []) .ignorant (.new "c".toList) "/a".toList
        [.int 1, .float 2, .int 3] = some outcome ∧ outcome.ret = true) ∧
      arrayValues [.int 1, .float 2, .int 3] = some [.int 1, .float 2, .int 3] ∧
      esconfGvalueToGvariant (.bare []) (.ptrArray [.int 1, .float 2, .int 3]) =
        some (.variants [.variant (.int32 1), .variant (.int32 3)]) ∧
      ¬NoSilentLoss (.bare []) [.int 1, .float 2, .int 3] := by
  refine ⟨⟨_, rfl, rfl⟩, rfl, rfl, ?_⟩
  intro kept
  obtain ⟨children, shape, whole⟩ := kept _ rfl
  rw [← GVariant.variants.inj shape] at whole
  cases whole.length_eq

end Client

end Esconf
