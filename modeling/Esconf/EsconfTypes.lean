import Esconf.IntegerParsing

/-! `common/esconf-types.c`: the 16-bit types, and the functions registered to transform
values of other types to them and back. -/

namespace Esconf.Types

/-- A GType that a 16-bit type is transformed to or from. -/
inductive NumberType where
  | gtype (type : GType)
  | long | ulong | enum | flags
  deriving DecidableEq

inductive NumberValue where
  | gvalue (value : GValue)
  | long (n : Int64)
  | ulong (n : UInt64)
  | enum (n : Int32)
  | flags (n : UInt32)

namespace NumberValue

def type : NumberValue → NumberType
  | gvalue value => .gtype value.gtype
  | long _ => .long
  | ulong _ => .ulong
  | enum _ => .enum
  | flags _ => .flags

/-- The contents `g_value_init` gives a value of a type. -/
def zero : NumberType → NumberValue
  | .gtype type => gvalue (GValue.zero type)
  | .long => long 0
  | .ulong => ulong 0
  | .enum => enum 0
  | .flags => flags 0

def number : NumberValue → Option Int
  | gvalue value => value.number
  | long n => some n.toInt
  | ulong n => some n.toNat
  | enum n => some n.toInt
  | flags n => some n.toNat

end NumberValue

/-- The casts of the C compiler between floating-point numbers and integers. -/
structure FloatCasts where
  uint64OfFloat : UInt32 → UInt64
  uint64OfDouble : UInt64 → UInt64
  floatOfUint16 : UInt16 → UInt32
  doubleOfUint16 : UInt16 → UInt64

/-- `atoi`: a decimal number behind white space and a sign. -/
def atoi (str : CString) : Int32 :=
  match str.dropWhile isSpace with
  | '-' :: word => .ofInt (-(scanDigits 10 word 0).1)
  | '+' :: word => .ofInt (scanDigits 10 word 0).1
  | word => .ofInt (scanDigits 10 word 0).1

abbrev TransformFunc := NumberValue → NumberValue → Option NumberValue

variable (casts : FloatCasts)

/-- The cases of `gvalue_from_short` on its source. -/
def shortNumber : NumberValue → Option UInt64
  | .gvalue (.string (some text)) => some (.ofInt (atoi text).toInt)
  | .gvalue (.boolean b) => some (if b then 1 else 0)
  | .gvalue (.char n) => some (.ofInt n.toInt)
  | .gvalue (.uchar n) => some n.toUInt64
  | .gvalue (.int n) => some (.ofInt n.toInt)
  | .gvalue (.uint n) => some n.toUInt64
  | .long n => some n.toUInt64
  | .ulong n => some n
  | .gvalue (.int64 n) => some n.toUInt64
  | .gvalue (.uint64 n) => some n
  | .enum n => some (.ofInt n.toInt)
  | .flags n => some n.toUInt64
  | .gvalue (.float bits) => some (casts.uint64OfFloat bits)
  | .gvalue (.double bits) => some (casts.uint64OfDouble bits)
  | _ => none

/-- `gvalue_from_short`, which hands a NULL string to `atoi`. -/
def gvalueFromShort (srcValue destValue : NumberValue) : Option NumberValue :=
  match srcValue with
  | .gvalue (.string none) => none
  | _ =>
    match shortNumber casts srcValue with
    | none => some destValue
    | some dest =>
      match destValue with
      | .gvalue (.uint16 _) => some (.gvalue (.uint16 dest.toUInt16))
      | .gvalue (.int16 _) => some (.gvalue (.int16 dest.toUInt16.toInt16))
      | _ => some destValue

/-- The end of `short_from_gvalue`, the number being in an unsigned variable. -/
def setShort (src : UInt16) (isSigned : Bool) : NumberValue → NumberValue
  | .gvalue (.string _) =>
    .gvalue (.string (some (if isSigned then printInt src.toInt16.toInt else printNat src.toNat)))
  | .gvalue (.boolean _) => .gvalue (.boolean (src != 0))
  | .gvalue (.char _) => .gvalue (.char src.toUInt8.toInt8)
  | .gvalue (.uchar _) => .gvalue (.uchar src.toUInt8)
  | .gvalue (.int _) => .gvalue (.int src.toUInt32.toInt32)
  | .gvalue (.uint _) => .gvalue (.uint src.toUInt32)
  | .long _ => .long src.toUInt64.toInt64
  | .ulong _ => .ulong src.toUInt64
  | .gvalue (.int64 _) => .gvalue (.int64 src.toUInt64.toInt64)
  | .gvalue (.uint64 _) => .gvalue (.uint64 src.toUInt64)
  | .enum _ => .enum src.toUInt32.toInt32
  | .flags _ => .flags src.toUInt32
  | .gvalue (.float _) => .gvalue (.float (casts.floatOfUint16 src))
  | .gvalue (.double _) => .gvalue (.double (casts.doubleOfUint16 src))
  | destValue => destValue

/-- `short_from_gvalue`. -/
def shortFromGvalue (srcValue destValue : NumberValue) : Option NumberValue :=
  match srcValue with
  | .gvalue (.uint16 n) => some (setShort casts n false destValue)
  | .gvalue (.int16 n) => some (setShort casts n.toUInt16 true destValue)
  | _ => some destValue

/-- What a call of `g_value_register_transform_func` registers. -/
structure Registered where
  source : NumberType
  dest : NumberType
  func : TransformFunc

def transformTypes : List NumberType :=
  [.gtype .char, .gtype .uchar, .gtype .boolean, .gtype .int, .gtype .uint, .long, .ulong,
    .gtype .int64, .gtype .uint64, .enum, .flags, .gtype .float, .gtype .double, .gtype .string]

/-- `register_transforms`. -/
def registerTransforms (gtype : NumberType) : List Registered :=
  transformTypes.flatMap fun type =>
    [⟨gtype, type, gvalueFromShort casts⟩, ⟨type, gtype, shortFromGvalue casts⟩]

/-- The types `esconf_uint16_get_type` and `esconf_int16_get_type` register. -/
def shortTypes : List NumberType := [.gtype .uint16, .gtype .int16]

/-- What the library relies on: `g_value_transform` calls the function registered for its
source and its destination, which is filled with zeros first. -/
def CallsRegistered (transform : NumberValue → NumberType → Option NumberValue) : Prop :=
  ∀ short ∈ shortTypes, ∀ entry ∈ registerTransforms casts short, ∀ src : NumberValue,
    src.type = entry.source → transform src entry.dest = entry.func src (.zero entry.dest)

/-- A value of one of the other types with its number, a string being decimal text. -/
inductive Holds : NumberValue → Int → Prop where
  | integer {value : GValue} {n : Int} (number : value.number = some n)
      (wider : value.gtype ≠ .uint16 ∧ value.gtype ≠ .int16) : Holds (.gvalue value) n
  | long (n : Int64) : Holds (.long n) n.toInt
  | ulong (n : UInt64) : Holds (.ulong n) n.toNat
  | text {sign word : CString} {negative : Bool} (signed : Sign sign negative) (full : word ≠ [])
      (digits : ∀ d ∈ word, isDigitIn 10 d = true) :
      Holds (.gvalue (.string (some (sign ++ word))))
        (if negative then -(digitsNumber 10 word : Int) else digitsNumber 10 word)

section Transforms

variable {casts} {transform : NumberValue → NumberType → Option NumberValue}

theorem registered_to {short type : NumberType} (isShort : short ∈ shortTypes)
    (other : type ∈ transformTypes) (calls : CallsRegistered casts transform)
    {src : NumberValue} (typed : src.type = type) :
    transform src short = shortFromGvalue casts src (.zero short) := by
  refine calls short isShort ⟨type, short, shortFromGvalue casts⟩ ?_ src typed
  exact List.mem_flatMap.mpr ⟨type, other, by simp⟩

theorem registered_from {short type : NumberType} (isShort : short ∈ shortTypes)
    (other : type ∈ transformTypes) (calls : CallsRegistered casts transform)
    {src : NumberValue} (typed : src.type = short) :
    transform src type = gvalueFromShort casts src (.zero type) := by
  refine calls short isShort ⟨short, type, gvalueFromShort casts⟩ ?_ src typed
  exact List.mem_flatMap.mpr ⟨type, other, by simp⟩

theorem shortFromGvalue_other {src : NumberValue} (other : src.type ∉ shortTypes)
    (dest : NumberValue) : shortFromGvalue casts src dest = some dest := by
  cases src with
  | gvalue value =>
      cases value with
      | uint16 _ => exact absurd List.mem_cons_self other
      | int16 _ => exact absurd (List.mem_cons_of_mem _ List.mem_cons_self) other
      | _ => rfl
  | _ => rfl

theorem mem_shortTypes {type : NumberType} :
    type ∈ shortTypes ↔ type = .gtype .uint16 ∨ type = .gtype .int16 := by
  simp only [shortTypes, List.mem_cons, List.not_mem_nil, or_false]

theorem gvalueFromShort_short {src : NumberValue} (short : src.type ∈ shortTypes)
    (dest : NumberValue) : gvalueFromShort casts src dest = some dest := by
  cases src with
  | gvalue value =>
      cases value with
      | uint16 _ => rfl
      | int16 _ => rfl
      | _ => rcases mem_shortTypes.mp short with same | same <;> cases same
  | _ => rcases mem_shortTypes.mp short with same | same <;> cases same

theorem zero_short {short : NumberType} (isShort : short ∈ shortTypes) :
    (NumberValue.zero short).number = some 0 := by
  rcases mem_shortTypes.mp isShort with rfl | rfl <;> rfl

theorem zero_type {type : NumberType} (listed : type ∈ transformTypes ++ shortTypes) :
    (NumberValue.zero type).type = type := by
  revert type
  decide

theorem Holds.registered {src : NumberValue} {n : Int} (holds : Holds src n) :
    src.type ∈ transformTypes ∧ src.type ∉ shortTypes := by
  rw [mem_shortTypes]
  cases holds with
  | @integer value _ number wider =>
      cases value <;> first | cases number; done | skip
      case uint16 => exact absurd rfl wider.1
      case int16 => exact absurd rfl wider.2
      all_goals simp [transformTypes, NumberValue.type, GValue.gtype]
  | long _ => simp [transformTypes, NumberValue.type]
  | ulong _ => simp [transformTypes, NumberValue.type]
  | text signed full digits => simp [transformTypes, NumberValue.type, GValue.gtype]

theorem becomes_zero {src : NumberValue} {n : Int} (calls : CallsRegistered casts transform)
    (holds : Holds src n) {short : NumberType} (isShort : short ∈ shortTypes) :
    transform src short = some (.zero short) := by
  rw [registered_to isShort holds.registered.1 calls rfl,
    shortFromGvalue_other holds.registered.2]

theorem comes_back_zero {value : NumberValue} (calls : CallsRegistered casts transform)
    (isShort : value.type ∈ shortTypes) {other : NumberType} (listed : other ∈ transformTypes)
    (wider : other ∉ shortTypes) :
    transform value other = some (.zero other) ∧
      transform (.zero other) value.type = some (.zero value.type) := by
  constructor
  · rw [registered_from isShort listed calls rfl, gvalueFromShort_short isShort]
  · have typed := zero_type (List.mem_append_left shortTypes listed)
    rw [registered_to isShort listed calls typed, shortFromGvalue_other]
    rw [typed]
    exact wider

theorem short_eq_zero {value : NumberValue} (isShort : value.type ∈ shortTypes) :
    NumberValue.zero value.type = value ↔ value.number = some 0 := by
  constructor
  · intro zero
    rw [← zero]
    exact zero_short isShort
  · intro zero
    cases value with
    | gvalue value =>
        cases value <;>
          first
          | (rcases mem_shortTypes.mp isShort with same | same <;> cases same; done)
          | skip
        case uint16 n =>
          have nil : n = 0 := by
            rw [← UInt16.toNat_inj]
            exact Int.ofNat.inj (Option.some.inj zero)
          rw [nil]
          rfl
        case int16 n =>
          have nil : n = 0 := by
            rw [← Int16.toInt_inj]
            exact Option.some.inj zero
          rw [nil]
          rfl
    | _ => rcases mem_shortTypes.mp isShort with same | same <;> cases same

end Transforms

/-- The types whose values are transformed to and back. -/
def thereAndBack : List NumberType := [.gtype .int, .gtype .int64, .long, .gtype .string]

/-- A transformation to a 16-bit type keeps the number 0 and no other, and only 0 comes back
from a wider type. -/
theorem short_transforms_iff (casts : FloatCasts)
    (transform : NumberValue → NumberType → Option NumberValue)
    (calls : CallsRegistered casts transform) :
    (∀ src n, Holds src n → ∀ short ∈ shortTypes,
      ((∃ out, transform src short = some out ∧ out.type = short ∧ out.number = some n) ↔
        n = 0)) ∧
    (∀ value : NumberValue, value.type ∈ shortTypes → ∀ other ∈ thereAndBack,
      ((∃ there, transform value other = some there ∧
        transform there value.type = some value) ↔ value.number = some 0)) := by
  constructor
  · intro src n holds short isShort
    rw [becomes_zero calls holds isShort]
    constructor
    · rintro ⟨out, stored, -, number⟩
      rw [← Option.some.inj stored, zero_short isShort] at number
      exact (Option.some.inj number).symm
    · rintro rfl
      exact ⟨_, rfl, zero_type (List.mem_append_right _ isShort), zero_short isShort⟩
  · intro value isShort other back
    have listed : other ∈ transformTypes ∧ other ∉ shortTypes := by
      revert other
      decide
    obtain ⟨there, home⟩ := comes_back_zero calls isShort listed.1 listed.2
    rw [there, ← short_eq_zero isShort]
    constructor
    · rintro ⟨out, stored, returned⟩
      rw [← Option.some.inj stored, home] at returned
      exact Option.some.inj returned
    · intro zero
      exact ⟨_, rfl, home.trans (congrArg some zero)⟩

def Registered.direction (entry : Registered) : NumberType × NumberType :=
  (entry.source, entry.dest)

/-- The calls of `register_transforms` for the two types. -/
def registeredFuncs (casts : FloatCasts) : List Registered :=
  shortTypes.flatMap (registerTransforms casts)

/-- `g_value_transform`, as far as the registered functions go. -/
def gValueTransform (casts : FloatCasts) (src : NumberValue) (dest : NumberType) :
    Option NumberValue :=
  ((registeredFuncs casts).find? fun entry => entry.direction = (src.type, dest)).bind
    fun entry => entry.func src (.zero dest)

/-- Casts that lose every floating-point number. -/
def FloatCasts.none : FloatCasts := ⟨fun _ => 0, fun _ => 0, fun _ => 0, fun _ => 0⟩

theorem find?_key {α κ : Type} [DecidableEq κ] (key : α → κ) {l : List α}
    (distinct : (l.map key).Nodup) {x : α} (mem : x ∈ l) :
    l.find? (fun y => key y = key x) = some x := by
  induction l with
  | nil => cases mem
  | cons y rest ih =>
      rw [List.map_cons, List.nodup_cons] at distinct
      rcases List.mem_cons.mp mem with rfl | later
      · exact List.find?_cons_of_pos (decide_eq_true rfl)
      · have differ : key y ≠ key x := fun same =>
          distinct.1 (same ▸ List.mem_map_of_mem later)
        rw [← ih distinct.2 later]
        exact List.find?_cons_of_neg (mt of_decide_eq_true differ)

theorem gValueTransform_calls :
    CallsRegistered FloatCasts.none (gValueTransform FloatCasts.none) := by
  intro short isShort entry listed src typed
  have distinct : ((registeredFuncs FloatCasts.none).map Registered.direction).Nodup := by
    decide
  have found := find?_key Registered.direction distinct
    (List.mem_flatMap.mpr ⟨short, isShort, listed⟩)
  have direction : (entry.source, entry.dest) = entry.direction := rfl
  unfold gValueTransform
  rw [typed, direction, found]
  rfl

/-- The number 0 is kept, in both directions. -/
theorem short_transforms_zero :
    (∃ out, gValueTransform FloatCasts.none (.gvalue (.int 0)) (.gtype .uint16) = some out ∧
      out.type = .gtype .uint16 ∧ out.number = some 0) ∧
    (∃ there, gValueTransform FloatCasts.none (.gvalue (.int16 0)) .long = some there ∧
      gValueTransform FloatCasts.none there (.gtype .int16) = some (.gvalue (.int16 0))) := by
  have both := short_transforms_iff _ _ gValueTransform_calls
  constructor
  · exact (both.1 (.gvalue (.int 0)) 0 (.integer rfl ⟨by decide, by decide⟩) _
      List.mem_cons_self).mpr rfl
  · exact (both.2 (.gvalue (.int16 0)) (by decide) .long (by decide)).mpr rfl

/-- The integer 5 becomes the 16-bit number 0. -/
theorem five_becomes_zero :
    CallsRegistered FloatCasts.none (gValueTransform FloatCasts.none) ∧
    Holds (.gvalue (.int 5)) 5 ∧
    gValueTransform FloatCasts.none (.gvalue (.int 5)) (.gtype .uint16) =
      some (.gvalue (.uint16 0)) :=
  ⟨gValueTransform_calls, .integer rfl ⟨by decide, by decide⟩, rfl⟩

end Esconf.Types
