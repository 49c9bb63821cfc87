import Esconf.CString

/-! GValues of the types the sources name, with the dynamic type as the
constructor. -/

namespace Esconf

inductive GType where
  | invalid | none | string | uchar | char | uint | int | uint64 | int64 | float | double
  | boolean | uint16 | int16 | strv | ptrArray | other (id : Nat)
  deriving DecidableEq, Repr

/-- `invalid` is the zero-filled GValue. Floats and doubles are their IEEE bits;
a string may be the NULL string and a pointer array the NULL array. A value of
any type the sources have no case for is `other`. -/
inductive GValue where
  | invalid
  | string (text : Option CString)
  | uchar (n : UInt8)
  | char (n : Int8)
  | uint (n : UInt32)
  | int (n : Int32)
  | uint64 (n : UInt64)
  | int64 (n : Int64)
  | float (bits : UInt32)
  | double (bits : UInt64)
  | boolean (b : Bool)
  | uint16 (n : UInt16)
  | int16 (n : Int16)
  | strv (list : List CString)
  | ptrArrayNull
  | ptrArray (elements : List GValue)
  | other (id payload : Nat)

namespace GValue

/-- `G_VALUE_TYPE`. -/
def gtype : GValue → GType
  | invalid => .invalid
  | string _ => .string
  | uchar _ => .uchar
  | char _ => .char
  | uint _ => .uint
  | int _ => .int
  | uint64 _ => .uint64
  | int64 _ => .int64
  | float _ => .float
  | double _ => .double
  | boolean _ => .boolean
  | uint16 _ => .uint16
  | int16 _ => .int16
  | strv _ => .strv
  | ptrArrayNull => .ptrArray
  | ptrArray _ => .ptrArray
  | other id _ => .other id

/-- `G_VALUE_TYPE (value)` read as a truth value, and `G_IS_VALUE`. -/
def isSet (value : GValue) : Bool := value.gtype != .invalid

theorem isSet_eq_false {value : GValue} : value.isSet = false ↔ value = invalid := by
  cases value <;> simp [isSet, gtype]

@[simp] theorem isSet_invalid : invalid.isSet = false := rfl

/-- The contents `g_value_init` gives a value of a type. -/
def zero : GType → GValue
  | .invalid => invalid
  | .none => invalid
  | .string => string none
  | .uchar => uchar 0
  | .char => char 0
  | .uint => uint 0
  | .int => int 0
  | .uint64 => uint64 0
  | .int64 => int64 0
  | .float => float 0
  | .double => double 0
  | .boolean => boolean false
  | .uint16 => uint16 0
  | .int16 => int16 0
  | .strv => strv []
  | .ptrArray => ptrArrayNull
  | .other id => other id 0

mutual

def same : GValue → GValue → Bool
  | invalid, invalid => true
  | string s, string t => s == t
  | uchar m, uchar n => m == n
  | char m, char n => m == n
  | uint m, uint n => m == n
  | int m, int n => m == n
  | uint64 m, uint64 n => m == n
  | int64 m, int64 n => m == n
  | float m, float n => m == n
  | double m, double n => m == n
  | boolean a, boolean b => a == b
  | uint16 m, uint16 n => m == n
  | int16 m, int16 n => m == n
  | strv l, strv m => l == m
  | ptrArrayNull, ptrArrayNull => true
  | ptrArray l, ptrArray m => sameAll l m
  | other i m, other j n => i == j && m == n
  | _, _ => false

def sameAll : List GValue → List GValue → Bool
  | [], [] => true
  | a :: l, b :: m => same a b && sameAll l m
  | _, _ => false

end

mutual

theorem same_iff (a b : GValue) : same a b = true ↔ a = b := by
  cases a with
  | ptrArray l =>
      cases b with
      | ptrArray m => simp [same, sameAll_iff l m]
      | _ => simp [same]
  | _ => cases b <;> simp [same]

theorem sameAll_iff (l m : List GValue) : sameAll l m = true ↔ l = m := by
  cases l with
  | nil => cases m <;> simp [sameAll]
  | cons a l =>
      cases m with
      | nil => simp [sameAll]
      | cons b m => simp [sameAll, same_iff a b, sameAll_iff l m]

end

instance : DecidableEq GValue := fun a b => decidable_of_iff (same a b = true) (same_iff a b)

/-- `esconf_g_value_get_uint16`: 0 for a value of another type. -/
def getUint16 : GValue → UInt16
  | uint16 n => n
  | _ => 0

/-- `g_value_get_uchar`: 0 for a value of another type. -/
def getUchar : GValue → UInt8
  | uchar n => n
  | _ => 0

/-- `==` on the IEEE numbers with the given bits, `half` being the weight of the
sign bit and `infinity` the bits of +∞. -/
def ieeeEqual (half infinity a b : Nat) : Bool :=
  a % half ≤ infinity && b % half ≤ infinity && (a == b || (a % half == 0 && b % half == 0))

def floatEqual (a b : UInt32) : Bool := ieeeEqual (2 ^ 31) 0x7f800000 a.toNat b.toNat

def doubleEqual (a b : UInt64) : Bool := ieeeEqual (2 ^ 63) 0x7ff0000000000000 a.toNat b.toNat

/-- `_esconf_gvalue_is_equal` on two GValues that are there. -/
def isEqual (value1 value2 : GValue) : Bool :=
  if value1.gtype ≠ value2.gtype then false
  else match value1, value2 with
    | invalid, invalid => true
    | char m, char n => m == n
    | uchar m, uchar n => m == n
    | boolean a, boolean b => a == b
    | int m, int n => m == n
    | uint m, uint n => m == n
    | int64 m, int64 n => m == n
    | uint64 m, uint64 n => m == n
    | float m, float n => floatEqual m n
    | double m, double n => doubleEqual m n
    | string s, string t => s == t
    -- The second value is asked for as a guint16, which an int16 gives as 0.
    | int16 m, value2 => m.toInt == (value2.getUint16.toNat : Int)
    | uint16 m, value2 => m == value2.getUint16
    | _, _ => false

theorem isEqual_gtype {a b : GValue} (equal : isEqual a b = true) : a.gtype = b.gtype := by
  by_contra apart
  unfold isEqual at equal
  rw [if_pos apart] at equal
  cases equal

theorem isEqual_invalid_left {value : GValue} (set : value.isSet = true) :
    isEqual invalid value = false := by
  by_contra equal
  have types := isEqual_gtype (by simpa using equal)
  rw [isSet, ← types] at set
  cases set

/-- The same value, or two doubles that are zero. -/
def Agrees (a b : GValue) : Prop :=
  a = b ∨ ∃ m n, a = double m ∧ b = double n ∧ doubleEqual m n = true

theorem ieeeEqual_symm {half infinity a b : Nat} (equal : ieeeEqual half infinity a b = true) :
    ieeeEqual half infinity b a = true := by
  simp only [ieeeEqual, Bool.and_eq_true, Bool.or_eq_true, decide_eq_true_eq, beq_iff_eq] at equal ⊢
  omega

theorem ieeeEqual_trans {half infinity a b c : Nat} (first : ieeeEqual half infinity a b = true)
    (second : ieeeEqual half infinity b c = true) : ieeeEqual half infinity a c = true := by
  simp only [ieeeEqual, Bool.and_eq_true, Bool.or_eq_true, decide_eq_true_eq, beq_iff_eq]
    at first second ⊢
  obtain ⟨⟨low, _⟩, rfl | zeros⟩ := first
  · exact second
  · obtain ⟨⟨_, high⟩, rfl | ends⟩ := second
    · exact ⟨⟨low, high⟩, Or.inr zeros⟩
    · exact ⟨⟨low, high⟩, Or.inr ⟨zeros.1, ends.2⟩⟩

namespace Agrees

variable {a b c : GValue}

theorem refl (a : GValue) : Agrees a a := Or.inl rfl

theorem symm (agrees : Agrees a b) : Agrees b a := by
  rcases agrees with rfl | ⟨m, n, rfl, rfl, equal⟩
  · exact refl a
  · exact Or.inr ⟨n, m, rfl, rfl, ieeeEqual_symm equal⟩

theorem trans (first : Agrees a b) (second : Agrees b c) : Agrees a c := by
  rcases first with rfl | ⟨m, n, rfl, rfl, equal⟩
  · exact second
  · rcases second with rfl | ⟨_, o, ⟨⟩, rfl, again⟩
    · exact Or.inr ⟨m, n, rfl, rfl, equal⟩
    · exact Or.inr ⟨m, o, rfl, rfl, ieeeEqual_trans equal again⟩

theorem gtype (agrees : Agrees a b) : a.gtype = b.gtype := by
  rcases agrees with rfl | ⟨m, n, rfl, rfl, _⟩
  · rfl
  · rfl

/-- The types on which `_esconf_gvalue_is_equal` tells different values apart, but for the
sign of a zero. -/
theorem of_isEqual (short : b.gtype ≠ .int16) (single : b.gtype ≠ .float)
    (equal : isEqual a b = true) : Agrees a b := by
  have same := isEqual_gtype equal
  unfold isEqual at equal
  rw [if_neg (not_not.mpr same)] at equal
  cases b with
  | int16 n => exact absurd rfl short
  | float bits => exact absurd rfl single
  | double n =>
      cases a with
      | double m => exact Or.inr ⟨m, n, rfl, rfl, equal⟩
      | _ => cases same
  | _ =>
      cases a <;> first
        | exact Or.inl (congrArg _ (LawfulBEq.eq_of_beq equal))
        | exact Or.inl rfl
        | exact absurd equal Bool.false_ne_true
        | cases same

end Agrees

end GValue

end Esconf
