import Esconf.GValue
import Esconf.Host

/-! The conversions of `common/esconf-gvaluefuncs.c` between GValues and the
GVariants that travel over the bus. -/

namespace Esconf

/-- `variants` is an array of variants, `strv` an array of strings; a GVariant of
a type the sources have no case for is `other`. -/
inductive GVariant where
  | byte (n : UInt8)
  | boolean (b : Bool)
  | int16 (n : Int16)
  | uint16 (n : UInt16)
  | int32 (n : Int32)
  | uint32 (n : UInt32)
  | int64 (n : Int64)
  | uint64 (n : UInt64)
  | double (bits : UInt64)
  | string (text : CString)
  | strv (list : List CString)
  | variants (elements : List GVariant)
  | variant (inner : GVariant)
  | other (id : Nat)

variable (host : Host)

/-- `g_variant_new_string` of what `g_dbus_gvalue_to_gvariant` makes of a string. -/
def stringVariant (text : Option CString) : Option GVariant :=
  if host.utf8Validate (text.getD []) then some (.string (text.getD [])) else none

/-- `esconf_basic_gvalue_to_gvariant`. The 16-bit types are asked for as a gint
and a guint, which gives 0. -/
def esconfBasicGvalueToGvariant : GValue → Option GVariant
  | .uint n => some (.uint32 n)
  | .int n => some (.int32 n)
  | .boolean b => some (.boolean b)
  | .uchar n => some (.byte n)
  | .int64 n => some (.int64 n)
  | .uint64 n => some (.uint64 n)
  | .double bits => some (.double bits)
  | .string text => stringVariant host text
  | .int16 _ => some (.int16 0)
  | .uint16 _ => some (.uint16 0)
  | .char n => some (.int16 n.toInt16)
  | _ => none

/-- `esconf_gvalue_to_gvariant`. The elements of an array are put into variants; those that
cannot be converted are left out, and an array builder that was given no element has no type
to end with. -/
def esconfGvalueToGvariant : GValue → Option GVariant
  | .ptrArrayNull => none
  | .ptrArray [] => some (.variants [])
  | .ptrArray elements =>
    -- The elements that cannot be converted are skipped.
    match elements.filterMap (esconfBasicGvalueToGvariant host) with
    | [] => none
    | children => some (.variants (children.map .variant))
  | .strv list => some (.strv list)
  | value => esconfBasicGvalueToGvariant host value

/-- `esconf_basic_gvariant_to_gvalue`. -/
def esconfBasicGvariantToGvalue : GVariant → Option GValue
  | .uint16 n => some (.uint n.toUInt32)
  | .int16 n => some (.int n.toInt32)
  | .uint32 n => some (.uint n)
  | .int32 n => some (.int n)
  | .uint64 n => some (.uint64 n)
  | .int64 n => some (.int64 n)
  | .boolean b => some (.boolean b)
  | .byte n => some (.uchar n)
  | .string text => some (.string (some text))
  | .double bits => some (.double bits)
  | _ => none

/-- An element of an array of variants; one that is not basic stays unset. -/
def elementValue : GVariant → GValue
  | .variant inner => (esconfBasicGvariantToGvalue inner).getD .invalid
  | inner => (esconfBasicGvariantToGvalue inner).getD .invalid

/-- `esconf_gvariant_to_gvalue`, which takes one variant off first. -/
def esconfGvariantToGvalue (inVariant : GVariant) : Option GValue :=
  match (match inVariant with | .variant inner => inner | plain => plain) with
  | .variants elements => some (.ptrArray (elements.map elementValue))
  | .strv list => some (.strv list)
  | basic => esconfBasicGvariantToGvalue basic

def unboxed : GVariant → GVariant
  | .variant inner => inner
  | plain => plain

theorem esconfGvariantToGvalue_unboxed (variant : GVariant) :
    esconfGvariantToGvalue variant = match unboxed variant with
      | .variants elements => some (.ptrArray (elements.map elementValue))
      | .strv list => some (.strv list)
      | basic => esconfBasicGvariantToGvalue basic := by
  cases variant <;> rfl

theorem elementValue_unboxed (element : GVariant) :
    elementValue element = (esconfBasicGvariantToGvalue (unboxed element)).getD .invalid := by
  cases element <;> rfl

theorem esconfGvariantToGvalue_gtype {variant : GVariant} {value : GValue}
    (converted : esconfGvariantToGvalue variant = some value) :
    value.gtype ≠ .int16 ∧ value.gtype ≠ .float ∧ value.isSet = true := by
  rw [esconfGvariantToGvalue_unboxed] at converted
  cases shape : unboxed variant <;> rw [shape] at converted <;> cases converted <;>
    exact ⟨nofun, nofun, rfl⟩

/-- A value of a scalar type that is compared and converted without loss. -/
def ExactValue : GValue → Prop
  | .uchar _ | .boolean _ | .int _ | .uint _ | .int64 _ | .uint64 _ => True
  | .string (some text) => host.utf8Validate text = true
  | _ => False

variable {host}

theorem ExactValue.converted {value : GValue} (exactly : ExactValue host value) :
    ∃ sent, esconfGvalueToGvariant host value = some sent ∧
      esconfGvariantToGvalue (.variant sent) = some value ∧
      esconfGvariantToGvalue sent = some value := by
  cases value with
  | uchar n => exact ⟨.byte n, rfl, rfl, rfl⟩
  | boolean b => exact ⟨.boolean b, rfl, rfl, rfl⟩
  | int n => exact ⟨.int32 n, rfl, rfl, rfl⟩
  | uint n => exact ⟨.uint32 n, rfl, rfl, rfl⟩
  | int64 n => exact ⟨.int64 n, rfl, rfl, rfl⟩
  | uint64 n => exact ⟨.uint64 n, rfl, rfl, rfl⟩
  | string text =>
      cases text with
      | none => exact exactly.elim
      | some text => exact ⟨.string text, if_pos exactly, rfl, rfl⟩
  | _ => exact exactly.elim

theorem ExactValue.isEqual_iff {first second : GValue} (one : ExactValue host first)
    (two : ExactValue host second) : GValue.isEqual first second = true ↔ first = second := by
  constructor
  · intro equal
    have same := GValue.isEqual_gtype equal
    unfold GValue.isEqual at equal
    rw [if_neg (not_not.mpr same)] at equal
    cases first <;> first | exact one.elim | skip
    all_goals cases second <;> first | exact two.elim | cases same; done | skip
    all_goals exact congrArg _ (LawfulBEq.eq_of_beq equal)
  · intro same
    subst same
    unfold GValue.isEqual
    rw [if_neg (not_not.mpr rfl)]
    cases first <;> first | exact one.elim | skip
    all_goals exact beq_self_eq_true _

/-- Values that come back from the bus, none of which is taken for another. -/
structure ExactValues (host : Host) (S : GValue → Prop) : Prop where
  sent : ∀ value, S value → ∃ val, esconfGvalueToGvariant host value = some val ∧
    esconfGvariantToGvalue (.variant val) = some value ∧ esconfGvariantToGvalue val = some value
  equal : ∀ first second, S first → S second →
    GValue.isEqual first second = true → first = second

theorem exactValues_scalar (host : Host) : ExactValues host (ExactValue host) :=
  ⟨fun _ exactly => exactly.converted, fun _ _ one two => (one.isEqual_iff two).mp⟩

end Esconf
