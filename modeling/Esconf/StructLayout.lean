import Esconf.Library.AlignedWords
import Esconf.StructValues

/-! Where `esconf_channel_set_structv` and `esconf_channel_get_structv` look for the members of
a struct: the two switches, and their loops on offsets that are gsizes. -/

namespace Esconf.Client

open RecordFields AlignedWords

abbrev Gsize := BitVec 64

/-- `ALIGN_VAL` of gsizes. The complement is that of an int, whose sign fills the upper half. -/
def alignValGsize (val align : Gsize) : Gsize := (val + (align - 1)) &&& ~~~(align - 1)

inductive MemberCType where
  | gcharPointer | guchar | gchar | guint32 | gint32 | guint64 | gint64 | gfloat | gdouble
  | gboolean | guint16 | gint16
  deriving DecidableEq

/-- The `ALIGNOF_*` constants. -/
inductive Alignof where
  | gpointer | guchar | gchar | guint32 | gint32 | guint64 | gint64 | gfloat | gdouble | gboolean
  | guint16 | gint16
  deriving DecidableEq

/-- The C type whose alignment a constant is; pointers are all aligned alike. -/
def Alignof.ctype : Alignof → MemberCType
  | .gpointer => .gcharPointer
  | .guchar => .guchar
  | .gchar => .gchar
  | .guint32 => .guint32
  | .gint32 => .gint32
  | .guint64 => .guint64
  | .gint64 => .gint64
  | .gfloat => .gfloat
  | .gdouble => .gdouble
  | .gboolean => .gboolean
  | .guint16 => .guint16
  | .gint16 => .gint16

abbrev Member := MemberCType × Alignof

structure Abi where
  sizeof : MemberCType → Gsize
  alignof : MemberCType → Gsize
  sized : ∀ ctype, 0 < (sizeof ctype).toNat
  power : ∀ ctype, ∃ k, (alignof ctype).toNat = 2 ^ k

def Abi.constant (abi : Abi) (constant : Alignof) : Gsize := abi.alignof constant.ctype

/-- The C type that a struct has for a GType, whatever the switches say. -/
def cTypeOf : GType → Option MemberCType
  | .string => some .gcharPointer
  | .uchar => some .guchar
  | .char => some .gchar
  | .uint => some .guint32
  | .int => some .gint32
  | .uint64 => some .guint64
  | .int64 => some .gint64
  | .float => some .gfloat
  | .double => some .gdouble
  | .boolean => some .gboolean
  | .uint16 => some .guint16
  | .int16 => some .gint16
  | _ => none

/-- The platform of the sizes and alignments of these C types. -/
def Abi.platform (abi : Abi) : Platform where
  sizeOf := fun type => ((cTypeOf type).map fun ctype => (abi.sizeof ctype).toNat).getD 1
  alignOf := fun type => ((cTypeOf type).map fun ctype => (abi.alignof ctype).toNat).getD 1
  sized := by
    intro type
    cases cTypeOf type with
    | none => exact Nat.one_pos
    | some ctype => exact abi.sized ctype

/-- The switch of `esconf_channel_set_structv`. -/
def setStructvMember : GType → Option Member
  | .string => some (.gcharPointer, .gpointer)
  | .uchar => some (.guchar, .guchar)
  | .char => some (.gchar, .gchar)
  | .uint => some (.guint32, .guint32)
  | .int => some (.gint32, .gint32)
  | .uint64 => some (.guint64, .guint64)
  | .int64 => some (.gint64, .gint64)
  | .float => some (.gfloat, .gfloat)
  | .double => some (.gdouble, .gdouble)
  | .boolean => some (.gboolean, .gboolean)
  | .uint16 => some (.guint16, .guint16)
  | .int16 => some (.gint16, .gint16)
  | _ => none

/-- The switch of `esconf_channel_get_structv`. -/
def getStructvMember : GType → Option Member
  | .string => some (.gcharPointer, .gpointer)
  | .uchar => some (.guchar, .guchar)
  | .char => some (.gchar, .gchar)
  | .uint => some (.guint32, .guint32)
  | .int => some (.gint32, .gint32)
  | .uint64 => some (.guint64, .guint64)
  | .int64 => some (.gint64, .gint64)
  | .float => some (.gfloat, .gfloat)
  | .double => some (.gdouble, .gdouble)
  | .boolean => some (.gboolean, .gboolean)
  | .uint16 => some (.guint16, .guint16)
  | .int16 => some (.gint16, .gint16)
  | _ => none

/-- A load or a store through `__val_p`. -/
structure Visit where
  offset : Gsize
  member : Member

/-- The loop of `esconf_channel_set_structv`: whether it comes to its end, and its loads. -/
def setStructvVisits (abi : Abi) : Gsize → List GType → Bool × List Visit
  | _, [] => (true, [])
  | curOffset, type :: rest =>
    match setStructvMember type with
    | none => (false, [])
    | some member =>
      let curOffset := alignValGsize curOffset (abi.constant member.2)
      let later := setStructvVisits abi (curOffset + abi.sizeof member.1) rest
      (later.1, ⟨curOffset, member⟩ :: later.2)

/-- The loop of `esconf_channel_get_structv`, which checks the type of each value first:
whether it comes to its end, and its stores. -/
def getStructvVisits (abi : Abi) : Gsize → List GType → List GValue → Bool × List Visit
  | curOffset, type :: types, val :: vals =>
    match getStructvMember type with
    | none => (false, [])
    | some member =>
      if (setStructVal type val).isNone then (false, [])
      else
        let curOffset := alignValGsize curOffset (abi.constant member.2)
        let later := getStructvVisits abi (curOffset + abi.sizeof member.1) types vals
        (later.1, ⟨curOffset, member⟩ :: later.2)
  | _, _, _ => (true, [])

/-- The first field is at the start, each other one at the next multiple of the alignment of
its type; all are aligned, in order and apart. -/
structure LaidOut (platform : Platform) (fields : List (Nat × GType)) : Prop where
  first : ∀ field ∈ fields.head?, field.1 = 0
  next : fields.IsChain fun before field =>
    IsLeast {offset | platform.alignOf field.2 ∣ offset ∧
      before.1 + platform.sizeOf before.2 ≤ offset} field.1
  aligned : ∀ field ∈ fields, platform.alignOf field.2 ∣ field.1
  apart : fields.Pairwise fun before field => before.1 + platform.sizeOf before.2 ≤ field.1

/-- A case has the C type of its GType, and the constant that is the alignment of that. -/
theorem setStructvMember_some {type : GType} {member : Member}
    (case : setStructvMember type = some member) :
    cTypeOf type = some member.1 ∧ member.2.ctype = member.1 := by
  cases type <;> cases case <;> exact ⟨rfl, rfl⟩

theorem getStructvMember_eq (type : GType) : getStructvMember type = setStructvMember type := by
  cases type <;> rfl

section

variable {abi : Abi} {types : List GType}

theorem Abi.isLeast_place (abi : Abi) (offset : Nat) (type : GType) :
    IsLeast {place | abi.platform.alignOf type ∣ place ∧ offset ≤ place}
      (abi.platform.layout.place offset type) := by
  have power : ∃ k, abi.platform.alignOf type = 2 ^ k := by
    change ∃ k, ((cTypeOf type).map _).getD 1 = 2 ^ k
    cases cTypeOf type with
    | none => exact ⟨0, rfl⟩
    | some ctype => exact abi.power ctype
  obtain ⟨k, power⟩ := power
  change IsLeast _ (roundUp offset (abi.platform.alignOf type))
  rw [power]
  exact isLeast_roundUp offset k

theorem Abi.of_case (abi : Abi) {type : GType} {member : Member}
    (case : setStructvMember type = some member) :
    (abi.constant member.2).toNat = abi.platform.alignOf type ∧
      (abi.sizeof member.1).toNat = abi.platform.sizeOf type := by
  obtain ⟨ctype, same⟩ := setStructvMember_some case
  have aligned : abi.platform.alignOf type = (abi.alignof member.1).toNat := by
    change ((cTypeOf type).map _).getD 1 = _
    rw [ctype]
    rfl
  have sized : abi.platform.sizeOf type = (abi.sizeof member.1).toNat := by
    change ((cTypeOf type).map _).getD 1 = _
    rw [ctype]
    rfl
  rw [aligned, sized, Abi.constant, same]
  exact ⟨rfl, rfl⟩

theorem Abi.align_toNat (abi : Abi) {curOffset : Gsize} {type : GType} {member : Member}
    (case : setStructvMember type = some member)
    (small : abi.platform.layout.place curOffset.toNat type < 2 ^ 63) :
    (alignValGsize curOffset (abi.constant member.2)).toNat =
      abi.platform.layout.place curOffset.toNat type := by
  obtain ⟨k, power⟩ := abi.power member.2.ctype
  have align := (abi.of_case case).1
  have above : curOffset.toNat ≤ abi.platform.layout.place curOffset.toNat type :=
    (abi.isLeast_place curOffset.toNat type).1.2
  have wide : k ≤ 63 := by
    have bound := (abi.alignof member.2.ctype).isLt
    rw [power] at bound
    exact Nat.lt_succ_iff.mp ((Nat.pow_lt_pow_iff_right (by decide)).mp bound)
  have half : 2 ^ k ≤ 2 ^ 63 := Nat.pow_le_pow_right (by decide) wide
  have positive : 0 < 2 ^ k := Nat.two_pow_pos k
  change _ = roundUp curOffset.toNat (abi.platform.alignOf type)
  rw [← align]
  rw [← Abi.constant] at power
  apply roundUpWord_toNat
  · omega
  · omega

theorem setStructvVisits_fields : ∀ {curOffset : Gsize},
    (∀ type ∈ types, (setStructvMember type).isSome = true) →
    fieldsEnd abi.platform.layout curOffset.toNat types < 2 ^ 63 →
    (setStructvVisits abi curOffset types).1 = true ∧
      (setStructvVisits abi curOffset types).2.map (fun visit => some visit.member) =
        types.map setStructvMember ∧
      (setStructvVisits abi curOffset types).2.map (fun visit => visit.offset.toNat) =
        (fields abi.platform.layout curOffset.toNat types).map Prod.fst := by
  induction types with
  | nil => exact fun _ _ => ⟨rfl, rfl, rfl⟩
  | cons type rest ih =>
      intro curOffset accepted small
      obtain ⟨member, case⟩ := Option.isSome_iff_exists.mp (accepted type List.mem_cons_self)
      rw [fieldsEnd] at small
      have ends := @le_fieldsEnd GType abi.platform.layout rest
        (abi.platform.layout.place curOffset.toNat type + abi.platform.layout.size type)
      have place : (alignValGsize curOffset (abi.constant member.2)).toNat =
          abi.platform.layout.place curOffset.toNat type := abi.align_toNat case (by omega)
      have size : (abi.sizeof member.1).toNat = abi.platform.layout.size type :=
        (abi.of_case case).2
      have sum : (alignValGsize curOffset (abi.constant member.2) + abi.sizeof member.1).toNat =
          abi.platform.layout.place curOffset.toNat type + abi.platform.layout.size type := by
        have fits : abi.platform.layout.place curOffset.toNat type +
            abi.platform.layout.size type < 2 ^ 64 := by
          omega
        rw [← place, ← size] at fits ⊢
        exact BitVec.toNat_add_of_lt fits
      rw [← sum] at small
      obtain ⟨finished, members, visited⟩ :=
        ih (fun other inside => accepted other (List.mem_cons_of_mem _ inside)) small
      rw [setStructvVisits, case]
      refine ⟨finished, ?_, ?_⟩
      · rw [List.map_cons, List.map_cons, members, case]
      · rw [fields, ← place, List.map_cons, List.map_cons, visited, sum, place]

/-- The loop of a get visits the members that the one of a set does, up to a value that is of
another type. -/
theorem getStructvVisits_isPrefix : ∀ {curOffset : Gsize} {vals : List GValue},
    (getStructvVisits abi curOffset types vals).2 <+: (setStructvVisits abi curOffset types).2 := by
  induction types with
  | nil => exact fun {_ _} => List.nil_prefix
  | cons type rest ih =>
      intro curOffset vals
      cases vals with
      | nil => exact List.nil_prefix
      | cons val vals =>
          rw [getStructvVisits, setStructvVisits, getStructvMember_eq]
          cases setStructvMember type with
          | none => exact List.nil_prefix
          | some member =>
              dsimp only
              split
              · exact List.nil_prefix
              · exact (List.prefix_cons_inj _).mpr ih

theorem getStructvVisits_eq : ∀ {curOffset : Gsize} {vals : List GValue},
    List.Forall₂ (fun type val => (setStructVal type val).isSome = true) types vals →
    getStructvVisits abi curOffset types vals = setStructvVisits abi curOffset types := by
  induction types with
  | nil =>
      intro curOffset vals typed
      cases typed
      rfl
  | cons type rest ih =>
      intro curOffset vals typed
      cases typed with
      | @cons _ val _ _ first later =>
          rw [getStructvVisits, setStructvVisits, getStructvMember_eq]
          cases setStructvMember type with
          | none => rfl
          | some member =>
              have taken : (setStructVal type val).isNone = false :=
                Option.isNone_eq_false_iff.mpr first
              dsimp only
              rw [taken, if_neg Bool.false_ne_true, ih later]

theorem visits_fields (accepted : ∀ type ∈ types, (setStructvMember type).isSome = true)
    (small : fieldsEnd abi.platform.layout 0 types < 2 ^ 63) :
    ((setStructvVisits abi 0 types).2.map fun visit => visit.offset.toNat).zip types =
      fields abi.platform.layout 0 types := by
  have visited := (@setStructvVisits_fields abi types 0 accepted small).2.2
  have zero : (0 : Gsize).toNat = 0 := rfl
  rw [zero] at visited
  calc
    _ = ((fields abi.platform.layout 0 types).map Prod.fst).zip
          ((fields abi.platform.layout 0 types).map Prod.snd) := by rw [visited, fields_types]
    _ = fields abi.platform.layout 0 types := by rw [List.zip_map', List.map_id']

theorem structValues_visits {valueStruct : ValueStruct} {arr : List GValue}
    (accepted : ∀ type ∈ types, (setStructvMember type).isSome = true)
    (small : fieldsEnd abi.platform.layout 0 types < 2 ^ 63)
    (taken : structValues abi.platform valueStruct 0 types = some arr) :
    List.Forall₂ (fun field value => getStructVal field.2 (valueStruct field.1 field.2) = some value)
      (((setStructvVisits abi 0 types).2.map fun visit => visit.offset.toNat).zip types) arr := by
  rw [visits_fields accepted small]
  exact structValues_takes taken

theorem laidOut_fields (abi : Abi) (types : List GType) :
    LaidOut abi.platform (fields abi.platform.layout 0 types) where
  first := by
    cases types with
    | nil => exact fun _ member => by cases member
    | cons type rest =>
        rintro field ⟨⟩
        exact Nat.le_zero.mp
          ((abi.isLeast_place 0 type).2 ⟨Nat.dvd_zero _, Nat.le_refl 0⟩)
  next := by
    refine (@fields_isChain GType abi.platform.layout types 0).imp ?_
    intro before field placed
    rw [placed]
    exact abi.isLeast_place _ field.2
  aligned := by
    intro field member
    obtain ⟨free, placed⟩ := placed_of_mem_fields member
    rw [placed]
    exact (abi.isLeast_place free field.2).1.1
  apart := @fields_pairwise GType abi.platform.layout types 0

end

/-- Both functions visit the members at the offsets of the struct's layout, if every type has a
case and the struct is smaller than half of what a gsize counts. -/
theorem struct_members_laid_out (abi : Abi) {types : List GType}
    (accepted : ∀ type ∈ types, (setStructvMember type).isSome = true)
    (small : fieldsEnd abi.platform.layout 0 types < 2 ^ 63) :
    ∃ visits, setStructvVisits abi 0 types = (true, visits) ∧
      (∀ vals, List.Forall₂ (fun type val => (setStructVal type val).isSome = true) types vals →
        getStructvVisits abi 0 types vals = (true, visits)) ∧
      (∀ vals, (getStructvVisits abi 0 types vals).2 <+: visits) ∧
      visits.map (fun visit => some visit.member.1) = types.map cTypeOf ∧
      LaidOut abi.platform ((visits.map fun visit => visit.offset.toNat).zip types) := by
  obtain ⟨finished, members, _⟩ := @setStructvVisits_fields abi types 0 accepted small
  have whole : setStructvVisits abi 0 types = (true, (setStructvVisits abi 0 types).2) :=
    Prod.ext finished rfl
  refine ⟨_, whole, fun vals typed => ?_, fun vals => getStructvVisits_isPrefix, ?_, ?_⟩
  · rw [getStructvVisits_eq typed]
    exact whole
  · have ctypes := congrArg (List.map (Option.map Prod.fst)) members
    rw [List.map_map, List.map_map] at ctypes
    refine ctypes.trans (List.map_congr_left fun type member => ?_)
    obtain ⟨found, case⟩ := Option.isSome_iff_exists.mp (accepted type member)
    rw [Function.comp, case, (setStructvMember_some case).1]
    rfl
  · rw [visits_fields accepted small]
    exact laidOut_fields abi types

def Abi.lp64 : Abi where
  sizeof
    | .gcharPointer | .guint64 | .gint64 | .gdouble => 8
    | .guint32 | .gint32 | .gfloat | .gboolean => 4
    | .guint16 | .gint16 => 2
    | .guchar | .gchar => 1
  alignof
    | .gcharPointer | .guint64 | .gint64 | .gdouble => 8
    | .guint32 | .gint32 | .gfloat | .gboolean => 4
    | .guint16 | .gint16 => 2
    | .guchar | .gchar => 1
  sized := by
    intro ctype
    cases ctype <;> decide
  power := by
    intro ctype
    cases ctype with
    | gcharPointer | guint64 | gint64 | gdouble => exact ⟨3, rfl⟩
    | guint32 | gint32 | gfloat | gboolean => exact ⟨2, rfl⟩
    | guint16 | gint16 => exact ⟨1, rfl⟩
    | guchar | gchar => exact ⟨0, rfl⟩

theorem mixed_members_laid_out :
    ∃ visits, setStructvVisits .lp64 0 [.uchar, .double, .int16, .string] = (true, visits) ∧
      visits.map Visit.offset = [0, 8, 16, 24] ∧
      LaidOut Abi.lp64.platform [(0, .uchar), (8, .double), (16, .int16), (24, .string)] := by
  obtain ⟨visits, visited, _, _, _, laidOut⟩ :=
    @struct_members_laid_out .lp64 [.uchar, .double, .int16, .string] (by decide) (by decide)
  cases visited
  exact ⟨_, rfl, by decide, laidOut⟩

end Esconf.Client
