import Mathlib.Data.List.Chain
import Mathlib.Logic.Function.Basic

/-! Records in memory: fields of several types, each placed after the one before it. -/

namespace RecordFields

variable {T : Type} {C : T → Type}

abbrev Memory (C : T → Type) := Nat → (type : T) → C type

/-- `place` is where a field of a type starts if the fields before it end at an offset. -/
structure Layout (T : Type) where
  place : Nat → T → Nat
  size : T → Nat
  forward : ∀ offset type, offset ≤ place offset type
  sized : ∀ type, 0 < size type

variable (layout : Layout T)

/-- The offsets and types of the fields from an offset on. -/
def fields : Nat → List T → List (Nat × T)
  | _, [] => []
  | offset, type :: rest =>
    (layout.place offset type, type) ::
      fields (layout.place offset type + layout.size type) rest

def fieldsEnd : Nat → List T → Nat
  | offset, [] => offset
  | offset, type :: rest => fieldsEnd (layout.place offset type + layout.size type) rest

def store [DecidableEq T] (memory : Memory C) (offset : Nat) {type : T} (value : C type) : Memory C :=
  Function.update memory offset (Function.update (memory offset) type value)

def SameFields (types : List T) (after before : Memory C) : Prop :=
  ∀ field ∈ fields layout 0 types, after field.1 field.2 = before field.1 field.2

@[simp] theorem store_same [DecidableEq T] (memory : Memory C) (offset : Nat) {type : T}
    (value : C type) :
    store memory offset value offset type = value := by
  simp [store]

theorem store_apart [DecidableEq T] (memory : Memory C) {offset other : Nat} {type : T} (value : C type)
    (apart : other ≠ offset) : store memory offset value other = memory other := by
  simp [store, apart]

variable {layout}

@[simp] theorem fields_length (types : List T) : ∀ offset,
    (fields layout offset types).length = types.length := by
  induction types with
  | nil =>
      intro offset
      rfl
  | cons type rest ih =>
      intro offset
      simp [fields, ih]

theorem fields_types (types : List T) : ∀ offset,
    (fields layout offset types).map Prod.snd = types := by
  induction types with
  | nil => exact fun _ => rfl
  | cons type rest ih =>
      intro offset
      rw [fields, List.map_cons, ih]

theorem le_fieldsEnd (types : List T) : ∀ offset, offset ≤ fieldsEnd layout offset types := by
  induction types with
  | nil => exact fun _ => Nat.le_refl _
  | cons type rest ih =>
      intro offset
      have forward := layout.forward offset type
      have later := ih (layout.place offset type + layout.size type)
      rw [fieldsEnd]
      omega

theorem le_of_mem_fields {types : List T} : ∀ {offset : Nat} {field : Nat × T},
    field ∈ fields layout offset types → offset ≤ field.1 := by
  induction types with
  | nil => simp [fields]
  | cons type rest ih =>
      intro offset field member
      have forward := layout.forward offset type
      rcases List.mem_cons.mp member with first | later
      · rw [first]
        exact forward
      · have further := ih later
        omega

theorem placed_of_mem_fields {types : List T} : ∀ {offset : Nat} {field : Nat × T},
    field ∈ fields layout offset types → ∃ free, field.1 = layout.place free field.2 := by
  induction types with
  | nil => simp [fields]
  | cons type rest ih =>
      intro offset field member
      rcases List.mem_cons.mp member with first | later
      · exact ⟨offset, by rw [first]⟩
      · exact ih later

theorem fields_isChain (types : List T) : ∀ offset,
    (fields layout offset types).IsChain fun before field =>
      field.1 = layout.place (before.1 + layout.size before.2) field.2 := by
  induction types with
  | nil =>
      intro offset
      exact List.IsChain.nil
  | cons type rest ih =>
      intro offset
      rw [fields, List.isChain_cons]
      refine ⟨?_, ih _⟩
      cases rest with
      | nil => simp [fields]
      | cons next more =>
          intro field first
          cases first
          rfl

theorem fields_pairwise (types : List T) : ∀ offset,
    (fields layout offset types).Pairwise fun before field =>
      before.1 + layout.size before.2 ≤ field.1 := by
  induction types with
  | nil =>
      intro offset
      exact List.Pairwise.nil
  | cons type rest ih =>
      intro offset
      exact List.Pairwise.cons (fun _ later => le_of_mem_fields later) (ih _)

end RecordFields
