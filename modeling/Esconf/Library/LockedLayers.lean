import Mathlib.Data.List.Basic

/-! Configuration made of layers, the later ones over the earlier ones, where a
layer may lock what follows: the first locking layer starts anew, and from then
on only locking layers count. -/

namespace LockedLayers

variable {κ ν : Type}

structure Layer (κ ν : Type) where
  locks : Bool
  entries : κ → Option ν

@[ext] structure Store (κ ν : Type) where
  locked : Bool
  values : κ → ν

def empty (blank : ν) : Store κ ν := ⟨false, fun _ => blank⟩

def overlay (values : κ → ν) (entries : κ → Option ν) (k : κ) : ν := (entries k).getD (values k)

def merge (blank : ν) (store : Store κ ν) (layer : Layer κ ν) : Store κ ν :=
  match store.locked, layer.locks with
  | true, false => store
  | false, true => ⟨true, overlay (fun _ => blank) layer.entries⟩
  | true, true => ⟨true, overlay store.values layer.entries⟩
  | false, false => ⟨false, overlay store.values layer.entries⟩

def mergeAll (blank : ν) (layers : List (Layer κ ν)) (store : Store κ ν) : Store κ ν :=
  layers.foldl (merge blank) store

theorem merge_skip (blank : ν) {store : Store κ ν} {layer : Layer κ ν} (locked : store.locked = true)
    (open' : layer.locks = false) : merge blank store layer = store := by
  unfold merge
  rw [locked, open']

theorem merge_anew (blank : ν) {store : Store κ ν} {layer : Layer κ ν}
    (unlocked : store.locked = false) (locks : layer.locks = true) :
    merge blank store layer = ⟨true, overlay (fun _ => blank) layer.entries⟩ := by
  unfold merge
  rw [unlocked, locks]

theorem merge_over (blank : ν) {store : Store κ ν} {layer : Layer κ ν}
    (same : store.locked = layer.locks) :
    merge blank store layer = ⟨store.locked, overlay store.values layer.entries⟩ := by
  unfold merge
  rw [same]
  cases layer.locks <;> rfl

def FromLocking (blank : ν) (layers : List (Layer κ ν)) (store : Store κ ν) : Prop :=
  store.locked = true → ∀ k, store.values k = blank ∨
    ∃ layer ∈ layers, layer.locks = true ∧ layer.entries k = some (store.values k)

theorem fromLocking_merge {blank : ν} {seen : List (Layer κ ν)} {store : Store κ ν}
    (sound : FromLocking blank seen store) (layer : Layer κ ν) :
    FromLocking blank (seen ++ [layer]) (merge blank store layer) := by
  have older : store.locked = true → ∀ k, store.values k = blank ∨
      ∃ earlier ∈ seen ++ [layer], earlier.locks = true ∧
        earlier.entries k = some (store.values k) := by
    intro locked k
    rcases sound locked k with empty | ⟨earlier, member, found⟩
    · exact Or.inl empty
    · exact Or.inr ⟨earlier, List.mem_append_left _ member, found⟩
  intro locked k
  unfold merge at locked ⊢
  cases before : store.locked <;> cases locks : layer.locks <;> rw [before, locks] at locked <;>
    simp only at locked ⊢
  · cases locked
  · cases entry : layer.entries k with
    | none => exact Or.inl (by simp [overlay, entry])
    | some value => exact Or.inr ⟨layer, by simp, locks, by simp [overlay, entry]⟩
  · exact older before k
  · cases entry : layer.entries k with
    | none => simpa [overlay, entry] using older before k
    | some value => exact Or.inr ⟨layer, by simp, locks, by simp [overlay, entry]⟩

theorem fromLocking_mergeAll {blank : ν} (layers seen : List (Layer κ ν)) {store : Store κ ν}
    (sound : FromLocking blank seen store) :
    FromLocking blank (seen ++ layers) (mergeAll blank layers store) := by
  induction layers generalizing seen store with
  | nil => simpa [mergeAll] using sound
  | cons layer rest ih =>
      have later := ih (seen ++ [layer]) (fromLocking_merge sound layer)
      rw [List.append_assoc] at later
      exact later

/-- Started from nothing, a locked store gives only what locking layers say. -/
theorem mergeAll_fromLocking (blank : ν) (layers : List (Layer κ ν)) :
    FromLocking blank layers (mergeAll blank layers (empty blank)) :=
  fromLocking_mergeAll layers [] nofun

end LockedLayers
