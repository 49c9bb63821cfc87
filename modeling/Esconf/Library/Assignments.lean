import Mathlib.Data.List.Basic
import Mathlib.Logic.Function.Basic

/-! Lists of assignments to keys, of which the last one under a key counts. -/

namespace Assignments

variable {κ ν α : Type} [DecidableEq κ]

/-- What the last assignment to a key gives. -/
def last (entries : List (κ × ν)) (key : κ) : Option ν :=
  (entries.reverse.find? fun entry => decide (entry.1 = key)).map Prod.snd

theorem last_append (front back : List (κ × ν)) (key : κ) :
    last (front ++ back) key = (last back key).or (last front key) := by
  rw [last, List.reverse_append, List.find?_append]
  cases found : back.reverse.find? fun entry => decide (entry.1 = key) with
  | none => rw [last, found, Option.none_or, Option.map_none, Option.none_or, last]
  | some entry => rw [last, found, Option.some_or, Option.map_some, Option.some_or]

theorem last_singleton (key other : κ) (value : ν) :
    last [(key, value)] other = if key = other then some value else none := by
  by_cases same : key = other
  · rw [if_pos same, last, List.reverse_singleton, List.find?_singleton, if_pos (decide_eq_true same)]
    rfl
  · rw [if_neg same, last, List.reverse_singleton, List.find?_singleton, if_neg]
    · rfl
    · simpa using same

theorem last_cons (key other : κ) (value : ν) (rest : List (κ × ν)) :
    last ((key, value) :: rest) other =
      (last rest other).or (if key = other then some value else none) := by
  rw [← last_singleton key other value, ← last_append, List.singleton_append]

theorem last_isSome {entries : List (κ × ν)} {key : κ} :
    (last entries key).isSome = true ↔ ∃ value, (key, value) ∈ entries := by
  rw [last, Option.isSome_map, List.find?_isSome]
  constructor
  · intro found
    obtain ⟨entry, member, same⟩ := found
    refine ⟨entry.2, ?_⟩
    rw [← of_decide_eq_true same]
    exact List.mem_reverse.mp member
  · intro member
    obtain ⟨value, member⟩ := member
    exact ⟨(key, value), List.mem_reverse.mpr member, decide_eq_true rfl⟩

theorem mem_of_last {entries : List (κ × ν)} {key : κ} {value : ν}
    (given : last entries key = some value) : (key, value) ∈ entries := by
  obtain ⟨entry, found, held⟩ := Option.map_eq_some_iff.mp given
  have member := List.mem_reverse.mp (List.mem_of_find?_eq_some found)
  have keyed : entry.1 = key := by simpa using List.find?_some found
  rw [← keyed, ← held]
  exact member

theorem last_eq_some {entries : List (κ × ν)}
    (single : ∀ key first second, (key, first) ∈ entries → (key, second) ∈ entries →
      first = second) {key : κ} {value : ν} :
    last entries key = some value ↔ (key, value) ∈ entries := by
  constructor
  · exact mem_of_last
  · intro member
    obtain ⟨other, given⟩ := Option.isSome_iff_exists.mp (last_isSome.mpr ⟨value, member⟩)
    rw [given, single key other value (mem_of_last given) member]

def carryOut (write : ν → α → α) : List (κ × ν) → (κ → α) → κ → α
  | [], slots => slots
  | (key, value) :: rest, slots =>
    carryOut write rest (Function.update slots key (write value (slots key)))

theorem carryOut_append (write : ν → α → α) (front back : List (κ × ν)) (slots : κ → α) :
    carryOut write (front ++ back) slots = carryOut write back (carryOut write front slots) := by
  induction front generalizing slots with
  | nil => rfl
  | cons entry rest ih => exact ih _

/-- Where a write leaves nothing of an earlier one, only the last assignment shows. -/
theorem carryOut_last {write : ν → α → α}
    (forgets : ∀ new old slot, write new (write old slot) = write new slot)
    (entries : List (κ × ν)) (slots : κ → α) (key : κ) :
    carryOut write entries slots key =
      ((last entries key).map fun value => write value (slots key)).getD (slots key) := by
  induction entries generalizing slots with
  | nil => rfl
  | cons entry rest ih =>
      obtain ⟨other, value⟩ := entry
      rw [carryOut, ih, last_cons]
      by_cases same : other = key
      · rw [same, Function.update_self, if_pos rfl]
        cases last rest key with
        | none => rfl
        | some newer => exact forgets newer value (slots key)
      · rw [Function.update_of_ne (Ne.symm same), if_neg same, Option.or_none]

end Assignments
