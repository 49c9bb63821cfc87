import Mathlib.Data.List.Infix
import Mathlib.Data.List.TakeWhile

/-! Words cut at a separator, and the paths written by putting the separator in
front of every piece. -/

namespace SeparatedWords

variable {α : Type} [DecidableEq α]

def split (sep : α) : List α → List (List α)
  | [] => [[]]
  | c :: rest =>
    if c = sep then [] :: split sep rest
    else match split sep rest with
      | [] => [[c]]
      | piece :: pieces => (c :: piece) :: pieces

def join (sep : α) (pieces : List (List α)) : List α :=
  pieces.flatMap (sep :: ·)

def Plain (sep : α) (pieces : List (List α)) : Prop :=
  ∀ piece ∈ pieces, sep ∉ piece

def beforeLast (sep : α) (word : List α) : List α :=
  ((word.reverse.dropWhile (fun c => decide (c ≠ sep))).drop 1).reverse

def afterLast (sep : α) (word : List α) : List α :=
  (word.reverse.takeWhile (fun c => decide (c ≠ sep))).reverse

omit [DecidableEq α] in
@[simp] theorem join_nil (sep : α) : join sep [] = [] := rfl

omit [DecidableEq α] in
@[simp] theorem join_cons (sep : α) (piece : List α) (pieces : List (List α)) :
    join sep (piece :: pieces) = sep :: piece ++ join sep pieces := rfl

omit [DecidableEq α] in
@[simp] theorem join_append (sep : α) (front back : List (List α)) :
    join sep (front ++ back) = join sep front ++ join sep back := by
  simp [join]

theorem split_ne_nil (sep : α) (word : List α) : split sep word ≠ [] := by
  cases word with
  | nil => simp [split]
  | cons c rest =>
      rw [split]
      split
      · simp
      · split <;> simp

theorem join_split (sep : α) (word : List α) : join sep (split sep word) = sep :: word := by
  induction word with
  | nil => rfl
  | cons c rest ih =>
      rw [split]
      by_cases same : c = sep
      · rw [if_pos same, join_cons, ih, same]
        rfl
      · rw [if_neg same]
        cases shape : split sep rest with
        | nil => exact absurd shape (split_ne_nil sep rest)
        | cons piece pieces =>
            rw [shape, join_cons] at ih
            simpa using ih

theorem split_plain (sep : α) (word : List α) : Plain sep (split sep word) := by
  induction word with
  | nil => simp [split, Plain]
  | cons c rest ih =>
      rw [split]
      by_cases same : c = sep
      · rw [if_pos same]
        intro piece member
        rcases List.mem_cons.mp member with rfl | later
        · simp
        · exact ih piece later
      · rw [if_neg same]
        cases shape : split sep rest with
        | nil => exact absurd shape (split_ne_nil sep rest)
        | cons piece pieces =>
            rw [shape] at ih
            intro other member
            rcases List.mem_cons.mp member with rfl | later
            · have clean := ih piece (by simp)
              simp [clean, Ne.symm same]
            · exact ih other (by simp [later])

theorem split_piece (sep : α) (piece : List α) (clean : sep ∉ piece) : split sep piece = [piece] := by
  induction piece with
  | nil => rfl
  | cons c rest ih =>
      have apart : c ≠ sep := fun same => clean (by simp [same])
      rw [split, if_neg apart, ih (fun member => clean (by simp [member]))]

theorem split_piece_append (sep : α) (piece rest : List α) (clean : sep ∉ piece) :
    split sep (piece ++ sep :: rest) = piece :: split sep rest := by
  induction piece with
  | nil => rw [List.nil_append, split, if_pos rfl]
  | cons c later ih =>
      have apart : c ≠ sep := fun same => clean (by simp [same])
      rw [List.cons_append, split, if_neg apart, ih (fun member => clean (by simp [member]))]

theorem split_join {sep : α} {pieces : List (List α)} (plain : Plain sep pieces)
    (full : pieces ≠ []) : split sep (join sep pieces).tail = pieces := by
  induction pieces with
  | nil => exact absurd rfl full
  | cons piece rest ih =>
      have clean := plain piece (by simp)
      cases rest with
      | nil => simpa using split_piece sep piece clean
      | cons next later =>
          have tail := ih (fun other member => plain other (by simp [member])) (by simp)
          rw [join_cons, List.cons_append, List.tail_cons]
          rw [join_cons, List.cons_append, List.tail_cons] at tail
          rw [join_cons, List.cons_append, split_piece_append sep piece _ clean, tail]

theorem join_inj {sep : α} {first second : List (List α)} (one : Plain sep first)
    (two : Plain sep second) (same : join sep first = join sep second) : first = second := by
  cases first with
  | nil =>
      cases second with
      | nil => rfl
      | cons piece rest => simp at same
  | cons piece rest =>
      cases second with
      | nil => simp at same
      | cons piece' rest' =>
          rw [← split_join one (by simp), ← split_join two (by simp), same]

omit [DecidableEq α] in
theorem plain_append {sep : α} {front back : List (List α)} :
    Plain sep (front ++ back) ↔ Plain sep front ∧ Plain sep back := by
  simp [Plain, or_imp, forall_and]

theorem below_iff_prefix {sep : α} {upper lower : List (List α)} (one : Plain sep upper)
    (two : Plain sep lower) :
    (join sep lower = join sep upper ∨ (join sep upper ++ [sep]) <+: join sep lower) ↔
      upper <+: lower := by
  constructor
  · rintro (same | ⟨rest, same⟩)
    · rw [join_inj two one same]
    · have written : join sep (upper ++ split sep rest) = join sep lower := by
        rw [join_append, join_split, ← same]
        simp
      have pieces := join_inj (plain_append.mpr ⟨one, split_plain sep rest⟩) two written
      exact ⟨split sep rest, pieces⟩
  · rintro ⟨rest, rfl⟩
    cases rest with
    | nil => exact Or.inl (by simp)
    | cons piece later => exact Or.inr ⟨piece ++ join sep later, by simp⟩

omit [DecidableEq α] in
theorem dropWhile_piece {p : α → Bool} {piece rest : List α} {sep : α}
    (inside : ∀ c ∈ piece, p c = true) (stop : p sep = false) :
    (piece ++ sep :: rest).dropWhile p = sep :: rest := by
  rw [List.dropWhile_append_of_pos inside, List.dropWhile_cons_of_neg (by simp [stop])]

theorem beforeLast_snoc {sep : α} (front piece : List α) (clean : sep ∉ piece) :
    beforeLast sep (front ++ sep :: piece) = front := by
  have inside : ∀ c ∈ piece.reverse, decide (c ≠ sep) = true := by
    intro c member
    simp only [decide_eq_true_eq]
    rintro rfl
    exact clean (List.mem_reverse.mp member)
  unfold beforeLast
  rw [List.reverse_append, List.reverse_cons, List.append_assoc, List.singleton_append,
    dropWhile_piece inside (by simp)]
  simp

omit [DecidableEq α] in
theorem exists_last {sep : α} {word : List α} (there : sep ∈ word) :
    ∃ front piece, word = front ++ sep :: piece ∧ sep ∉ piece := by
  obtain ⟨piece, front, split, clean⟩ := List.eq_append_cons_of_mem (List.mem_reverse.mpr there)
  refine ⟨front.reverse, piece.reverse, ?_, fun member => clean (List.mem_reverse.mp member)⟩
  rw [← List.reverse_reverse word, split, List.reverse_append, List.reverse_cons,
    List.append_assoc, List.singleton_append]

theorem count_beforeLast {sep : α} {word : List α} (there : sep ∈ word) :
    word.count sep = (beforeLast sep word).count sep + 1 := by
  obtain ⟨front, piece, split, clean⟩ := exists_last there
  rw [split, beforeLast_snoc front piece clean, List.count_append, List.count_cons_self,
    List.count_eq_zero_of_not_mem clean]

theorem count_join {sep : α} {pieces : List (List α)} (plain : Plain sep pieces) :
    (join sep pieces).count sep = pieces.length := by
  induction pieces with
  | nil => rfl
  | cons piece rest ih =>
      have clean := plain piece List.mem_cons_self
      rw [join_cons, List.cons_append, List.count_cons_self, List.count_append,
        List.count_eq_zero_of_not_mem clean, Nat.zero_add,
        ih fun other member => plain other (List.mem_cons_of_mem _ member), List.length_cons]

theorem beforeLast_length (sep : α) (word : List α) :
    (beforeLast sep word).length ≤ word.length := by
  unfold beforeLast
  rw [List.length_reverse, List.length_drop]
  have shorter := (List.dropWhile_sublist (l := word.reverse)
    fun c => decide (c ≠ sep)).length_le
  rw [List.length_reverse] at shorter
  omega

theorem afterLast_snoc {sep : α} (front piece : List α) (clean : sep ∉ piece) :
    afterLast sep (front ++ sep :: piece) = piece := by
  have inside : ∀ c ∈ piece.reverse, decide (c ≠ sep) = true := by
    intro c member
    simp only [decide_eq_true_eq]
    rintro rfl
    exact clean (List.mem_reverse.mp member)
  unfold afterLast
  rw [List.reverse_append, List.reverse_cons, List.append_assoc, List.singleton_append,
    List.takeWhile_append_of_pos inside, List.takeWhile_cons_of_neg (by simp)]
  simp

end SeparatedWords
