import Mathlib.Data.List.Infix

/-! Journals: operations that are saved from time to time, and of which those that are not
saved are lost when the process that made them ends. -/

inductive JournalEntry (α : Type) where
  | made (operation : α)
  | saved
  | lost

/-- The operations that are saved, and those made since. -/
structure Journal (α : Type) where
  saved : List α
  pending : List α

namespace Journal

variable {α : Type}

def empty : Journal α := ⟨[], []⟩

def all (journal : Journal α) : List α := journal.saved ++ journal.pending

def step (journal : Journal α) : JournalEntry α → Journal α
  | .made operation => ⟨journal.saved, journal.pending ++ [operation]⟩
  | .saved => ⟨journal.all, []⟩
  | .lost => ⟨journal.saved, []⟩

def after (journal : Journal α) (entries : List (JournalEntry α)) : Journal α :=
  entries.foldl step journal

@[simp] theorem all_settled (operations : List α) :
    (⟨operations, []⟩ : Journal α).all = operations := List.append_nil _

@[simp] theorem after_saved (journal : Journal α) : journal.after [.saved] = ⟨journal.all, []⟩ :=
  rfl

@[simp] theorem after_lost (journal : Journal α) : journal.after [.lost] = ⟨journal.saved, []⟩ :=
  rfl

theorem after_made (journal : Journal α) (operations : List α) :
    journal.after (operations.map .made) =
      ⟨journal.saved, journal.pending ++ operations⟩ := by
  induction operations generalizing journal with
  | nil => rw [List.append_nil]; rfl
  | cons operation rest ih =>
      rw [List.append_cons]
      exact ih ⟨journal.saved, journal.pending ++ [operation]⟩

end Journal
