import Mathlib.Data.Nat.Basic
import Mathlib.Tactic.Common

/-! A machine that runs until it is idle. -/

namespace Settling

variable {σ : Type} (step : σ → Option σ) (idle : σ → Bool)

/-- The state in which the machine becomes idle, if that takes no more than `fuel` steps. -/
def settle : Nat → σ → Option σ
  | 0, state => if idle state then some state else none
  | fuel + 1, state => if idle state then some state else (step state).bind (settle fuel)

variable {step idle} {state after : σ}

theorem settle_idle (resting : idle state = true) (fuel : Nat) :
    settle step idle fuel state = some state := by
  cases fuel <;> exact if_pos resting

theorem settle_busy (busy : idle state = false) (fuel : Nat) :
    settle step idle (fuel + 1) state = (step state).bind (settle step idle fuel) :=
  if_neg (by rw [busy]; exact Bool.false_ne_true)

theorem settle_longer {fuel : Nat} (done : settle step idle fuel state = some after)
    (more : Nat) : settle step idle (fuel + more) state = some after := by
  induction fuel generalizing state with
  | zero =>
      cases resting : idle state with
      | true => rwa [settle_idle resting] at done ⊢
      | false =>
          rw [settle, resting] at done
          cases done
  | succ fuel ih =>
      cases resting : idle state with
      | true => rwa [settle_idle resting] at done ⊢
      | false =>
          rw [settle_busy resting] at done
          obtain ⟨next, stepped, rest⟩ := Option.bind_eq_some_iff.mp done
          rw [Nat.add_right_comm, settle_busy resting, stepped]
          exact ih rest

/-- However long it may run, a machine becomes idle in one state only. -/
theorem settle_unique {other : σ} {fuel more : Nat}
    (done : settle step idle fuel state = some after)
    (again : settle step idle more state = some other) : after = other := by
  have longer := settle_longer done more
  rw [Nat.add_comm, settle_longer again fuel, Option.some.injEq] at longer
  exact longer.symm

/-- A machine becomes idle if every step is possible, and lowers a rank, or a weight without
raising the rank. -/
theorem settles {P : σ → Prop} (rank weight : σ → Nat)
    (progress : ∀ state, P state → idle state = false → ∃ next, step state = some next ∧ P next ∧
      (rank next < rank state ∨ rank next ≤ rank state ∧ weight next < weight state))
    (holds : P state) :
    ∃ fuel after, settle step idle fuel state = some after ∧ P after ∧ idle after = true := by
  induction bound : rank state using Nat.strong_induction_on generalizing state with
  | _ _ lower =>
      induction size : weight state using Nat.strong_induction_on generalizing state with
      | _ _ lighter =>
          cases resting : idle state with
          | true => exact ⟨0, state, settle_idle resting 0, holds, resting⟩
          | false =>
              obtain ⟨next, stepped, kept, less⟩ := progress state holds resting
              obtain ⟨fuel, after, done, rest⟩ : ∃ fuel after,
                  settle step idle fuel next = some after ∧ P after ∧ idle after = true := by
                rcases less with less | ⟨notMore, less⟩
                · exact lower _ (bound ▸ less) kept rfl
                · rcases Nat.lt_or_eq_of_le notMore with less' | same
                  · exact lower _ (bound ▸ less') kept rfl
                  · exact lighter _ (size ▸ less) kept (same.trans bound) rfl
              refine ⟨fuel + 1, after, ?_, rest⟩
              rw [settle_busy resting, stepped]
              exact done

end Settling
