/-! Programs of operations that may fail, and in which the process may stop. A
program that gives up still returns a value. -/

inductive Attempt (σ α : Type) where
  | done (value : α) (state : σ)
  | failed (value : α) (state : σ)
  | stopped (state : σ)

namespace Attempt

variable {σ α β : Type}

/-- The next program is run only if the one before it is done; `left` is the value
of the whole if it is not. -/
def andThen (attempt : Attempt σ α) (left : α → β) (next : α → σ → Attempt σ β) : Attempt σ β :=
  match attempt with
  | done value state => next value state
  | failed value state => failed (left value) state
  | stopped state => stopped state

/-- If the program is done `after` holds, and if it ends otherwise `broken` does. -/
def Meets (attempt : Attempt σ α) (broken : σ → Prop) (after : α → σ → Prop) : Prop :=
  match attempt with
  | done value state => after value state
  | failed _ state => broken state
  | stopped state => broken state

theorem Meets.andThen {attempt : Attempt σ α} {broken : σ → Prop} {middle : α → σ → Prop}
    {after : β → σ → Prop} (first : attempt.Meets broken middle) (left : α → β)
    {next : α → σ → Attempt σ β}
    (second : ∀ value state, middle value state → (next value state).Meets broken after) :
    (attempt.andThen left next).Meets broken after := by
  cases attempt with
  | done value state => exact second value state first
  | failed value state => exact first
  | stopped state => exact first

def Completes (attempt : Attempt σ α) : Prop := ∃ value state, attempt = done value state

theorem completes_done (value : α) (state : σ) : (done value state).Completes := ⟨value, state, rfl⟩

theorem Completes.andThen {attempt : Attempt σ α} (first : attempt.Completes) (left : α → β)
    {next : α → σ → Attempt σ β} (second : ∀ value state, (next value state).Completes) :
    (attempt.andThen left next).Completes := by
  obtain ⟨value, state, done'⟩ := first
  rw [done']
  exact second value state

end Attempt
