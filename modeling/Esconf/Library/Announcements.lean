import Mathlib.Data.List.Basic
import Mathlib.Logic.Function.Basic
import Mathlib.Logic.Relation

/-! A table whose changes are announced late, each with the value that the key has by then,
and copies of it that take the announcements up in order and ask for keys in between. -/

namespace Announcements

variable {K V ι : Type}

/-- A copy, with the announcements on their way to it. It is blocked while it waits for what
it has asked for; `known` are the keys that it has asked for. -/
structure Copy (K V : Type) where
  messages : List (K × V)
  entries : K → V
  waiting : Option (K → Option V)
  known : K → Prop

/-- `due` are the keys that are still to be announced. -/
structure State (ι K V : Type) where
  table : K → V
  due : List K
  copies : ι → Copy K V

variable [DecidableEq K]

def lastAbout (messages : List (K × V)) (key : K) : Option V :=
  ((messages.filter fun message => message.1 = key).getLast?).map Prod.snd

@[simp] theorem lastAbout_nil (key : K) : lastAbout ([] : List (K × V)) key = none := rfl

theorem lastAbout_send (messages : List (K × V)) (sent : K × V) (key : K) :
    lastAbout (messages ++ [sent]) key =
      if sent.1 = key then some sent.2 else lastAbout messages key := by
  rw [lastAbout, List.filter_append]
  by_cases same : sent.1 = key
  · simp [same]
  · simp [same, lastAbout]

theorem lastAbout_cons (first : K × V) (rest : List (K × V)) (key : K) :
    lastAbout (first :: rest) key =
      (lastAbout rest key).or (if first.1 = key then some first.2 else none) := by
  rw [lastAbout, List.filter_cons]
  by_cases same : first.1 = key
  · simp only [same, decide_true, ↓reduceIte, lastAbout, List.getLast?_cons]
    cases (rest.filter fun message => message.1 = key).getLast? <;> rfl
  · simp [same, lastAbout]

theorem lastAbout_none {messages : List (K × V)} {key : K}
    (silent : ∀ message ∈ messages, message.1 ≠ key) : lastAbout messages key = none := by
  rw [lastAbout, List.filter_eq_nil_iff.mpr]
  · rfl
  · intro message member
    simp [silent message member]

namespace Copy

/-- What the copy has for a key once all that is on its way has arrived. -/
def settled (copy : Copy K V) (key : K) : V :=
  (lastAbout copy.messages key).getD (copy.entries key)

def send (copy : Copy K V) (message : K × V) : Copy K V :=
  { copy with messages := copy.messages ++ [message] }

def take (copy : Copy K V) (key : K) (value : V) (rest : List (K × V)) : Copy K V :=
  { copy with messages := rest, entries := Function.update copy.entries key value }

def resume (copy : Copy K V) (answer : K → Option V) : Copy K V :=
  { copy with
    entries := fun key => (answer key).getD (copy.entries key)
    waiting := none
    known := fun key => copy.known key ∨ (answer key).isSome = true }

def fresh (blank : V) : Copy K V := ⟨[], fun _ => blank, none, fun _ => False⟩

end Copy

variable [DecidableEq ι]

/-- The table changes and what has changed is due; a key is announced; a copy takes up an
announcement, asks for keys or gets its answer. -/
inductive Step (state : State ι K V) : State ι K V → Prop where
  | change (table : K → V) (added : List K)
      (complete : ∀ key, table key ≠ state.table key → key ∈ added) :
      Step state { state with table, due := state.due ++ added }
  | announce (key : K) (rest : List K) (first : state.due = key :: rest) :
      Step state { state with
        due := rest
        copies := fun i => (state.copies i).send (key, state.table key) }
  | take (i : ι) (key : K) (value : V) (rest : List (K × V))
      (first : (state.copies i).messages = (key, value) :: rest)
      (free : (state.copies i).waiting = none) :
      Step state { state with
        copies := Function.update state.copies i ((state.copies i).take key value rest) }
  | ask (i : ι) (answer : K → Option V)
      (right : ∀ key value, answer key = some value → value = state.table key) :
      Step state { state with
        copies := Function.update state.copies i
          { state.copies i with waiting := some answer } }
  | resume (i : ι) (answer : K → Option V)
      (waits : (state.copies i).waiting = some answer) :
      Step state { state with
        copies := Function.update state.copies i ((state.copies i).resume answer) }

/-- A key is still to be announced, or what is on its way brings its value, or the copy has
never heard of it. -/
structure Follows (blank : V) (table : K → V) (due : List K) (copy : Copy K V) : Prop where
  entries : ∀ key, key ∈ due ∨ copy.settled key = table key ∨
    (lastAbout copy.messages key = none ∧ copy.entries key = blank ∧ ¬copy.known key)
  answer : ∀ answer, copy.waiting = some answer → ∀ key value, answer key = some value →
    key ∈ due ∨ lastAbout copy.messages key = some (table key) ∨
      (lastAbout copy.messages key = none ∧ value = table key)

namespace Follows

variable {blank : V} {table : K → V} {due : List K} {copy : Copy K V}

theorem fresh : Follows blank table due (Copy.fresh blank) :=
  ⟨fun _ => Or.inr (Or.inr ⟨rfl, rfl, not_false⟩), nofun⟩

theorem change (follows : Follows blank table due copy) {after : K → V} {added : List K}
    (complete : ∀ key, after key ≠ table key → key ∈ added) :
    Follows blank after (due ++ added) copy := by
  constructor
  · intro key
    by_cases same : after key = table key
    · rw [same]
      rcases follows.entries key with late | here | unheard
      · exact Or.inl (List.mem_append_left _ late)
      · exact Or.inr (Or.inl here)
      · exact Or.inr (Or.inr unheard)
    · exact Or.inl (List.mem_append_right _ (complete key same))
  · intro answer waits key value answered
    by_cases same : after key = table key
    · rw [same]
      rcases follows.answer answer waits key value answered with late | here | right
      · exact Or.inl (List.mem_append_left _ late)
      · exact Or.inr (Or.inl here)
      · exact Or.inr (Or.inr right)
    · exact Or.inl (List.mem_append_right _ (complete key same))

theorem announce {key : K} (follows : Follows blank table (key :: due) copy) :
    Follows blank table due (copy.send (key, table key)) := by
  have about : ∀ other, lastAbout (copy.send (key, table key)).messages other =
      if key = other then some (table key) else lastAbout copy.messages other :=
    lastAbout_send copy.messages (key, table key)
  constructor
  · intro other
    rw [Copy.settled, about]
    by_cases same : key = other
    · rw [if_pos same, same]
      exact Or.inr (Or.inl rfl)
    · rw [if_neg same]
      rcases follows.entries other with late | here | unheard
      · exact Or.inl ((List.mem_cons.mp late).resolve_left (Ne.symm same))
      · exact Or.inr (Or.inl here)
      · exact Or.inr (Or.inr unheard)
  · intro answer waits other value answered
    rw [about]
    by_cases same : key = other
    · rw [if_pos same, same]
      exact Or.inr (Or.inl rfl)
    · rw [if_neg same]
      rcases follows.answer answer waits other value answered with late | here
      · exact Or.inl ((List.mem_cons.mp late).resolve_left (Ne.symm same))
      · exact Or.inr here

theorem take (follows : Follows blank table due copy) {key : K} {value : V}
    {rest : List (K × V)} (first : copy.messages = (key, value) :: rest)
    (free : copy.waiting = none) : Follows blank table due (copy.take key value rest) := by
  have settled : ∀ other, (copy.take key value rest).settled other = copy.settled other := by
    intro other
    rw [Copy.settled, Copy.settled, first, lastAbout_cons]
    change (lastAbout rest other).getD (Function.update copy.entries key value other) = _
    by_cases same : key = other
    · subst same
      rw [if_pos rfl, Function.update_self]
      cases lastAbout rest key <;> rfl
    · rw [if_neg same, Function.update_of_ne (Ne.symm same), Option.or_none]
  constructor
  · intro other
    rw [settled]
    rcases follows.entries other with late | here | ⟨silent, empty, unknown⟩
    · exact Or.inl late
    · exact Or.inr (Or.inl here)
    · rw [first, lastAbout_cons, Option.or_eq_none_iff] at silent
      refine Or.inr (Or.inr ⟨silent.1, ?_, unknown⟩)
      by_cases same : key = other
      · rw [if_pos same] at silent
        cases silent.2
      · exact (Function.update_of_ne (Ne.symm same) _ _).trans empty
  · intro answer waits
    rw [show (copy.take key value rest).waiting = none from free] at waits
    cases waits

theorem ask (follows : Follows blank table due copy) {answer : K → Option V}
    (right : ∀ key value, answer key = some value → value = table key) :
    Follows blank table due { copy with waiting := some answer } := by
  refine ⟨follows.entries, ?_⟩
  intro other waits key value answered
  cases waits
  have now := right key value answered
  rcases follows.entries key with late | here | ⟨silent, _⟩
  · exact Or.inl late
  · rw [Copy.settled] at here
    cases about : lastAbout copy.messages key with
    | none => exact Or.inr (Or.inr ⟨rfl, now⟩)
    | some last =>
        rw [about] at here
        exact Or.inr (Or.inl (congrArg some here))
  · exact Or.inr (Or.inr ⟨silent, now⟩)

theorem resume (follows : Follows blank table due copy) {answer : K → Option V}
    (waits : copy.waiting = some answer) : Follows blank table due (copy.resume answer) := by
  refine ⟨?_, nofun⟩
  intro key
  cases answered : answer key with
  | none =>
      have same : (copy.resume answer).entries key = copy.entries key := by
        change (answer key).getD _ = _
        rw [answered]
        rfl
      rw [Copy.settled, same]
      rcases follows.entries key with late | here | ⟨silent, empty, unknown⟩
      · exact Or.inl late
      · exact Or.inr (Or.inl here)
      · refine Or.inr (Or.inr ⟨silent, empty, ?_⟩)
        rintro (known | known)
        · exact unknown known
        · rw [answered] at known
          cases known
  | some value =>
      rcases follows.answer answer waits key value answered with late | here | ⟨silent, now⟩
      · exact Or.inl late
      · refine Or.inr (Or.inl ?_)
        change (lastAbout copy.messages key).getD _ = _
        rw [here]
        rfl
      · refine Or.inr (Or.inl ?_)
        change (lastAbout copy.messages key).getD ((answer key).getD _) = _
        rw [silent, answered]
        exact now

end Follows

variable {blank : V}

theorem follows_step {before after : State ι K V} (step : Step before after)
    (follow : ∀ i, Follows blank before.table before.due (before.copies i)) :
    ∀ i, Follows blank after.table after.due (after.copies i) := by
  have one : ∀ {i : ι} {copy : Copy K V}, Follows blank before.table before.due copy →
      ∀ j, Follows blank before.table before.due (Function.update before.copies i copy j) := by
    intro i copy follows j
    by_cases same : j = i
    · rw [same, Function.update_self]
      exact follows
    · rw [Function.update_of_ne same]
      exact follow j
  cases step with
  | change table added complete => exact fun i => (follow i).change complete
  | announce key rest first =>
      intro i
      have follows := follow i
      rw [first] at follows
      exact follows.announce
  | take i key value rest first free => exact one ((follow i).take first free)
  | ask i answer right => exact one ((follow i).ask right)
  | resume i answer waits => exact one ((follow i).resume waits)

theorem follows_run {start state : State ι K V} (fresh : ∀ i, start.copies i = Copy.fresh blank)
    (run : Relation.ReflTransGen Step start state) :
    ∀ i, Follows blank state.table state.due (state.copies i) := by
  induction run with
  | refl =>
      intro i
      rw [fresh i]
      exact .fresh
  | tail _ step ih => exact follows_step step ih

/-- From copies that have nothing: once a key is not due and nothing about it is on its way to
a copy, the copy has what the table has, or has never heard of the key. -/
theorem copies_agree {start state : State ι K V}
    (fresh : ∀ i, start.copies i = Copy.fresh blank)
    (run : Relation.ReflTransGen Step start state) {i : ι} {key : K} (quiet : key ∉ state.due)
    (arrived : ∀ message ∈ (state.copies i).messages, message.1 ≠ key) :
    (state.copies i).entries key = state.table key ∨
      ((state.copies i).entries key = blank ∧ ¬(state.copies i).known key) := by
  rcases (follows_run fresh run i).entries key with late | here | ⟨_, empty, unknown⟩
  · exact absurd late quiet
  · rw [Copy.settled, lastAbout_none arrived] at here
    exact Or.inl here
  · exact Or.inr ⟨empty, unknown⟩

end Announcements
