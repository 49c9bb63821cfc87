import Mathlib.Data.List.Basic
import Mathlib.Data.List.Nodup

/-! A value kept by a server and copied by a client that writes through its copy.
Writes are processed and answered in order, changes are announced late, and
announced values are ignored while a write is unanswered. -/

namespace WriteThrough

inductive Message (V : Type) where
  | reply (serial : Nat)
  | changed (value : V)
  | removed

/-- What the client waits for: a write that has to read first, a read, or an
erasure that leaves the server with some value or none. -/
inductive Errand (V : Type) where
  | write (value : V)
  | read
  | erase (left : Option V)

/-- An errand the client is blocked on, with its answer and the number of messages
that are still in front of the answer. -/
abbrev Waiting (E A : Type) := E × Option (A × Nat)

/-- `notices` counts the announcements the server still has to make, `sets` holds
the unprocessed writes and `calls` the serials of the writes whose callbacks have
not run, oldest first. `last` is the value of the last write that returned; no
step reads it. -/
structure System (V : Type) where
  stored : Option V
  notices : Nat
  sets : List (Nat × V)
  messages : List (Message V)
  cached : Option V
  calls : List Nat
  serial : Nat
  waiting : Option (Waiting (Errand V) (Option V))
  last : Option V

inductive Action (V : Type) where
  | process
  | answer
  | announce
  | other (value : Option V)
  | deliver
  | callback
  | begin (errand : Errand V)
  | resume

variable {V : Type}

/-- A message is taken up; none that comes after the answer of an errand is, before
the errand has ended. -/
def passMessage {E A : Type} : Option (Waiting E A) → Option (Option (Waiting E A))
  | some (_, some (_, 0)) => none
  | some (errand, some (copy, ahead + 1)) => some (some (errand, some (copy, ahead)))
  | waiting => some waiting

def announcement : Option V → Message V
  | some value => .changed value
  | none => .removed

/-- Whether there is nothing to change; `same` compares two values. -/
def unchanged (same : V → V → Bool) : Option V → Option V → Bool
  | some before, some after => same before after
  | none, none => true
  | _, _ => false

theorem eq_of_unchanged {same : V → V → Bool}
    (sound : ∀ before after, same before after = true → before = after) {before after : Option V}
    (still : unchanged same before after = true) : before = after := by
  cases before with
  | none =>
      cases after with
      | none => rfl
      | some after => cases still
  | some before =>
      cases after with
      | none => cases still
      | some after => exact congrArg some (sound before after still)

namespace System

variable (same : V → V → Bool)

def store (s : System V) (value : Option V) : System V :=
  { s with
    stored := value,
    notices := if unchanged same s.stored value then s.notices else s.notices + 1 }

def send (s : System V) (value : V) : System V :=
  { s with
    sets := s.sets ++ [(s.serial, value)], calls := s.calls ++ [s.serial],
    cached := some value, serial := s.serial + 1, last := some value }

def write (s : System V) (value : V) : System V :=
  if unchanged same s.cached (some value) then { s with last := some value } else s.send value

def answerErrand (s : System V) : Errand V → System V
  | .erase left =>
    { s.store same left with waiting := some (.erase left, some (left, s.messages.length)) }
  | errand => { s with waiting := some (errand, some (s.stored, s.messages.length)) }

/-- The reply to the newest write has to wait for the callbacks before it; other
replies are to cancelled writes. -/
def receive (s : System V) : Message V → Option (System V)
  | .changed value => some (if s.calls = [] then { s with cached := some value } else s)
  | .removed => some { s with cached := none }
  | .reply serial =>
    if s.calls.getLast? = some serial then
      if s.calls = [serial] then some { s with calls := [] } else none
    else some s

def beginErrand (s : System V) (errand : Errand V) : System V :=
  match errand, s.cached with
  | .write value, some _ => s.write same value
  | .read, some _ => s
  | errand, _ => { s with waiting := some (errand, none) }

def finishErrand (s : System V) (copy : Option V) : Errand V → System V
  | .write value => { s with cached := copy, waiting := none }.write same value
  | .read => { s with cached := copy <|> s.cached, waiting := none }
  | .erase _ => { s with cached := none, waiting := none }

/-- A step of the system, if the action is possible. The synchronous request of
an errand comes after the unprocessed writes; the messages in front of its answer
may be taken up before the errand ends, or later. -/
def step (s : System V) : Action V → Option (System V)
  | .process =>
    match s.sets with
    | [] => none
    | (serial, value) :: rest =>
      some { s.store same (some value) with sets := rest, messages := s.messages ++ [.reply serial] }
  | .answer =>
    match s.waiting with
    | some (errand, none) => if s.sets = [] then some (s.answerErrand same errand) else none
    | _ => none
  | .announce =>
    match s.notices with
    | 0 => none
    | notices + 1 => some { s with notices, messages := s.messages ++ [announcement s.stored] }
  | .other value => some (s.store same value)
  | .deliver =>
    match s.messages with
    | [] => none
    | message :: rest =>
      (passMessage s.waiting).bind fun waiting =>
        { s with messages := rest, waiting }.receive message
  | .callback =>
    match s.calls with
    | _ :: next :: rest => some { s with calls := next :: rest }
    | _ => none
  | .begin errand => if s.waiting.isSome then none else some (s.beginErrand same errand)
  | .resume =>
    match s.waiting with
    | some (errand, some (copy, _)) => some (s.finishErrand same copy errand)
    | _ => none

def run (s : System V) : List (Action V) → Option (System V)
  | [] => some s
  | action :: rest => (s.step same action).bind fun next => next.run rest

variable {same}

/-- What every step keeps, every run keeps. -/
theorem run_keeps {P : System V → Prop} {allowed : Action V → Prop}
    (keeps : ∀ {s s' action}, P s → allowed action → s.step same action = some s' → P s')
    {actions : List (Action V)} (all : ∀ action ∈ actions, allowed action) {s s' : System V}
    (start : P s) (done : s.run same actions = some s') : P s' := by
  induction actions generalizing s with
  | nil =>
      cases done
      exact start
  | cons action rest ih =>
      obtain ⟨next, first, later⟩ := Option.bind_eq_some_iff.mp done
      exact ih (fun other member => all other (List.mem_cons_of_mem _ member))
        (keeps start (all action List.mem_cons_self) first) later

/-- A client whose copy is what the server has, if it has one, and nothing on its way. -/
def start (stored cached : Option V) : System V :=
  { stored, notices := 0, sets := [], messages := [], cached, calls := [], serial := 0,
    waiting := none, last := none }

def Quiescent (s : System V) : Prop :=
  s.notices = 0 ∧ s.sets = [] ∧ s.messages = [] ∧ s.calls = [] ∧ s.waiting = none

end System

def replySerials : List (Message V) → List Nat
  | [] => []
  | .reply serial :: rest => serial :: replySerials rest
  | _ :: rest => replySerials rest

theorem replySerials_append (front back : List (Message V)) :
    replySerials (front ++ back) = replySerials front ++ replySerials back := by
  induction front with
  | nil => rfl
  | cons message rest ih =>
      cases message with
      | reply serial => exact congrArg (serial :: ·) ih
      | changed value => exact ih
      | removed => exact ih

theorem replySerials_announcement (value : Option V) : replySerials [announcement value] = [] := by
  cases value <;> rfl

def sinceReply : List (Message V) → List (Message V)
  | [] => []
  | message :: rest =>
    if replySerials (message :: rest) = [] then message :: rest else sinceReply rest

theorem sinceReply_quiet {messages : List (Message V)} (quiet : replySerials messages = []) :
    sinceReply messages = messages := by
  cases messages with
  | nil => rfl
  | cons message rest => exact if_pos quiet

theorem sinceReply_cons {message : Message V} {rest : List (Message V)}
    (answered : replySerials (message :: rest) ≠ []) :
    sinceReply (message :: rest) = sinceReply rest := if_neg answered

theorem sinceReply_reply (messages : List (Message V)) (serial : Nat) :
    sinceReply (messages ++ [.reply serial]) = [] := by
  induction messages with
  | nil => rfl
  | cons message rest ih =>
      rw [List.cons_append, sinceReply_cons, ih]
      rw [← List.cons_append, replySerials_append]
      simp [replySerials]

theorem sinceReply_announcement (messages : List (Message V)) (value : Option V) :
    sinceReply (messages ++ [announcement value]) = sinceReply messages ++ [announcement value] := by
  induction messages with
  | nil => exact sinceReply_quiet (replySerials_announcement value)
  | cons message rest ih =>
      have same : replySerials (message :: rest ++ [announcement value]) =
          replySerials (message :: rest) := by
        rw [replySerials_append, replySerials_announcement, List.append_nil]
      by_cases quiet : replySerials (message :: rest) = []
      · rw [sinceReply_quiet quiet, sinceReply_quiet (same.trans quiet)]
      · rw [sinceReply_cons quiet, ← ih]
        exact sinceReply_cons (fun empty => quiet (same.symm.trans empty))

namespace System

def serials (s : System V) : List Nat := replySerials s.messages ++ s.sets.map Prod.fst

theorem serials_reply {s : System V} {serial : Nat} {rest : List (Message V)}
    (messages : s.messages = .reply serial :: rest) :
    s.serials = serial :: { s with messages := rest }.serials := by
  rw [System.serials, messages]
  rfl

structure InOrder (s : System V) : Prop where
  unique : s.serials.Nodup
  bound : ∀ serial ∈ s.serials, serial < s.serial
  newest : s.serials.getLast? = s.calls.getLast?

namespace InOrder

variable {s : System V}

theorem idle (order : InOrder s) (none : s.calls = []) :
    replySerials s.messages = [] ∧ s.sets = [] := by
  have empty : s.serials = [] := by
    rw [← List.getLast?_eq_none_iff, order.newest, none]
    rfl
  obtain ⟨replies, sets⟩ := List.append_eq_nil_iff.mp empty
  exact ⟨replies, List.map_eq_nil_iff.mp sets⟩

theorem busy (order : InOrder s) (some : s.calls ≠ []) (processed : s.sets = []) :
    replySerials s.messages ≠ [] := by
  intro quiet
  have empty : s.serials = [] := by
    rw [serials, quiet, processed]
    rfl
  have last := order.newest
  rw [empty] at last
  exact some (List.getLast?_eq_none_iff.mp last.symm)

theorem of_same {s' : System V} (order : InOrder s) (serials : s'.serials = s.serials)
    (serial : s'.serial = s.serial) (calls : s'.calls.getLast? = s.calls.getLast?) : InOrder s' :=
  ⟨serials ▸ order.unique, serials ▸ serial ▸ order.bound, by rw [serials, calls, order.newest]⟩

theorem send (order : InOrder s) (value : V) : InOrder (s.send value) := by
  have serials : (s.send value).serials = s.serials ++ [s.serial] := by
    rw [System.serials, System.send, List.map_append, ← List.append_assoc]
    rfl
  refine ⟨?_, ?_, ?_⟩
  · rw [serials, List.nodup_append]
    refine ⟨order.unique, List.nodup_singleton _, ?_⟩
    intro old member new fresh
    rw [List.mem_singleton.mp fresh]
    exact Nat.ne_of_lt (order.bound old member)
  · rw [serials]
    intro old member
    rcases List.mem_append.mp member with before | fresh
    · exact Nat.lt_succ_of_lt (order.bound old before)
    · rw [List.mem_singleton.mp fresh]
      exact Nat.lt_succ_self _
  · rw [serials, System.send, List.getLast?_concat, List.getLast?_concat]

theorem announce (order : InOrder s) (notices : Nat) :
    InOrder { s with notices, messages := s.messages ++ [announcement s.stored] } := by
  refine order.of_same ?_ rfl rfl
  rw [System.serials, System.serials, replySerials_append, replySerials_announcement,
    List.append_nil]

theorem announced (order : InOrder s) {message : Message V} {rest : List (Message V)}
    (messages : s.messages = message :: rest) (quiet : replySerials [message] = [])
    (cached : Option V) (waiting : Option (Waiting (Errand V) (Option V))) :
    InOrder { s with messages := rest, cached, waiting } := by
  refine order.of_same ?_ rfl rfl
  have split : replySerials (message :: rest) = replySerials [message] ++ replySerials rest :=
    replySerials_append [message] rest
  rw [System.serials, System.serials, messages, split, quiet]
  rfl

theorem reply_newest (order : InOrder s) {serial : Nat} {rest : List (Message V)}
    (messages : s.messages = .reply serial :: rest) (newest : s.calls.getLast? = some serial) :
    { s with messages := rest }.serials = [] := by
  have tail := serials_reply messages
  have last := order.newest
  rw [newest, tail] at last
  have unique := order.unique
  rw [tail, List.nodup_cons] at unique
  cases later : { s with messages := rest }.serials with
  | nil => rfl
  | cons next more =>
      rw [later, List.getLast?_cons_cons] at last
      rw [later] at unique
      exact absurd (List.mem_of_getLast? last) unique.1

theorem reply_answered (order : InOrder s) {serial : Nat} {rest : List (Message V)}
    (messages : s.messages = .reply serial :: rest) (newest : s.calls = [serial])
    (waiting : Option (Waiting (Errand V) (Option V))) :
    InOrder { s with messages := rest, calls := [], waiting } := by
  have empty := order.reply_newest messages (by rw [newest]; rfl)
  have same : { s with messages := rest, calls := [], waiting }.serials = [] := empty
  refine ⟨same ▸ List.nodup_nil, ?_, by rw [same]⟩
  rw [same]
  exact nofun

theorem reply_dropped (order : InOrder s) {serial : Nat} {rest : List (Message V)}
    (messages : s.messages = .reply serial :: rest) (older : s.calls.getLast? ≠ some serial)
    (waiting : Option (Waiting (Errand V) (Option V))) :
    InOrder { s with messages := rest, waiting } := by
  have tail := serials_reply messages
  have unique := order.unique
  have bound := order.bound
  have newest := order.newest
  rw [tail] at unique bound newest
  refine ⟨(List.nodup_cons.mp unique).2,
    fun other member => bound other (List.mem_cons_of_mem _ member), ?_⟩
  change { s with messages := rest }.serials.getLast? = s.calls.getLast?
  cases later : { s with messages := rest }.serials with
  | nil =>
      rw [later] at newest
      exact absurd newest.symm older
  | cons next more =>
      rw [later, List.getLast?_cons_cons] at newest
      exact newest

theorem receive (order : InOrder s) {message : Message V} {rest : List (Message V)}
    (messages : s.messages = message :: rest) {waiting : Option (Waiting (Errand V) (Option V))}
    {s' : System V}
    (done : { s with messages := rest, waiting }.receive message = some s') : InOrder s' := by
  cases message with
  | changed value =>
      cases done
      split
      · exact order.announced messages rfl (some value) waiting
      · exact order.announced messages rfl s.cached waiting
  | removed =>
      cases done
      exact order.announced messages rfl none waiting
  | reply serial =>
      rw [System.receive] at done
      split at done
      · split at done
        · next newest =>
            cases done
            exact order.reply_answered messages newest waiting
        · cases done
      · next older =>
          cases done
          exact order.reply_dropped messages older waiting

variable {same : V → V → Bool}

theorem store (order : InOrder s) (value : Option V) : InOrder (s.store same value) :=
  order.of_same rfl rfl rfl

theorem write (order : InOrder s) (value : V) : InOrder (s.write same value) := by
  unfold System.write
  split
  · exact order.of_same rfl rfl rfl
  · exact order.send value

theorem process (order : InOrder s) {serial : Nat} {value : V} {rest : List (Nat × V)}
    (sets : s.sets = (serial, value) :: rest) :
    InOrder { s.store same (some value) with
      sets := rest, messages := s.messages ++ [.reply serial] } := by
  refine order.of_same ?_ rfl rfl
  rw [System.serials, System.serials, sets, replySerials_append, List.append_assoc]
  rfl

end InOrder

end System

end WriteThrough
