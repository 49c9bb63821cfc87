import Esconf.Library.WriteThrough

/-! When nothing is on its way, the copy of a write-through client is what the
server has, or nothing. -/

namespace WriteThrough

variable {V : Type}

/-- The next word a copy hears from the server is its value: an announcement is
still to be made, or the last one that will be listened to has the value, or
there is none and the copy has the value or nothing. -/
def Agreed (notices : Nat) (messages : List (Message V)) (stored copy : Option V) : Prop :=
  0 < notices ∨ (sinceReply messages).getLast? = some (announcement stored) ∨
    sinceReply messages = [] ∧ (copy = none ∨ copy = stored)

def Followed (notices : Nat) (later : List (Message V)) (stored copy : Option V) : Prop :=
  0 < notices ∨ later.getLast? = some (announcement stored) ∨ later = [] ∧ copy = stored

theorem sinceReply_last {messages : List (Message V)} {word : Option V}
    (last : messages.getLast? = some (announcement word)) :
    (sinceReply messages).getLast? = some (announcement word) := by
  obtain ⟨front, rfl⟩ := List.getLast?_eq_some_iff.mp last
  rw [sinceReply_announcement, List.getLast?_concat]

theorem announcement_inj {first second : Option V} (same : announcement first = announcement second) :
    first = second := by
  cases first <;> cases second <;> cases same <;> rfl

namespace Agreed

variable {notices : Nat} {messages rest : List (Message V)} {stored copy : Option V}

theorem none (agreed : Agreed notices messages stored copy) :
    Agreed notices messages stored none := by
  rcases agreed with notice | last | ⟨quiet, _⟩
  · exact Or.inl notice
  · exact Or.inr (Or.inl last)
  · exact Or.inr (Or.inr ⟨quiet, Or.inl rfl⟩)

theorem take (agreed : Agreed notices messages stored copy) {ahead : Nat} {fetched : Option V}
    (followed : Followed notices (messages.drop ahead) stored fetched) :
    Agreed notices messages stored fetched := by
  rcases followed with notice | last | ⟨_, rfl⟩
  · exact Or.inl notice
  · refine Or.inr (Or.inl (sinceReply_last ?_))
    rw [List.getLast?_drop] at last
    split at last
    · cases last
    · exact last
  · rcases agreed with notice | last | ⟨quiet, _⟩
    · exact Or.inl notice
    · exact Or.inr (Or.inl last)
    · exact Or.inr (Or.inr ⟨quiet, Or.inr rfl⟩)

theorem announced (stored copy : Option V) (notices : Nat) (messages : List (Message V)) :
    Agreed notices (messages ++ [announcement stored]) stored copy := by
  refine Or.inr (Or.inl ?_)
  rw [sinceReply_announcement, List.getLast?_concat]

theorem heard {word : Option V} (agreed : Agreed notices (announcement word :: rest) stored copy)
    (quiet : replySerials (announcement word :: rest) = []) (quiet' : replySerials rest = []) :
    Agreed notices rest stored word := by
  rw [Agreed, sinceReply_quiet quiet] at agreed
  rw [Agreed, sinceReply_quiet quiet']
  rcases agreed with notice | last | ⟨empty, _⟩
  · exact Or.inl notice
  · cases rest with
    | nil => exact Or.inr (Or.inr ⟨rfl, Or.inr (announcement_inj (Option.some.inj last))⟩)
    | cons next more => exact Or.inr (Or.inl (by rwa [List.getLast?_cons_cons] at last))
  · cases empty

theorem ignored {message : Message V} (agreed : Agreed notices (message :: rest) stored copy)
    (answered : replySerials (message :: rest) ≠ []) : Agreed notices rest stored copy := by
  rwa [Agreed, sinceReply_cons answered] at agreed

end Agreed

namespace Followed

variable {notices : Nat} {messages later : List (Message V)} {stored copy : Option V}

theorem announced {ahead : Nat} (behind : ahead ≤ messages.length) :
    Followed notices ((messages ++ [announcement stored]).drop ahead) stored copy := by
  refine Or.inr (Or.inl ?_)
  rw [List.drop_append_of_le_length behind, List.getLast?_concat]

end Followed

theorem passMessage_answered {before : Option (Waiting (Errand V) (Option V))}
    {errand : Errand V} {copy : Option V} {ahead : Nat}
    (passed : passMessage before = some (some (errand, some (copy, ahead)))) :
    before = some (errand, some (copy, ahead + 1)) := by
  unfold passMessage at passed
  split at passed
  · cases passed
  · cases passed
    rfl
  · next shut open_ =>
      cases passed
      cases ahead with
      | zero => exact absurd rfl (shut errand copy)
      | succ ahead => exact absurd rfl (open_ errand copy ahead)

namespace System

/-- The answer that a client waits for came when all writes were processed, and its
copy is followed by the word of every later change. -/
def Fetched (s : System V) : Prop :=
  ∀ errand copy ahead, s.waiting = some (errand, some (copy, ahead)) →
    s.sets = [] ∧ ahead ≤ s.messages.length ∧
      ((∀ left, errand ≠ .erase left) → Followed s.notices (s.messages.drop ahead) s.stored copy)

theorem Fetched.pass {s s' : System V} (fetched : s.Fetched) {message : Message V}
    {rest : List (Message V)} (messages : s.messages = message :: rest)
    (passed : passMessage s.waiting = some s'.waiting) (left : s'.messages = rest)
    (sets : s'.sets = s.sets) (notices : s'.notices = s.notices) (stored : s'.stored = s.stored) :
    s'.Fetched := by
  intro errand copy ahead waiting
  rw [waiting] at passed
  obtain ⟨processed, behind, followed⟩ := fetched errand copy _ (passMessage_answered passed)
  rw [messages] at behind followed
  rw [sets, left, notices, stored]
  exact ⟨processed, Nat.le_of_succ_le_succ behind, followed⟩

/-- While the newest write is unprocessed the copy has its value or none; after
that it agrees with the server. -/
structure Converging (s : System V) : Prop where
  order : s.InOrder
  sent : ∀ serial value, s.sets.getLast? = some (serial, value) →
    s.cached = none ∨ s.cached = some value
  settled : s.sets = [] → Agreed s.notices s.messages s.stored s.cached
  fetched : s.Fetched

namespace Converging

variable {s : System V}

theorem of_settled {s' : System V} (order : s'.InOrder) (processed : s'.sets = [])
    (fetched : s'.Fetched) (agreed : Agreed s'.notices s'.messages s'.stored s'.cached) :
    Converging s' := by
  refine ⟨order, ?_, fun _ => agreed, fetched⟩
  intro serial value last
  rw [processed] at last
  cases last

theorem heard (converging : Converging s) (word : Option V) {rest : List (Message V)}
    (messages : s.messages = announcement word :: rest)
    {waiting : Option (Waiting (Errand V) (Option V))}
    (passed : passMessage s.waiting = some waiting) (idle : s.calls = []) :
    Converging { s with messages := rest, waiting, cached := word } := by
  have order := converging.order.announced messages (replySerials_announcement word) word waiting
  obtain ⟨quiet, processed⟩ := converging.order.idle idle
  have agreed := converging.settled processed
  have fetched : Fetched { s with messages := rest, waiting, cached := word } :=
    converging.fetched.pass messages passed rfl rfl rfl rfl
  rw [messages] at quiet agreed
  exact of_settled order processed fetched (agreed.heard quiet (order.idle idle).1)

theorem ignored (converging : Converging s) (word : Option V) {rest : List (Message V)}
    (messages : s.messages = announcement word :: rest)
    {waiting : Option (Waiting (Errand V) (Option V))}
    (passed : passMessage s.waiting = some waiting) (busy : s.calls ≠ []) {copy : Option V}
    (kept : copy = s.cached ∨ copy = none) :
    Converging { s with messages := rest, waiting, cached := copy } := by
  refine ⟨converging.order.announced messages (replySerials_announcement word) copy waiting, ?_, ?_,
    converging.fetched.pass messages passed rfl rfl rfl rfl⟩
  · intro serial value last
    rcases kept with rfl | rfl
    · exact converging.sent serial value last
    · exact Or.inl rfl
  · intro processed
    have answered := converging.order.busy busy processed
    have agreed := converging.settled processed
    rw [messages] at answered agreed
    rcases kept with rfl | rfl
    · exact agreed.ignored answered
    · exact (agreed.ignored answered).none

theorem replied (converging : Converging s) {serial : Nat} {rest : List (Message V)}
    (messages : s.messages = .reply serial :: rest) {waiting : Option (Waiting (Errand V) (Option V))}
    (passed : passMessage s.waiting = some waiting) {s' : System V}
    (done : { s with messages := rest, waiting }.receive (.reply serial) = some s') :
    Converging s' := by
  have order := converging.order.receive messages done
  have answered : replySerials (.reply serial :: rest) ≠ [] := List.cons_ne_nil _ _
  have same : s'.sets = s.sets ∧ s'.cached = s.cached ∧ s'.notices = s.notices ∧
      s'.messages = rest ∧ s'.stored = s.stored ∧ s'.waiting = waiting := by
    rw [System.receive] at done
    split at done
    · split at done
      · cases done
        exact ⟨rfl, rfl, rfl, rfl, rfl, rfl⟩
      · cases done
    · cases done
      exact ⟨rfl, rfl, rfl, rfl, rfl, rfl⟩
  obtain ⟨sets, cached, notices, left, stored, now⟩ := same
  refine ⟨order, ?_, ?_, converging.fetched.pass messages (now ▸ passed) left sets notices stored⟩
  · rw [sets, cached]
    exact converging.sent
  · rw [sets, cached, notices, left, stored]
    intro processed
    have agreed := converging.settled processed
    rw [messages] at agreed
    exact agreed.ignored answered

variable {same : V → V → Bool}
  (sound : ∀ before after, same before after = true → before = after)

include sound in
theorem stored (converging : Converging s) (value : Option V) : Converging (s.store same value) := by
  have agreed {copy : Option V} (before : Agreed s.notices s.messages s.stored copy) :
      Agreed (s.store same value).notices s.messages value copy := by
    unfold System.store
    split
    · next still => rwa [← eq_of_unchanged sound still]
    · exact Or.inl (Nat.succ_pos _)
  refine ⟨converging.order.store value, converging.sent,
    fun processed => agreed (converging.settled processed), ?_⟩
  intro errand copy ahead waiting
  obtain ⟨processed, behind, followed⟩ := converging.fetched errand copy ahead waiting
  refine ⟨processed, behind, fun reading => ?_⟩
  have before := followed reading
  unfold System.store
  split
  · next still => rwa [← eq_of_unchanged sound still]
  · exact Or.inl (Nat.succ_pos _)

theorem processed (converging : Converging s) {serial : Nat} {value : V} {rest : List (Nat × V)}
    (sets : s.sets = (serial, value) :: rest) :
    Converging { s.store same (some value) with
      sets := rest, messages := s.messages ++ [.reply serial] } := by
  refine ⟨converging.order.process sets, ?_, ?_, ?_⟩
  · intro serial' value' last
    refine converging.sent serial' value' ?_
    rw [sets]
    cases rest with
    | nil => cases last
    | cons next more => rwa [List.getLast?_cons_cons]
  · intro none
    refine Or.inr (Or.inr ⟨sinceReply_reply _ _, ?_⟩)
    change rest = [] at none
    subst none
    exact converging.sent serial value (by rw [sets]; rfl)
  · intro errand copy ahead waiting
    have none := (converging.fetched errand copy ahead waiting).1
    rw [sets] at none
    cases none

theorem written (converging : Converging s) (free : s.waiting = none) (value : V) :
    Converging (s.write same value) := by
  have order : InOrder (s.write same value) := converging.order.write value
  unfold System.write at order ⊢
  split
  · exact ⟨converging.order.of_same rfl rfl rfl, converging.sent, converging.settled,
      converging.fetched⟩
  · next changes =>
      rw [if_neg changes] at order
      refine ⟨order, ?_, ?_, ?_⟩
      · intro serial value' last
        rw [System.send, List.getLast?_concat] at last
        cases last
        exact Or.inr rfl
      · intro none
        exact absurd none (List.append_ne_nil_of_right_ne_nil _ (List.cons_ne_nil _ _))
      · intro errand copy ahead waiting
        cases free.symm.trans waiting

include sound in
theorem answered (converging : Converging s) (processed : s.sets = []) (errand : Errand V) :
    Converging (s.answerErrand same errand) := by
  have now : Followed s.notices (s.messages.drop s.messages.length) s.stored s.stored :=
    Or.inr (Or.inr ⟨List.drop_length, rfl⟩)
  cases errand with
  | erase left =>
      have erased := converging.stored sound left
      refine ⟨erased.order.of_same rfl rfl rfl, erased.sent, erased.settled, ?_⟩
      intro errand copy ahead waiting
      cases waiting
      exact ⟨processed, Nat.le_refl _, fun reading => absurd rfl (reading left)⟩
  | write value =>
      refine ⟨converging.order.of_same rfl rfl rfl, converging.sent, converging.settled, ?_⟩
      intro errand copy ahead waiting
      cases waiting
      exact ⟨processed, Nat.le_refl _, fun _ => now⟩
  | read =>
      refine ⟨converging.order.of_same rfl rfl rfl, converging.sent, converging.settled, ?_⟩
      intro errand copy ahead waiting
      cases waiting
      exact ⟨processed, Nat.le_refl _, fun _ => now⟩

theorem finished (converging : Converging s) {errand : Errand V} {copy : Option V} {ahead : Nat}
    (waiting : s.waiting = some (errand, some (copy, ahead))) :
    Converging (s.finishErrand same copy errand) := by
  obtain ⟨processed, _, followed⟩ := converging.fetched errand copy ahead waiting
  have settled := converging.settled processed
  have taken (copy : Option V) (agreed : Agreed s.notices s.messages s.stored copy) :
      Converging { s with cached := copy, waiting := none } :=
    of_settled (converging.order.of_same rfl rfl rfl) processed nofun agreed
  cases errand with
  | write value => exact (taken copy (settled.take (followed nofun))).written rfl value
  | read =>
      cases copy with
      | none => exact taken s.cached settled
      | some value => exact taken (some value) (settled.take (followed nofun))
  | erase left => exact taken none settled.none

theorem begun (converging : Converging s) (free : s.waiting = none) (errand : Errand V) :
    Converging (s.beginErrand same errand) := by
  unfold System.beginErrand
  split
  · exact converging.written free _
  · exact converging
  · refine ⟨converging.order.of_same rfl rfl rfl, converging.sent, converging.settled, ?_⟩
    intro errand' copy ahead waiting
    cases waiting

include sound in
theorem step (converging : Converging s) {action : Action V} {s' : System V}
    (done : s.step same action = some s') : Converging s' := by
  cases action with
  | process =>
      rw [System.step] at done
      split at done
      · cases done
      · next serial value rest sets =>
          cases done
          exact converging.processed sets
  | answer =>
      rw [System.step] at done
      split at done
      · split at done
        · next processed =>
            cases done
            exact converging.answered sound processed _
        · cases done
      · cases done
  | announce =>
      rw [System.step] at done
      split at done
      · cases done
      · next notices counted =>
          cases done
          refine ⟨converging.order.announce notices, converging.sent,
            fun _ => Agreed.announced _ _ _ _, ?_⟩
          intro errand copy ahead waiting
          obtain ⟨processed, behind, _⟩ := converging.fetched errand copy ahead waiting
          refine ⟨processed, ?_, fun _ => Followed.announced behind⟩
          exact Nat.le_trans behind (List.length_append ▸ Nat.le_add_right _ _)
  | other value =>
      cases done
      exact converging.stored sound value
  | deliver =>
      rw [System.step] at done
      split at done
      · cases done
      · next message rest messages =>
          obtain ⟨waiting, passed, done⟩ := Option.bind_eq_some_iff.mp done
          cases message with
          | changed value =>
              by_cases idle : s.calls = []
              · have next := converging.heard (some value) messages passed idle
                rw [System.receive, if_pos idle] at done
                cases done
                exact next
              · have next := converging.ignored (some value) messages passed idle
                  (Or.inl rfl)
                rw [System.receive, if_neg idle] at done
                cases done
                exact next
          | removed =>
              cases done
              by_cases idle : s.calls = []
              · exact converging.heard none messages passed idle
              · exact converging.ignored none messages passed idle (Or.inr rfl)
          | reply serial => exact converging.replied messages passed done
  | callback =>
      rw [System.step] at done
      split at done
      · next first next rest calls =>
          cases done
          refine ⟨converging.order.of_same rfl rfl ?_, converging.sent, converging.settled,
            converging.fetched⟩
          rw [calls, List.getLast?_cons_cons]
      · cases done
  | begin errand =>
      rw [System.step] at done
      split at done
      · cases done
      · next free =>
          cases done
          exact converging.begun (Option.not_isSome_iff_eq_none.mp free) errand
  | resume =>
      rw [System.step] at done
      split at done
      · next errand copy ahead waiting =>
          cases done
          exact converging.finished waiting
      · cases done

end Converging

theorem converging_start {stored cached : Option V} (fresh : cached = none ∨ cached = stored) :
    Converging (start stored cached) :=
  .of_settled ⟨List.nodup_nil, nofun, rfl⟩ rfl nofun (Or.inr (Or.inr ⟨rfl, fresh⟩))

/-- When nothing is on its way the copy is what the server has, or nothing. -/
theorem Converging.quiescent {s : System V} (converging : Converging s) (quiescent : s.Quiescent) :
    s.cached = none ∨ s.cached = s.stored := by
  obtain ⟨notices, sets, messages, _, _⟩ := quiescent
  rcases converging.settled sets with notice | last | ⟨_, agreed⟩
  · rw [notices] at notice
    exact absurd notice (Nat.lt_irrefl 0)
  · rw [messages] at last
    cases last
  · exact agreed

end System

end WriteThrough
