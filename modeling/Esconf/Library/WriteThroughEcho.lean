import Esconf.Library.WriteThrough

/-! A write-through client that is the only writer sees its last write, whatever
is still on its way. -/

namespace WriteThrough

variable {V : Type}

/-- The actions of a system in which the client is the only writer and does
nothing but write. -/
def Action.Own : Action V → Prop
  | other _ => False
  | begin errand => ∃ value, errand = .write value
  | _ => True

namespace System

structure Echoes (s : System V) (value : V) : Prop where
  cached : s.cached = some value
  free : s.waiting = none
  newest : ∀ serial other, s.sets.getLast? = some (serial, other) → other = value
  settled : s.sets = [] →
    s.stored = some value ∧ ∀ message ∈ sinceReply s.messages, message = .changed value

structure Unwritten (s : System V) : Prop where
  sets : s.sets = []
  messages : s.messages = []
  notices : s.notices = 0
  copy : s.cached = none ∨ s.cached = s.stored
  writing : ∀ errand answer, s.waiting = some (errand, answer) → ∃ value, errand = .write value
  fetched : ∀ errand copy ahead, s.waiting = some (errand, some (copy, ahead)) → copy = s.stored

structure Echoing (s : System V) : Prop where
  order : s.InOrder
  present : 0 < s.notices → s.stored ≠ none
  kept : .removed ∉ s.messages
  unwritten : s.last = none → s.Unwritten
  written : ∀ value, s.last = some value → s.Echoes value

namespace Echoing

variable {s : System V}

theorem heard (echoing : Echoing s) {value : V} {rest : List (Message V)}
    (messages : s.messages = .changed value :: rest) (idle : s.calls = []) :
    Echoing { s with messages := rest, cached := some value } := by
  obtain ⟨quiet, processed⟩ := echoing.order.idle idle
  have order := echoing.order.announced messages rfl (some value) s.waiting
  refine ⟨order, echoing.present, ?_, ?_, ?_⟩
  · intro member
    exact echoing.kept (by rw [messages]; exact List.mem_cons_of_mem _ member)
  · intro never
    have none := (echoing.unwritten never).messages
    rw [messages] at none
    cases none
  · intro last wrote
    have echoes := echoing.written last wrote
    obtain ⟨stored, all⟩ := echoes.settled processed
    rw [sinceReply_quiet quiet] at all
    have word : Message.changed value = .changed last :=
      all _ (by rw [messages]; exact List.mem_cons_self)
    cases word
    refine ⟨rfl, echoes.free, echoes.newest, fun _ => ⟨stored, ?_⟩⟩
    have quiet' : replySerials rest = [] := (order.idle idle).1
    intro message member
    rw [sinceReply_quiet quiet'] at member
    exact all message (by rw [messages]; exact List.mem_cons_of_mem _ member)

theorem ignored (echoing : Echoing s) {message : Message V} {rest : List (Message V)}
    (messages : s.messages = message :: rest)
    (answered : s.sets = [] → replySerials (message :: rest) ≠ []) {s' : System V}
    (order : s'.InOrder)
    (same : s' = { s with messages := rest } ∨ s' = { s with messages := rest, calls := [] }) :
    Echoing s' := by
  have kept : .removed ∉ rest := by
    intro member
    exact echoing.kept (by rw [messages]; exact List.mem_cons_of_mem _ member)
  have written : ∀ value, s.last = some value →
      s.cached = some value ∧ s.waiting = none ∧
      (∀ serial other, s.sets.getLast? = some (serial, other) → other = value) ∧
      (s.sets = [] → s.stored = some value ∧ ∀ later ∈ sinceReply rest, later = .changed value) := by
    intro value wrote
    have echoes := echoing.written value wrote
    refine ⟨echoes.cached, echoes.free, echoes.newest, ?_⟩
    intro processed
    obtain ⟨stored, all⟩ := echoes.settled processed
    rw [messages, sinceReply_cons (answered processed)] at all
    exact ⟨stored, all⟩
  have unwritten : s.last ≠ none := by
    intro never
    have none := (echoing.unwritten never).messages
    rw [messages] at none
    cases none
  rcases same with rfl | rfl
  · refine ⟨order, echoing.present, kept, fun never => absurd never unwritten, ?_⟩
    intro value wrote
    obtain ⟨cached, free, newest, settled⟩ := written value wrote
    exact ⟨cached, free, newest, settled⟩
  · refine ⟨order, echoing.present, kept, fun never => absurd never unwritten, ?_⟩
    intro value wrote
    obtain ⟨cached, free, newest, settled⟩ := written value wrote
    exact ⟨cached, free, newest, settled⟩

theorem free (echoing : Echoing s) {message : Message V} {rest : List (Message V)}
    (messages : s.messages = message :: rest) : s.waiting = none := by
  cases wrote : s.last with
  | some value => exact (echoing.written value wrote).free
  | none =>
      have none := (echoing.unwritten wrote).messages
      rw [messages] at none
      cases none

theorem wrote (echoing : Echoing s) {serial : Nat} {value : V} {rest : List (Nat × V)}
    (sets : s.sets = (serial, value) :: rest) : ∃ last, s.last = some last := by
  cases never : s.last with
  | some last => exact ⟨last, rfl⟩
  | none =>
      have none := (echoing.unwritten never).sets
      rw [sets] at none
      cases none

theorem announced (echoing : Echoing s) {notices : Nat} (counted : s.notices = notices + 1) :
    Echoing { s with notices, messages := s.messages ++ [announcement s.stored] } := by
  have present : 0 < s.notices := by
    rw [counted]
    exact Nat.succ_pos _
  obtain ⟨value, stored⟩ := Option.ne_none_iff_exists'.mp (echoing.present present)
  refine ⟨echoing.order.announce notices, fun _ => echoing.present present, ?_, ?_, ?_⟩
  · intro member
    rcases List.mem_append.mp member with before | word
    · exact echoing.kept before
    · rw [stored] at word
      cases List.mem_singleton.mp word
  · intro never
    have none := (echoing.unwritten never).notices
    rw [counted] at none
    cases none
  · intro last wrote
    have echoes := echoing.written last wrote
    refine ⟨echoes.cached, echoes.free, echoes.newest, ?_⟩
    intro processed
    obtain ⟨same, all⟩ := echoes.settled processed
    refine ⟨same, ?_⟩
    change ∀ message ∈ sinceReply (s.messages ++ [announcement s.stored]), _
    rw [sinceReply_announcement, same]
    intro message member
    rcases List.mem_append.mp member with before | word
    · exact all message before
    · exact List.mem_singleton.mp word

theorem waited (echoing : Echoing s) {errand : Errand V} {answer : Option (Option V × Nat)}
    (waiting : s.waiting = some (errand, answer)) : s.last = none ∧ s.Unwritten := by
  cases wrote : s.last with
  | none => exact ⟨rfl, echoing.unwritten wrote⟩
  | some last =>
      have free := (echoing.written last wrote).free
      rw [waiting] at free
      cases free

theorem of_unwritten {s' : System V} (echoing : Echoing s) (unwritten : s'.Unwritten)
    (serials : s'.serials = s.serials) (serial : s'.serial = s.serial) (calls : s'.calls = s.calls)
    (last : s'.last = s.last) (never : s.last = none) : Echoing s' := by
  refine ⟨echoing.order.of_same serials serial (by rw [calls]), ?_, ?_, fun _ => unwritten, ?_⟩
  · rw [unwritten.notices]
    exact fun positive => absurd positive (Nat.lt_irrefl 0)
  · rw [unwritten.messages]
    exact nofun
  · rw [last, never]
    exact nofun

variable {same : V → V → Bool}
  (sound : ∀ before after, same before after = true → before = after)

theorem processed (echoing : Echoing s) {serial : Nat} {value : V} {rest : List (Nat × V)}
    (sets : s.sets = (serial, value) :: rest) :
    Echoing { s.store same (some value) with
      sets := rest, messages := s.messages ++ [.reply serial] } := by
  obtain ⟨last, wrote⟩ := echoing.wrote sets
  have echoes := echoing.written last wrote
  refine ⟨echoing.order.process sets, fun _ => Option.some_ne_none value, ?_, ?_, ?_⟩
  · intro member
    rcases List.mem_append.mp member with before | reply
    · exact echoing.kept before
    · cases List.mem_singleton.mp reply
  · intro never
    exact absurd (wrote.symm.trans never) (Option.some_ne_none last)
  · intro last' wrote'
    cases wrote.symm.trans wrote'
    refine ⟨echoes.cached, echoes.free, ?_, ?_⟩
    · intro serial' other newest
      refine echoes.newest serial' other ?_
      rw [sets]
      cases rest with
      | nil => cases newest
      | cons next more => rwa [List.getLast?_cons_cons]
    · intro none
      change rest = [] at none
      subst none
      have same := echoes.newest serial value (by rw [sets]; rfl)
      refine ⟨congrArg some same, ?_⟩
      intro message member
      rw [show sinceReply (s.messages ++ [.reply serial]) = [] from sinceReply_reply _ _] at member
      cases member

include sound in
theorem write (echoing : Echoing s) (free : s.waiting = none) (value : V) :
    Echoing (s.write same value) := by
  unfold System.write
  split
  · next still =>
      have held := eq_of_unchanged sound still
      refine ⟨echoing.order.of_same rfl rfl rfl, echoing.present, echoing.kept, nofun, ?_⟩
      intro value' wrote
      cases wrote
      cases before : s.last with
      | none =>
          have unwritten := echoing.unwritten before
          refine ⟨held, free, ?_, fun _ => ⟨?_, ?_⟩⟩
          · intro serial other newest
            change s.sets.getLast? = _ at newest
            rw [unwritten.sets] at newest
            cases newest
          · rcases unwritten.copy with none | stored
            · rw [held] at none
              cases none
            · rw [← held, stored]
          · change ∀ message ∈ sinceReply s.messages, _
            rw [unwritten.messages]
            exact nofun
      | some last =>
          have echoes := echoing.written last before
          cases held.symm.trans echoes.cached
          exact ⟨echoes.cached, echoes.free, echoes.newest, echoes.settled⟩
  · refine ⟨echoing.order.send value, echoing.present, echoing.kept, nofun, ?_⟩
    intro value' wrote
    cases wrote
    refine ⟨rfl, free, ?_, ?_⟩
    · intro serial other newest
      rw [System.send, List.getLast?_concat] at newest
      cases newest
      rfl
    · intro none
      exact absurd none (List.append_ne_nil_of_right_ne_nil _ (List.cons_ne_nil _ _))

include sound in
/-- Every step a lone writer can see keeps its copy echoing its last write. -/
theorem step (echoing : Echoing s) {action : Action V} (own : action.Own) {s' : System V}
    (done : s.step same action = some s') : Echoing s' := by
  cases action with
  | process =>
      rw [System.step] at done
      split at done
      · cases done
      · next serial value rest sets =>
          cases done
          exact echoing.processed sets
  | answer =>
      rw [System.step] at done
      split at done
      · next errand waiting =>
          split at done
          · next processed =>
              obtain ⟨never, unwritten⟩ := echoing.waited waiting
              obtain ⟨value, rfl⟩ := unwritten.writing errand none waiting
              cases done
              refine echoing.of_unwritten ⟨processed, unwritten.messages, unwritten.notices,
                unwritten.copy, ?_, ?_⟩ rfl rfl rfl rfl never
              · intro errand answer waiting'
                cases waiting'
                exact ⟨value, rfl⟩
              · intro errand copy ahead waiting'
                cases waiting'
                rfl
          · cases done
      · cases done
  | announce =>
      rw [System.step] at done
      split at done
      · cases done
      · next notices counted =>
          cases done
          exact echoing.announced counted
  | other value => exact own.elim
  | deliver =>
      rw [System.step] at done
      split at done
      · cases done
      · next message rest messages =>
          obtain ⟨waiting, passed, done⟩ := Option.bind_eq_some_iff.mp done
          have free := echoing.free messages
          rw [free] at passed
          cases passed
          rw [← free] at done
          cases message with
          | changed value =>
              rw [System.receive] at done
              by_cases idle : s.calls = []
              · have next := echoing.heard messages idle
                rw [if_pos idle] at done
                cases done
                exact next
              · have order := echoing.order.announced messages rfl s.cached s.waiting
                rw [if_neg idle] at done
                cases done
                refine echoing.ignored messages ?_ order (Or.inl rfl)
                intro processed
                have busy := echoing.order.busy idle processed
                rwa [messages] at busy
          | removed => exact absurd (by rw [messages]; exact List.mem_cons_self) echoing.kept
          | reply serial =>
              have order := echoing.order.receive messages done
              refine echoing.ignored messages (fun _ => List.cons_ne_nil _ _) order ?_
              rw [System.receive] at done
              split at done
              · split at done
                · cases done
                  exact Or.inr rfl
                · cases done
              · cases done
                exact Or.inl rfl
  | callback =>
      rw [System.step] at done
      split at done
      · next first next rest calls =>
          cases done
          refine ⟨echoing.order.of_same rfl rfl ?_, echoing.present, echoing.kept, ?_, ?_⟩
          · rw [calls, List.getLast?_cons_cons]
          · intro never
            obtain ⟨sets, messages, notices, copy, writing, fetched⟩ := echoing.unwritten never
            exact ⟨sets, messages, notices, copy, writing, fetched⟩
          · intro value wrote
            obtain ⟨cached, free, newest, settled⟩ := echoing.written value wrote
            exact ⟨cached, free, newest, settled⟩
      · cases done
  | begin errand =>
      obtain ⟨value, rfl⟩ := own
      rw [System.step] at done
      split at done
      · cases done
      · next blocked =>
          have free := Option.not_isSome_iff_eq_none.mp blocked
          cases done
          unfold System.beginErrand
          cases copy : s.cached with
          | some held => exact echoing.write sound free value
          | none =>
              cases wrote : s.last with
              | some last =>
                  have echo := (echoing.written last wrote).cached
                  rw [copy] at echo
                  cases echo
              | none =>
                  have unwritten := echoing.unwritten wrote
                  refine echoing.of_unwritten ⟨unwritten.sets, unwritten.messages,
                    unwritten.notices, Or.inl rfl, ?_, ?_⟩ rfl rfl rfl wrote.symm wrote
                  · intro errand answer waiting
                    cases waiting
                    exact ⟨value, rfl⟩
                  · intro errand fetched ahead waiting
                    cases waiting
  | resume =>
      rw [System.step] at done
      split at done
      · next errand copy ahead waiting =>
          obtain ⟨never, unwritten⟩ := echoing.waited waiting
          obtain ⟨value, rfl⟩ := unwritten.writing errand _ waiting
          have stored := unwritten.fetched _ copy ahead waiting
          cases done
          refine Echoing.write sound (s := { s with cached := copy, waiting := none }) ?_ rfl value
          refine echoing.of_unwritten ⟨unwritten.sets, unwritten.messages, unwritten.notices,
            Or.inr stored, ?_, ?_⟩ rfl rfl rfl rfl never
          · intro errand answer idle
            cases idle
          · intro errand fetched ahead idle
            cases idle
      · cases done

end Echoing

theorem echoing_start {stored cached : Option V} (fresh : cached = none ∨ cached = stored) :
    Echoing (start stored cached) :=
  ⟨⟨List.nodup_nil, nofun, rfl⟩, nofun, nofun,
    fun _ => ⟨rfl, rfl, rfl, fresh, nofun, nofun⟩, nofun⟩

end System

end WriteThrough
