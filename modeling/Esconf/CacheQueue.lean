import Esconf.CacheProtocol

/-! The calls of a client that sets one property: all share an old item, and all but
the newest are cancelled. -/

namespace Esconf

open CacheClient

structure Queue (property : CString) (cache : EsconfCache) (calls : List (Nat × SetPropertyCall))
    (serial : Nat) : Prop where
  coherent : Coherent cache (calls.map Prod.snd)
  listed : ∀ entry ∈ calls, cache.oldProperties property = some entry.2.userData
  newest : ∀ number oldItem, cache.oldProperties property = some number →
    cache.oldItems number = some oldItem →
      ∃ entry, calls.getLast? = some entry ∧ entry.2.cancellable = oldItem.cancellable
  older : ∀ entry ∈ calls.dropLast, cache.cancelled entry.2.cancellable = true
  given : ∀ entry ∈ calls, entry.2.cancellable < cache.nextCancellable
  unique : (calls.map Prod.fst).Nodup
  bound : ∀ entry ∈ calls, entry.1 < serial

namespace Queue

variable {property : CString} {cache : EsconfCache} {calls : List (Nat × SetPropertyCall)}
  {serial : Nat}

theorem start (channelName property : CString) (cached : Option GValue) :
    Queue property { EsconfCache.new channelName with
      properties := Function.update (fun _ => none) property cached } [] 0 :=
  ⟨(Coherent.new channelName).cached _, nofun, nofun, nofun, nofun, List.nodup_nil, nofun⟩

theorem cached (queue : Queue property cache calls serial)
    (properties : CString → Option GValue) :
    Queue property { cache with properties } calls serial :=
  ⟨queue.coherent.cached properties, queue.listed, queue.newest, queue.older, queue.given,
    queue.unique, queue.bound⟩

theorem idle (queue : Queue property cache calls serial) :
    cache.oldProperties property = none ↔ calls = [] := by
  constructor
  · intro none
    cases calls with
    | nil => rfl
    | cons entry rest =>
        have there := queue.listed entry List.mem_cons_self
        rw [none] at there
        cases there
  · rintro rfl
    cases there : cache.oldProperties property with
    | none => rfl
    | some number =>
        obtain ⟨oldItem, held, _⟩ := queue.coherent.known property number there
        obtain ⟨entry, last, _⟩ := queue.newest number oldItem there held
        cases last

/-- The newest call is the only one that is not cancelled. -/
theorem alive (queue : Queue property cache calls serial) {entry : Nat × SetPropertyCall}
    (last : calls.getLast? = some entry) : cache.cancelled entry.2.cancellable = false := by
  have there := queue.listed entry (List.mem_of_getLast? last)
  obtain ⟨oldItem, held, _, running, _⟩ := queue.coherent.known property _ there
  obtain ⟨newest, again, same⟩ := queue.newest _ oldItem there held
  rw [last, Option.some.injEq] at again
  rw [again, same, running]

theorem last_of_alive (queue : Queue property cache calls serial) {entry : Nat × SetPropertyCall}
    (member : entry ∈ calls) (running : cache.cancelled entry.2.cancellable = false) :
    calls.getLast? = some entry := by
  obtain ⟨front, newest, rfl⟩ :=
    (List.eq_nil_or_concat' calls).resolve_left (List.ne_nil_of_mem member)
  rw [List.getLast?_concat]
  rcases List.mem_append.mp member with before | last
  · have cancelled := queue.older entry (by rwa [List.dropLast_concat])
    rw [running] at cancelled
    cases cancelled
  · rw [List.mem_singleton.mp last]

theorem send (queue : Queue property cache calls serial) {after : EsconfCache}
    {call : SetPropertyCall} (coherent : Coherent after ((calls ++ [(serial, call)]).map Prod.snd))
    (fresh : call.cancellable = cache.nextCancellable)
    (nextCancellable : after.nextCancellable = cache.nextCancellable + 1)
    (there : after.oldProperties property = some call.userData)
    (kept : ∀ entry ∈ calls, cache.oldProperties property = some entry.2.userData →
      entry.2.userData = call.userData)
    (held : ∀ oldItem, after.oldItems call.userData = some oldItem →
      oldItem.cancellable = call.cancellable)
    (cancelled : ∀ entry ∈ calls, after.cancelled entry.2.cancellable = true) :
    Queue property after (calls ++ [(serial, call)]) (serial + 1) := by
  refine ⟨coherent, ?_, ?_, ?_, ?_, ?_, ?_⟩
  · intro entry member
    rcases List.mem_append.mp member with before | new
    · rw [kept entry before (queue.listed entry before), there]
    · rw [List.mem_singleton.mp new, there]
  · intro number oldItem present item
    rw [there, Option.some.injEq] at present
    refine ⟨(serial, call), List.getLast?_concat, ?_⟩
    rw [held oldItem (present ▸ item)]
  · rw [List.dropLast_concat]
    exact cancelled
  · intro entry member
    rw [nextCancellable]
    rcases List.mem_append.mp member with before | new
    · exact Nat.lt_succ_of_lt (queue.given entry before)
    · rw [List.mem_singleton.mp new, fresh]
      exact Nat.lt_succ_self _
  · rw [List.map_append, List.nodup_append]
    refine ⟨queue.unique, List.nodup_singleton _, ?_⟩
    intro old member new last
    obtain ⟨entry, before, rfl⟩ := List.mem_map.mp member
    rw [List.mem_singleton.mp last]
    exact Nat.ne_of_lt (queue.bound entry before)
  · intro entry member
    rcases List.mem_append.mp member with before | new
    · exact Nat.lt_succ_of_lt (queue.bound entry before)
    · rw [List.mem_singleton.mp new]
      exact Nat.lt_succ_self _

theorem set {host : Host} {value : GValue} {val : GVariant} {item : Option GValue}
    (queue : Queue property cache calls serial)
    (converted : esconfGvalueToGvariant host value = some val)
    (differs : item.any (GValue.isEqual · value) = false) :
    ∃ outcome call, setLookedUp host cache property value item = some outcome ∧
      outcome.ret = true ∧ outcome.call = some call ∧ call.variant = .variant val ∧
      outcome.cache.properties property = some value ∧
      Queue property outcome.cache (calls ++ [(serial, call)]) (serial + 1) := by
  have ready : (esconfGvalueToGvariant host value).isSome ∨
      item.any (GValue.isEqual · value) = true := by
    rw [converted]
    exact Or.inl rfl
  cases there : cache.oldProperties property with
  | some number =>
      obtain ⟨oldItem, held, rfl, alive, _⟩ := queue.coherent.known property number there
      have sets := setLookedUp_again differs there held alive converted
      have coherent := queue.coherent.setLookedUp ready sets
      refine ⟨_, _, sets, rfl, rfl, rfl, Function.update_self .., ?_⟩
      refine queue.send (by simpa using coherent) rfl rfl there ?_ ?_ ?_
      · intro entry _ present
        rw [there, Option.some.injEq] at present
        exact present.symm
      · intro again present
        simp only [Function.update_self, Option.some.injEq] at present
        rw [← present]
      · intro entry member
        refine (Function.update_of_ne (Nat.ne_of_lt (queue.given entry member)) ..).trans ?_
        by_cases same : entry.2.cancellable = oldItem.cancellable
        · rw [same, Function.update_self]
        · rw [Function.update_of_ne same]
          cases running : cache.cancelled entry.2.cancellable with
          | true => rfl
          | false =>
              have last := queue.last_of_alive member running
              obtain ⟨newest, again, shared⟩ := queue.newest number oldItem there held
              rw [last, Option.some.injEq] at again
              exact absurd (again ▸ shared) same
  | none =>
      cases queue.idle.mp there
      have sets := setLookedUp_first differs there converted
      have coherent := queue.coherent.setLookedUp ready sets
      refine ⟨_, _, sets, rfl, rfl, rfl, Function.update_self .., ?_⟩
      refine queue.send (by simpa using coherent) rfl rfl (Function.update_self ..) nofun ?_ nofun
      intro again present
      simp only [Function.update_self, Option.some.injEq] at present
      rw [← present]

theorem callback {first : Nat} {call : SetPropertyCall} {rest : List (Nat × SetPropertyCall)}
    (queue : Queue property cache ((first, call) :: rest) serial)
    (cancelled : cache.cancelled call.cancellable = true) (finish : Except DBusError Unit) :
    rest ≠ [] ∧ ∃ after,
      esconfCacheSetPropertyReplyHandler cache call.userData finish = some (after, none) ∧
        after.properties = cache.properties ∧ Queue property after rest serial := by
  cases rest with
  | nil =>
      have alive : cache.cancelled call.cancellable = false := queue.alive rfl
      rw [cancelled] at alive
      cases alive
  | cons next more =>
      refine ⟨List.cons_ne_nil _ _, ?_⟩
      have there := queue.listed _ List.mem_cons_self
      have again := queue.listed next (List.mem_cons_of_mem _ List.mem_cons_self)
      obtain ⟨before, held, _⟩ := queue.coherent.addressed call List.mem_cons_self
      have counted := queue.coherent.counted _ before held
      have shared : next.2.userData = call.userData := by
        rw [there, Option.some.injEq] at again
        exact again.symm
      have more_left : 0 < before.pendingCallsCount - 1 := by
        rw [counted]
        simp [callsOf, shared]
      have waits : esconfCacheSetPropertyReplyHandler cache call.userData finish = _ :=
        esconfCacheSetPropertyReplyHandler_waits held more_left
      obtain ⟨after, announced, done, coherent⟩ :=
        queue.coherent.callback List.getElem?_cons_zero finish
      rw [waits] at done
      cases done
      refine ⟨_, waits, rfl, ?_⟩
      refine ⟨coherent, ?_, ?_, ?_, ?_, ?_, ?_⟩
      · intro entry member
        exact queue.listed entry (List.mem_cons_of_mem _ member)
      · intro number oldItem present item
        have same : number = call.userData := by
          exact Option.some.inj (present.symm.trans there)
        rw [same] at present item
        obtain ⟨entry, last, cancellable⟩ := queue.newest _ before present held
        rw [List.getLast?_cons_cons] at last
        simp only [EsconfCache.setOldItem, Function.update_self, Option.some.injEq] at item
        exact ⟨entry, last, by rw [cancellable, ← item]⟩
      · intro entry member
        exact queue.older entry (List.mem_cons_of_mem _ member)
      · intro entry member
        exact queue.given entry (List.mem_cons_of_mem _ member)
      · exact (List.nodup_cons.mp queue.unique).2
      · intro entry member
        exact queue.bound entry (List.mem_cons_of_mem _ member)

theorem replied {first : Nat} {call : SetPropertyCall}
    (queue : Queue property cache [(first, call)] serial) :
    ∃ after announced,
      esconfCacheSetPropertyReplyHandler cache call.userData (.ok ()) = some (after, announced) ∧
        after.properties = cache.properties ∧ Queue property after [] serial := by
  obtain ⟨after, announced, done, coherent⟩ :=
    queue.coherent.callback List.getElem?_cons_zero (.ok ())
  refine ⟨after, announced, done, esconfCacheSetPropertyReplyHandler_ok done, ?_⟩
  refine ⟨coherent, nofun, ?_, nofun, nofun, List.nodup_nil, nofun⟩
  intro number oldItem there held
  obtain ⟨again, present, _, _, waiting⟩ := coherent.known property number there
  rw [coherent.counted number again present] at waiting
  exact absurd waiting (Int.lt_irrefl 0)

end Queue

end Esconf
