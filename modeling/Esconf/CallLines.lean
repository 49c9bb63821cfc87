import Esconf.PendingCalls
import Mathlib.Data.List.Nodup

/-! The calls of a client that sets any properties: which of them are cancelled. -/

namespace Esconf

open CacheClient

variable {host : Host}

/-- What a set that makes a call leaves: the old item that it calls for has the value and a new
cancellable, and if the property had an old item then its call is cancelled. -/
structure SetCalled (host : Host) (before : EsconfCache) (property : CString) (value : GValue)
    (after : EsconfCache) (call : SetPropertyCall) : Prop where
  named : call.property = property
  cancellable : call.cancellable = before.nextCancellable
  next : after.nextCancellable = before.nextCancellable + 1
  properties : after.properties = Function.update before.properties property (some value)
  listed : after.oldProperties property = some call.userData
  others : ∀ name, name ≠ property → after.oldProperties name = before.oldProperties name
  held : ∃ oldItem val, after.oldItems call.userData = some oldItem ∧
    oldItem.cancellable = call.cancellable ∧ oldItem.variant = some val ∧
    esconfGvalueToGvariant host value = some val ∧ call.variant = .variant val
  items : ∀ number, number ≠ call.userData → after.oldItems number = before.oldItems number
  running : after.cancelled call.cancellable = false
  cancelled : ∀ number oldItem, before.oldProperties property = some number →
    before.oldItems number = some oldItem → after.cancelled oldItem.cancellable = true
  kept : ∀ cancellable, cancellable < before.nextCancellable →
    after.cancelled cancellable = before.cancelled cancellable ∨
      after.cancelled cancellable = true ∧ ∃ number oldItem,
        before.oldProperties property = some number ∧ before.oldItems number = some oldItem ∧
          oldItem.cancellable = cancellable

theorem setLookedUp_called {cache : EsconfCache} {calls : List SetPropertyCall}
    (coherent : Coherent cache calls) {property : CString} {value : GValue} {item : Option GValue}
    (differs : item.any (GValue.isEqual · value) = false)
    (convertible : (esconfGvalueToGvariant host value).isSome) {outcome : SetReturn}
    (returned : setLookedUp host cache property value item = some outcome) :
    outcome.ret = true ∧ ∃ call, outcome.call = some call ∧
      SetCalled host cache property value outcome.cache call := by
  obtain ⟨val, converted⟩ := Option.isSome_iff_exists.mp convertible
  cases there : cache.oldProperties property with
  | some number =>
      obtain ⟨oldItem, held, _, alive, _⟩ := coherent.known property number there
      have older := coherent.numbered number oldItem held
      rw [setLookedUp_again differs there held alive converted] at returned
      cases returned
      refine ⟨rfl, _, rfl, rfl, rfl, rfl, rfl, there, fun _ _ => rfl, ?_, ?_, ?_, ?_, ?_⟩
      · exact ⟨_, val, Function.update_self .., rfl, rfl, converted, rfl⟩
      · exact fun other different => Function.update_of_ne different ..
      · exact Function.update_self ..
      · intro other otherItem again present
        rw [there, Option.some.injEq] at again
        rw [← again, held, Option.some.injEq] at present
        refine (Function.update_of_ne (Nat.ne_of_lt (present ▸ older)) ..).trans ?_
        rw [← present, Function.update_self]
      · intro cancellable given
        refine (em (cancellable = oldItem.cancellable)).symm.imp ?_ ?_
        · intro apart
          exact (Function.update_of_ne (Nat.ne_of_lt given) ..).trans
            (Function.update_of_ne apart ..)
        · rintro rfl
          refine ⟨(Function.update_of_ne (Nat.ne_of_lt given) ..).trans
            (Function.update_self ..), number, oldItem, there, held, rfl⟩
  | none =>
      rw [setLookedUp_first differs there converted] at returned
      cases returned
      refine ⟨rfl, _, rfl, rfl, rfl, rfl, rfl, Function.update_self .., ?_, ?_, ?_, ?_, ?_, ?_⟩
      · exact fun name apart => Function.update_of_ne apart ..
      · exact ⟨_, val, Function.update_self .., rfl, rfl, converted, rfl⟩
      · exact fun other different => Function.update_of_ne different ..
      · exact Function.update_self ..
      · intro other otherItem again
        cases there.symm.trans again
      · exact fun cancellable given =>
          Or.inl (Function.update_of_ne (Nat.ne_of_lt given) ..)

/-- The calls of a client with their serials: all but the newest of a property are cancelled, and
that has the cancellable of the old item. -/
structure Lined (cache : EsconfCache) (calls : List (Nat × SetPropertyCall)) (serial : Nat) :
    Prop where
  tracked : Tracked cache (calls.map Prod.snd)
  unique : (calls.map Prod.fst).Nodup
  bound : ∀ entry ∈ calls, entry.1 < serial
  given : ∀ entry ∈ calls, entry.2.cancellable < cache.nextCancellable
  older : calls.Pairwise fun entry later =>
    entry.2.property = later.2.property → cache.cancelled entry.2.cancellable = true
  shared : ∀ entry ∈ calls, cache.cancelled entry.2.cancellable = false →
    ∀ oldItem, cache.oldItems entry.2.userData = some oldItem →
      oldItem.cancellable = entry.2.cancellable
  newest : ∀ property number, cache.oldProperties property = some number →
    ∃ entry ∈ calls, entry.2.property = property ∧
      cache.cancelled entry.2.cancellable = false

namespace Lined

variable {cache after : EsconfCache} {calls : List (Nat × SetPropertyCall)} {serial : Nat}

theorem start (channelName : CString) (cached : CString → Option GValue) :
    Lined { EsconfCache.new channelName with properties := cached } [] 0 :=
  ⟨(Tracked.new channelName).cached cached, List.nodup_nil, nofun, nofun, List.Pairwise.nil, nofun,
    nofun⟩

theorem cached (lined : Lined cache calls serial) (properties : CString → Option GValue) :
    Lined { cache with properties } calls serial :=
  ⟨lined.tracked.cached properties, lined.unique, lined.bound, lined.given, lined.older,
    lined.shared, lined.newest⟩

theorem member {entry : Nat × SetPropertyCall} (member : entry ∈ calls) :
    entry.2 ∈ calls.map Prod.snd := List.mem_map_of_mem member

theorem kept (lined : Lined cache calls serial) {host : Host} {property : CString}
    {value : GValue} {call : SetPropertyCall}
    (called : SetCalled host cache property value after call) {entry : Nat × SetPropertyCall}
    (member : entry ∈ calls) (apart : entry.2.property ≠ property)
    (running : cache.cancelled entry.2.cancellable = false) :
    after.cancelled entry.2.cancellable = false := by
  rcases called.kept _ (lined.given entry member) with same | ⟨_, number, oldItem, there, held, mine⟩
  · rw [same, running]
  · obtain ⟨again, present, named, _⟩ := lined.tracked.alive (Lined.member member)
    have shared := lined.shared entry member running again present
    have number_eq := lined.tracked.coherent.apart _ _ _ _ held present (mine.trans shared.symm)
    obtain ⟨_, item, called, _⟩ := lined.tracked.coherent.known property number there
    rw [number_eq, present, Option.some.injEq] at item
    exact absurd (by rw [← named, item, called]) apart

theorem called (lined : Lined cache calls serial) {property : CString} {value : GValue}
    {call : SetPropertyCall} (called : SetCalled host cache property value after call)
    (tracked : Tracked after ((calls ++ [(serial, call)]).map Prod.snd)) :
    Lined after (calls ++ [(serial, call)]) (serial + 1) := by
  obtain ⟨oldItem, val, held, mine, _⟩ := called.held
  -- What was cancelled still is, and the old item of the property is now.
  have cancelled : ∀ entry ∈ calls, cache.cancelled entry.2.cancellable = true →
      after.cancelled entry.2.cancellable = true := by
    intro entry member before
    rcases called.kept _ (lined.given entry member) with same | ⟨now, _⟩
    · rw [same, before]
    · exact now
  have replaced : ∀ entry ∈ calls, entry.2.property = property →
      after.cancelled entry.2.cancellable = true := by
    intro entry member here
    cases running : cache.cancelled entry.2.cancellable with
    | true => exact cancelled entry member running
    | false =>
        obtain ⟨before, present, _⟩ := lined.tracked.alive (Lined.member member)
        have there := lined.tracked.listed entry.2 (Lined.member member)
        rw [here] at there
        rw [← lined.shared entry member running before present]
        exact called.cancelled _ before there present
  refine ⟨tracked, ?_, ?_, ?_, ?_, ?_, ?_⟩
  · rw [List.map_append, List.nodup_append]
    refine ⟨lined.unique, List.nodup_singleton _, ?_⟩
    intro old listed new last
    obtain ⟨entry, member, rfl⟩ := List.mem_map.mp listed
    rw [List.mem_singleton.mp last]
    exact Nat.ne_of_lt (lined.bound entry member)
  · intro entry member
    rcases List.mem_append.mp member with before | last
    · exact Nat.lt_succ_of_lt (lined.bound entry before)
    · rw [List.mem_singleton.mp last]
      exact Nat.lt_succ_self _
  · intro entry member
    rw [called.next]
    rcases List.mem_append.mp member with before | last
    · exact Nat.lt_succ_of_lt (lined.given entry before)
    · rw [List.mem_singleton.mp last, called.cancellable]
      exact Nat.lt_succ_self _
  · rw [List.pairwise_append]
    refine ⟨?_, List.pairwise_singleton _ _, ?_⟩
    · refine lined.older.imp_of_mem ?_
      intro entry later member _ before same
      exact cancelled entry member (before same)
    · intro entry member new last same
      rw [List.mem_singleton.mp last, called.named] at same
      exact replaced entry member same
  · intro entry member running other present
    rcases List.mem_append.mp member with before | last
    · by_cases here : entry.2.property = property
      · rw [replaced entry before here] at running
        cases running
      · have different : entry.2.userData ≠ call.userData := by
          intro equal
          have there := lined.tracked.listed entry.2 (Lined.member before)
          rw [← called.others _ here, equal] at there
          obtain ⟨_, item, named, _⟩ := tracked.coherent.known _ _ there
          obtain ⟨_, again, named', _⟩ := tracked.coherent.known _ _ called.listed
          rw [item, Option.some.injEq] at again
          exact here (by rw [← named, again, named'])
        rw [called.items _ different] at present
        cases was : cache.cancelled entry.2.cancellable with
        | true =>
            rw [cancelled entry before was] at running
            cases running
        | false => exact lined.shared entry before was other present
    · rw [List.mem_singleton.mp last] at present ⊢
      rw [held, Option.some.injEq] at present
      rw [← present, mine]
  · intro name number there
    by_cases here : name = property
    · refine ⟨(serial, call), List.mem_append_right _ List.mem_cons_self, ?_, called.running⟩
      rw [here, called.named]
    · rw [called.others name here] at there
      obtain ⟨entry, member, named, running⟩ := lined.newest name number there
      refine ⟨entry, List.mem_append_left _ member, named, ?_⟩
      exact lined.kept called member (named ▸ here) running

theorem left {index : Nat} {entry other : Nat × SetPropertyCall}
    (present : calls[index]? = some entry) (member : other ∈ calls) (different : other ≠ entry) :
    other ∈ calls.eraseIdx index := by
  rw [List.mem_eraseIdx_iff_getElem?]
  obtain ⟨place, there⟩ := List.getElem?_of_mem member
  refine ⟨place, ?_, there⟩
  rintro rfl
  rw [present, Option.some.injEq] at there
  exact different there.symm

theorem erased (lined : Lined cache calls serial) {index : Nat} {entry : Nat × SetPropertyCall}
    (present : calls[index]? = some entry)
    (tracked : Tracked after ((calls.eraseIdx index).map Prod.snd))
    (nextCancellable : after.nextCancellable = cache.nextCancellable)
    (grows : ∀ cancellable, cache.cancelled cancellable = true →
      after.cancelled cancellable = true)
    (others : ∀ other ∈ calls.eraseIdx index, cache.cancelled other.2.cancellable = false →
      after.cancelled other.2.cancellable = false)
    (items : ∀ other ∈ calls.eraseIdx index, ∀ oldItem,
      after.oldItems other.2.userData = some oldItem → ∃ before,
        cache.oldItems other.2.userData = some before ∧
          before.cancellable = oldItem.cancellable)
    (waiting : ∀ property number, after.oldProperties property = some number →
      cache.oldProperties property = some number ∧
        (property = entry.2.property → cache.cancelled entry.2.cancellable = true)) :
    Lined after (calls.eraseIdx index) serial := by
  have fewer := fun other (member : other ∈ calls.eraseIdx index) =>
    List.mem_of_mem_eraseIdx member
  refine ⟨tracked, ?_, ?_, ?_, ?_, ?_, ?_⟩
  · exact lined.unique.sublist ((List.eraseIdx_sublist ..).map _)
  · exact fun other member => lined.bound other (fewer other member)
  · intro other member
    rw [nextCancellable]
    exact lined.given other (fewer other member)
  · refine (lined.older.sublist (List.eraseIdx_sublist ..)).imp ?_
    exact fun before same => grows _ (before same)
  · intro other member running oldItem held
    obtain ⟨before, was, same⟩ := items other member oldItem held
    rw [← same]
    refine lined.shared other (fewer other member) ?_ before was
    cases earlier : cache.cancelled other.2.cancellable with
    | false => rfl
    | true =>
        rw [grows _ earlier] at running
        cases running
  · intro property number there
    obtain ⟨was, mine⟩ := waiting property number there
    obtain ⟨other, member, named, running⟩ := lined.newest property number was
    have remains : other ∈ calls.eraseIdx index := by
      refine Lined.left present member ?_
      rintro rfl
      rw [mine named.symm] at running
      cases running
    exact ⟨other, remains, named, others other remains running⟩

theorem waited (lined : Lined cache calls serial) {index : Nat} {entry : Nat × SetPropertyCall}
    (present : calls[index]? = some entry)
    (cancelled : cache.cancelled entry.2.cancellable = true) (finish : Except DBusError Unit) :
    ∃ before, cache.oldItems entry.2.userData = some before ∧
      esconfCacheSetPropertyReplyHandler cache entry.2.userData finish =
        some (cache.setOldItem entry.2.userData
          { before with pendingCallsCount := before.pendingCallsCount - 1 }, none) ∧
      Lined (cache.setOldItem entry.2.userData
          { before with pendingCallsCount := before.pendingCallsCount - 1 })
        (calls.eraseIdx index) serial := by
  have listed : (calls.map Prod.snd)[index]? = some entry.2 := by
    rw [List.getElem?_map, present]
    rfl
  obtain ⟨before, held, named, _, ⟨_, more⟩ | ⟨none, _⟩⟩ := lined.tracked.callback_cases listed
  · refine ⟨before, held, esconfCacheSetPropertyReplyHandler_waits held more, ?_⟩
    obtain ⟨_, _, done, tracked⟩ := lined.tracked.callback listed finish
    rw [esconfCacheSetPropertyReplyHandler_waits held more] at done
    cases done
    rw [List.eraseIdx_map] at tracked
    refine lined.erased present tracked rfl (fun _ was => was) (fun _ _ was => was) ?_ ?_
    · intro other member oldItem there
      by_cases mine : other.2.userData = entry.2.userData
      · simp only [EsconfCache.setOldItem, mine, Function.update_self, Option.some.injEq] at there
        exact ⟨before, mine ▸ held, there ▸ rfl⟩
      · simp only [EsconfCache.setOldItem, Function.update_of_ne mine] at there
        exact ⟨oldItem, there, rfl⟩
    · exact fun _ _ there => ⟨there, fun _ => cancelled⟩
  · obtain ⟨other, member, shared, running⟩ := lined.newest entry.2.property entry.2.userData
      (lined.tracked.listed entry.2 (List.mem_of_getElem? listed))
    refine absurd shared (none other.2 ?_)
    rw [List.eraseIdx_map]
    refine Lined.member (Lined.left present member ?_)
    rintro rfl
    rw [cancelled] at running
    cases running

theorem answered (lined : Lined cache calls serial) {index : Nat} {entry : Nat × SetPropertyCall}
    (present : calls[index]? = some entry)
    (running : cache.cancelled entry.2.cancellable = false)
    (turn : ∀ earlier ∈ calls.take index, earlier.2.property ≠ entry.2.property) :
    ∃ after announced,
      esconfCacheSetPropertyReplyHandler cache entry.2.userData (.ok ()) =
        some (after, announced) ∧
      after.properties = cache.properties ∧
      after.oldProperties = Function.update cache.oldProperties entry.2.property none ∧
      (∀ number, number ≠ entry.2.userData → after.oldItems number = cache.oldItems number) ∧
      (∀ cancellable, after.cancelled cancellable = false →
        cache.cancelled cancellable = false) ∧
      Lined after (calls.eraseIdx index) serial := by
  have listed : (calls.map Prod.snd)[index]? = some entry.2 := by
    rw [List.getElem?_map, present]
    rfl
  have alone : ∀ other ∈ calls.eraseIdx index, other.2.property ≠ entry.2.property := by
    intro other member same
    obtain ⟨place, apart, there⟩ := List.mem_eraseIdx_iff_getElem?.mp member
    obtain ⟨bound, rfl⟩ := List.getElem?_eq_some_iff.mp there
    obtain ⟨before, rfl⟩ := List.getElem?_eq_some_iff.mp present
    rcases Nat.lt_or_gt_of_ne apart with earlier | later
    · refine turn _ ?_ same
      rw [List.mem_take_iff_getElem]
      exact ⟨place, by omega, rfl⟩
    · have cancelled := List.pairwise_iff_getElem.mp lined.older index place before bound later
        same.symm
      rw [running] at cancelled
      cases cancelled
  obtain ⟨oldItem, held, named, alive, ⟨⟨call, remains, same⟩, _⟩ | ⟨_, last⟩⟩ :=
    lined.tracked.callback_cases listed
  · rw [List.eraseIdx_map] at remains
    obtain ⟨other, member, rfl⟩ := List.mem_map.mp remains
    exact absurd same (alone other member)
  · obtain ⟨after, announced, remaining, done, oldItems, _, oldProperties, cancelled, _, next, _⟩ :=
      @esconfCacheSetPropertyReplyHandler_settles _ _ _ (.ok ()) held last alive
    obtain ⟨_, _, again, tracked⟩ := lined.tracked.callback listed (.ok ())
    rw [done] at again
    cases again
    rw [List.eraseIdx_map] at tracked
    have items : ∀ number, number ≠ entry.2.userData →
        after.oldItems number = cache.oldItems number := by
      intro number different
      rw [oldItems, Function.update_of_ne different]
    -- The other calls are for other old items.
    have elsewhere : ∀ other ∈ calls.eraseIdx index, other.2.userData ≠ entry.2.userData := by
      intro other member shared
      obtain ⟨item, present, mine, _⟩ :=
        lined.tracked.alive (Lined.member (List.mem_of_mem_eraseIdx member))
      rw [shared, held, Option.some.injEq] at present
      exact alone other member (by rw [← mine, ← present, named])
    have grows : ∀ cancellable, cache.cancelled cancellable = true →
        after.cancelled cancellable = true := by
      intro cancellable was
      rw [cancelled cancellable, was]
      rintro rfl
      rw [alive] at was
      cases was
    refine ⟨after, announced, done, esconfCacheSetPropertyReplyHandler_ok done,
      named ▸ oldProperties, items, ?_, ?_⟩
    · intro cancellable stays
      cases was : cache.cancelled cancellable with
      | false => rfl
      | true =>
          rw [grows cancellable was] at stays
          cases stays
    · refine lined.erased present tracked next grows ?_ ?_ ?_
      · intro other member was
        rw [cancelled _, was]
        intro shared
        obtain ⟨item, present, _⟩ :=
          lined.tracked.alive (Lined.member (List.mem_of_mem_eraseIdx member))
        have mine := lined.shared other (List.mem_of_mem_eraseIdx member) was item present
        exact elsewhere other member
          (lined.tracked.coherent.apart _ _ _ _ present held (mine.trans shared))
      · intro other member item there
        rw [items _ (elsewhere other member)] at there
        exact ⟨item, there, rfl⟩
      · intro property number there
        rw [oldProperties, named] at there
        by_cases mine : property = entry.2.property
        · rw [mine, Function.update_self] at there
          cases there
        · rw [Function.update_of_ne mine] at there
          exact ⟨there, fun same => absurd same mine⟩

end Lined

end Esconf
