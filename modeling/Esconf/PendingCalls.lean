import Esconf.CacheRuns

/-! Which old items the two tables of a cache lead to. -/

namespace Esconf

open CacheClient

/-- A call has the old item of its property, the pending calls are those of the old
properties, and an old item has a variant to send. -/
structure Tracked (cache : EsconfCache) (calls : List SetPropertyCall) : Prop where
  coherent : Coherent cache calls
  listed : ∀ call ∈ calls, cache.oldProperties call.property = some call.userData
  pending : ∀ cancellable number, cache.pendingCalls cancellable = some number ↔
    ∃ oldItem, cache.oldItems number = some oldItem ∧ oldItem.cancellable = cancellable ∧
      cache.oldProperties oldItem.property = some number
  carrying : ∀ number oldItem, cache.oldItems number = some oldItem → oldItem.variant.isSome

namespace Tracked

variable {host : Host} {cache after : EsconfCache} {calls : List SetPropertyCall}

theorem new (channelName : CString) : Tracked (EsconfCache.new channelName) [] := by
  refine ⟨Coherent.new channelName, nofun, ?_, nofun⟩
  intro cancellable number
  constructor
  · intro there
    cases there
  · rintro ⟨_, held, _⟩
    cases held

theorem cached (tracked : Tracked cache calls) (properties : CString → Option GValue) :
    Tracked { cache with properties } calls :=
  ⟨tracked.coherent.cached properties, tracked.listed, tracked.pending, tracked.carrying⟩

theorem idle (tracked : Tracked cache calls) {property : CString}
    (none : cache.oldProperties property = none) :
    (∀ call ∈ calls, call.property ≠ property) ∧
      ∀ cancellable number, cache.pendingCalls cancellable = some number →
        ∃ oldItem, cache.oldItems number = some oldItem ∧ oldItem.property ≠ property := by
  constructor
  · rintro call member rfl
    have there := tracked.listed call member
    rw [none] at there
    cases there
  · intro cancellable number present
    obtain ⟨oldItem, held, _, there⟩ := (tracked.pending cancellable number).mp present
    refine ⟨oldItem, held, ?_⟩
    rintro rfl
    rw [none] at there
    cases there

theorem waiting (tracked : Tracked cache calls) {property : CString} {number : Nat}
    (there : cache.oldProperties property = some number) :
    ∃ call ∈ calls, call.property = property ∧ call.userData = number := by
  obtain ⟨oldItem, held, name, _, some⟩ := tracked.coherent.known property number there
  rw [tracked.coherent.counted number oldItem held] at some
  obtain ⟨call, member, here⟩ := List.countP_pos_iff.mp (Int.natCast_pos.mp some)
  rw [beq_iff_eq] at here
  obtain ⟨again, present, same⟩ := tracked.coherent.addressed call member
  rw [here, held, Option.some.injEq] at present
  exact ⟨call, member, by rw [← same, ← present, name], here⟩

theorem alive (tracked : Tracked cache calls) {call : SetPropertyCall} (member : call ∈ calls) :
    ∃ oldItem, cache.oldItems call.userData = some oldItem ∧ oldItem.property = call.property ∧
      cache.cancelled oldItem.cancellable = false ∧
      cache.pendingCalls oldItem.cancellable = some call.userData := by
  have there := tracked.listed call member
  obtain ⟨oldItem, held, name, alive, _⟩ := tracked.coherent.known _ _ there
  refine ⟨oldItem, held, name, alive, ?_⟩
  rw [tracked.pending]
  exact ⟨oldItem, held, rfl, by rw [name, there]⟩

theorem called (tracked : Tracked cache calls) {number : Nat} {oldItem : EsconfCacheOldItem}
    {call : SetPropertyCall} (coherent : Coherent after (calls ++ [call]))
    (oldItems : after.oldItems = Function.update cache.oldItems number (some oldItem))
    (oldProperties : after.oldProperties =
      Function.update cache.oldProperties oldItem.property (some number))
    (renewed : oldItem.cancellable = cache.nextCancellable)
    (same : ∀ other, cache.oldProperties oldItem.property = some other → other = number)
    (made : after.pendingCalls cache.nextCancellable = some number)
    (others : ∀ cancellable, cancellable ≠ cache.nextCancellable →
      after.pendingCalls cancellable = if cache.pendingCalls cancellable = some number then none
        else cache.pendingCalls cancellable)
    (userData : call.userData = number) (property : call.property = oldItem.property)
    (variant : oldItem.variant.isSome) : Tracked after (calls ++ [call]) := by
  refine ⟨coherent, ?_, ?_, ?_⟩
  · intro other member
    rw [oldProperties]
    rcases List.mem_append.mp member with before | last
    · have there := tracked.listed other before
      by_cases here : other.property = oldItem.property
      · rw [here] at there ⊢
        rw [Function.update_self, same _ there]
      · rw [Function.update_of_ne here, there]
    · rw [List.mem_singleton.mp last, property, userData, Function.update_self]
  · intro cancellable other
    by_cases new : cancellable = cache.nextCancellable
    · subst new
      rw [made, oldItems, Option.some.injEq]
      constructor
      · rintro rfl
        exact ⟨oldItem, Function.update_self .., renewed, by
          rw [oldProperties, Function.update_self]⟩
      · rintro ⟨otherItem, held, shared, _⟩
        by_contra different
        rw [Function.update_of_ne (Ne.symm different)] at held
        exact absurd shared (Nat.ne_of_lt (tracked.coherent.numbered other otherItem held))
    · rw [others cancellable new]
      by_cases here : other = number
      · subst here
        constructor
        · intro there
          split at there
          · cases there
          · next different => exact absurd there different
        · rintro ⟨otherItem, held, shared, _⟩
          rw [oldItems, Function.update_self, Option.some.injEq] at held
          rw [← held, renewed] at shared
          exact absurd shared.symm new
      · have unchanged : (if cache.pendingCalls cancellable = some number then none
            else cache.pendingCalls cancellable) = some other ↔
            cache.pendingCalls cancellable = some other := by
          split
          · next mine => simp [mine, Ne.symm here]
          · rfl
        rw [unchanged, tracked.pending, oldItems, Function.update_of_ne here, oldProperties]
        refine exists_congr fun otherItem => and_congr_right fun held => and_congr_right fun _ => ?_
        by_cases name : otherItem.property = oldItem.property
        · rw [name, Function.update_self, Option.some.injEq]
          exact iff_of_false (fun there => here (same _ there)) (fun mine => here mine.symm)
        · rw [Function.update_of_ne name]
  · intro other otherItem held
    rw [oldItems] at held
    by_cases here : other = number
    · rw [here, Function.update_self, Option.some.injEq] at held
      exact held ▸ variant
    · rw [Function.update_of_ne here] at held
      exact tracked.carrying other otherItem held

theorem setLookedUp (tracked : Tracked cache calls) {property : CString} {value : GValue}
    {item : Option GValue} {outcome : SetReturn}
    (ready : (esconfGvalueToGvariant host value).isSome ∨ item.any (GValue.isEqual · value) = true)
    (returned : Esconf.setLookedUp host cache property value item = some outcome) :
    Tracked outcome.cache (calls ++ outcome.call.toList) := by
  have coherent := tracked.coherent.setLookedUp ready returned
  cases differs : item.any (GValue.isEqual · value) with
  | true =>
      rw [setLookedUp_equal differs] at returned
      cases returned
      rwa [Option.toList_none, List.append_nil]
  | false =>
      rw [differs, or_iff_left Bool.false_ne_true] at ready
      obtain ⟨val, converted⟩ := Option.isSome_iff_exists.mp ready
      cases there : cache.oldProperties property with
      | some number =>
          obtain ⟨oldItem, held, rfl, alive, _⟩ := tracked.coherent.known property number there
          rw [setLookedUp_again differs there held alive converted] at returned
          cases returned
          refine tracked.called coherent rfl (Function.update_eq_self_iff.mpr there.symm).symm rfl
            ?_ (Function.update_self ..) ?_ rfl rfl rfl
          · intro other again
            exact Option.some.inj (again.symm.trans there)
          · intro cancellable old
            refine (Function.update_of_ne old ..).trans ?_
            by_cases shared : cancellable = oldItem.cancellable
            · rw [shared, Function.update_self, if_pos]
              exact (tracked.pending _ _).mpr ⟨oldItem, held, rfl, there⟩
            · rw [Function.update_of_ne shared, if_neg]
              intro present
              obtain ⟨again, same, mine, _⟩ := (tracked.pending _ _).mp present
              rw [held, Option.some.injEq] at same
              exact shared (mine.symm.trans (congrArg _ same.symm))
      | none =>
          rw [setLookedUp_first differs there converted] at returned
          cases returned
          refine tracked.called coherent rfl rfl rfl ?_ (Function.update_self ..) ?_ rfl rfl rfl
          · intro other again
            rw [there] at again
            cases again
          · intro cancellable old
            refine (Function.update_of_ne old ..).trans (if_neg ?_).symm
            intro present
            obtain ⟨again, held, _⟩ := (tracked.pending _ _).mp present
            rw [tracked.coherent.allocated _ (Nat.le_refl _)] at held
            cases held

theorem callback_cases (tracked : Tracked cache calls) {index : Nat} {call : SetPropertyCall}
    (present : calls[index]? = some call) :
    ∃ oldItem, cache.oldItems call.userData = some oldItem ∧ oldItem.property = call.property ∧
      cache.cancelled oldItem.cancellable = false ∧
      ((∃ other ∈ calls.eraseIdx index, other.property = call.property) ∧
          0 < oldItem.pendingCallsCount - 1 ∨
        (∀ other ∈ calls.eraseIdx index, other.property ≠ call.property) ∧
          ¬0 < oldItem.pendingCallsCount - 1) := by
  have member := List.mem_of_getElem? present
  have there := tracked.listed call member
  obtain ⟨oldItem, held, name, alive, _⟩ := tracked.alive member
  refine ⟨oldItem, held, name, alive, ?_⟩
  have counter := Coherent.callsOf_eraseIdx_self present (tracked.coherent.counted _ _ held)
  rw [counter, Int.natCast_pos]
  by_cases some : 0 < callsOf (calls.eraseIdx index) call.userData
  · refine Or.inl ⟨?_, some⟩
    obtain ⟨other, left, shared⟩ := List.countP_pos_iff.mp some
    obtain ⟨again, same, mine⟩ := tracked.coherent.addressed other (List.mem_of_mem_eraseIdx left)
    rw [beq_iff_eq] at shared
    rw [shared, held, Option.some.injEq] at same
    exact ⟨other, left, by rw [← mine, ← same, name]⟩
  · refine Or.inr ⟨?_, some⟩
    intro other left shared
    have again := tracked.listed other (List.mem_of_mem_eraseIdx left)
    rw [shared, there, Option.some.injEq] at again
    exact some (List.countP_pos_iff.mpr ⟨other, left, beq_iff_eq.mpr again.symm⟩)

theorem callback (tracked : Tracked cache calls) {index : Nat} {call : SetPropertyCall}
    (present : calls[index]? = some call) (finish : Except DBusError Unit) :
    ∃ after announced, esconfCacheSetPropertyReplyHandler cache call.userData finish =
      some (after, announced) ∧ Tracked after (calls.eraseIdx index) := by
  obtain ⟨after, announced, done, coherent⟩ := tracked.coherent.callback present finish
  refine ⟨after, announced, done, ?_⟩
  have there := tracked.listed call (List.mem_of_getElem? present)
  obtain ⟨oldItem, held, name, alive, ⟨_, more⟩ | ⟨none, last⟩⟩ := tracked.callback_cases present
  · rw [esconfCacheSetPropertyReplyHandler_waits held more] at done
    cases done
    refine ⟨coherent, fun other left => tracked.listed other (List.mem_of_mem_eraseIdx left),
      ?_, ?_⟩
    · intro cancellable number
      rw [show (cache.setOldItem call.userData _).pendingCalls = cache.pendingCalls from rfl,
        tracked.pending]
      by_cases here : number = call.userData
      · simp [EsconfCache.setOldItem, here, held]
      · simp [EsconfCache.setOldItem, Function.update_of_ne here]
    · intro number other item
      by_cases here : number = call.userData
      · simp only [EsconfCache.setOldItem, here, Function.update_self, Option.some.injEq] at item
        exact item ▸ tracked.carrying _ oldItem held
      · simp only [EsconfCache.setOldItem, Function.update_of_ne here] at item
        exact tracked.carrying number other item
  · obtain ⟨_, _, remaining, settled, oldItems, left, oldProperties, _, _, _, pendingCalls⟩ :=
      esconfCacheSetPropertyReplyHandler_settles held last alive
    rw [done] at settled
    cases settled
    have kept : ∀ {property number}, after.oldProperties property = some number ↔
        property ≠ call.property ∧ cache.oldProperties property = some number := by
      intro property number
      rw [oldProperties, name]
      by_cases this : property = call.property
      · simp [this]
      · simp [this]
    -- What is left of the old item, if anything, differs from it in the counter.
    have remains : ∀ other, after.oldItems call.userData = some other →
        other = { oldItem with pendingCallsCount := oldItem.pendingCallsCount - 1 } := by
      intro other item
      rw [oldItems, Function.update_self] at item
      rcases left with missing | counted
      · rw [missing] at item
        cases item
      · rw [counted, Option.some.injEq] at item
        exact item.symm
    have carried : ∀ number other, after.oldItems number = some other → other.variant.isSome := by
      intro number other item
      by_cases here : number = call.userData
      · rw [remains other (here ▸ item)]
        exact tracked.carrying _ oldItem held
      · rw [oldItems, Function.update_of_ne here] at item
        exact tracked.carrying number other item
    refine ⟨coherent, ?_, ?_, carried⟩
    · intro other member
      rw [kept]
      exact ⟨none other member, tracked.listed other (List.mem_of_mem_eraseIdx member)⟩
    · intro cancellable number
      rw [pendingCalls]
      by_cases shared : cancellable = oldItem.cancellable
      · rw [shared, Function.update_self]
        refine iff_of_false (fun there => Option.some_ne_none _ there.symm) ?_
        rintro ⟨other, item, same, again⟩
        rw [kept] at again
        by_cases here : number = call.userData
        · rw [remains other (here ▸ item)] at again
          exact again.1 name
        · rw [oldItems, Function.update_of_ne here] at item
          exact here (tracked.coherent.apart _ _ _ _ item held same)
      · rw [Function.update_of_ne shared, tracked.pending]
        by_cases here : number = call.userData
        · rw [here]
          refine iff_of_false ?_ ?_
          · rintro ⟨other, item, same, _⟩
            rw [held, Option.some.injEq] at item
            exact shared (by rw [← same, ← item])
          · rintro ⟨other, item, same, _⟩
            rw [remains other item] at same
            exact shared same.symm
        · rw [oldItems, Function.update_of_ne here]
          refine exists_congr fun other => and_congr_right fun item => and_congr_right fun _ => ?_
          rw [kept]
          refine (and_iff_right_of_imp ?_).symm
          intro again mine
          rw [mine, there, Option.some.injEq] at again
          exact here again.symm

theorem lookup (tracked : Tracked cache calls) (property : CString)
    (reply : Except DBusError GVariant) :
    Tracked (esconfCacheLookupLocked cache property reply).2.2 calls := by
  rcases esconfCacheLookupLocked_cases cache property reply with
    ⟨error, found⟩ | ⟨fetched, _, found⟩
  · rw [found]
    exact tracked
  · rw [found]
    exact tracked.cached _

theorem reset (tracked : Tracked cache calls) (propertyBase : CString) (recursive : Bool)
    (reply : Except DBusError Unit) :
    Tracked (esconfCacheReset cache propertyBase recursive reply).2.2 calls := by
  cases reply with
  | error error => exact tracked
  | ok =>
      cases recursive with
      | true => exact tracked.cached _
      | false => exact tracked.cached _

theorem propertyChanged (tracked : Tracked cache calls) (channelName property : CString)
    (propVariant : GVariant) :
    Tracked (esconfCacheHandlePropertyChanged cache channelName property propVariant).1 calls := by
  unfold esconfCacheHandlePropertyChanged
  split
  · exact tracked
  · split
    · exact tracked
    · split
      · exact tracked.cached _
      · exact tracked.cached _
      · exact tracked
      · exact tracked

theorem propertyRemoved (tracked : Tracked cache calls) (channelName property : CString) :
    Tracked (esconfCacheHandlePropertyRemoved cache channelName property).1 calls := by
  unfold esconfCacheHandlePropertyRemoved
  split
  · exact tracked
  · exact tracked.cached _

theorem set (tracked : Tracked cache calls) {property : CString} {value : GValue}
    {reply : Except DBusError GVariant} {outcome : SetReturn}
    (safe : SetIsSafe host cache property value reply)
    (returned : esconfCacheSet host cache property value reply = some outcome) :
    Tracked outcome.cache (calls ++ outcome.call.toList) := by
  have kept := tracked.lookup property reply
  rcases tracked.coherent.set_cases safe returned with ⟨same, quiet⟩ | ⟨item, ready, went⟩
  · rw [same, quiet, Option.toList_none, List.append_nil]
    exact kept
  · exact kept.setLookedUp ready went

/-- Every safe event of a client finds what it needs, and keeps the tables. -/
theorem step {client next : CacheClient} (tracked : Tracked client.cache client.calls)
    {event : CacheEvent} (safe : client.Safe host event)
    (stepped : client.step host event = some next) : Tracked next.cache next.calls := by
  cases event with
  | set property value reply =>
      obtain ⟨outcome, returned, rfl⟩ := Option.map_eq_some_iff.mp stepped
      exact tracked.set safe returned
  | lookup property reply =>
      cases stepped
      exact tracked.lookup property reply
  | reset propertyBase recursive reply =>
      cases stepped
      exact tracked.reset propertyBase recursive reply
  | propertyChanged channelName property propVariant =>
      cases stepped
      exact tracked.propertyChanged channelName property propVariant
  | propertyRemoved channelName property =>
      cases stepped
      exact tracked.propertyRemoved channelName property
  | callback index finish =>
      simp only [CacheClient.step] at stepped
      split at stepped
      · cases stepped
      · next call present =>
          obtain ⟨after, announced, done, kept⟩ := tracked.callback present finish
          rw [done] at stepped
          cases stepped
          exact kept

end Tracked

theorem CacheClient.SafelyReached.tracked {host : Host} {client : CacheClient}
    (reached : SafelyReached host client) : Tracked client.cache client.calls := by
  induction reached with
  | new channelName => exact Tracked.new channelName
  | step _ safe stepped tracked => exact tracked.step safe stepped

end Esconf
