import Esconf.CallLines
import Esconf.SoleWriter

/-! What a daemon ends with when its only client finalises the cache. -/

namespace Esconf

open CacheClient

variable {host : Host}

def BusMessage.replySerial : BusMessage → Option Nat
  | .setPropertyReply serial => some serial
  | _ => none

def Fresh (values : CString → Option GValue) (property : CString)
    (messages : List (CString × BusMessage)) : Prop :=
  ∀ message ∈ messages, message.1 = property → ∀ variant, message.2 = .propertyChanged variant →
    esconfGvariantToGvalue variant = values property

theorem Fresh.same {before after : CString → Option GValue} {property : CString}
    {messages : List (CString × BusMessage)} (fresh : Fresh before property messages)
    (same : after property = before property) : Fresh after property messages := by
  intro message member mine variant changed
  rw [same, fresh message member mine variant changed]

theorem Fresh.append {values : CString → Option GValue} {property : CString}
    {messages more : List (CString × BusMessage)} (fresh : Fresh values property messages)
    (added : Fresh values property more) : Fresh values property (messages ++ more) := by
  intro message member
  rcases List.mem_append.mp member with before | new
  · exact fresh message before
  · exact added message new

theorem Fresh.reply (values : CString → Option GValue) (property name : CString) (serial : Nat) :
    Fresh values property [(name, .setPropertyReply serial)] := by
  intro message member _ variant changed
  rw [List.mem_singleton.mp member] at changed
  cases changed

namespace SoleWriter

variable {c : SoleWriter}

def serials (c : SoleWriter) : List Nat :=
  c.messages.filterMap (·.2.replySerial) ++ c.requests.map ChannelRequest.serial

/-- The newest call of a property is its last request, or its answer is on its way and the
signals after that are fresh. -/
def Awaited (c : SoleWriter) (entry : Nat × SetPropertyCall) : Prop :=
  (∀ request ∈ c.requests, request.property = entry.2.property → request.serial ≤ entry.1) ∧
    ((∃ request ∈ c.requests, request.property = entry.2.property ∧ request.serial = entry.1) ∨
      (∀ request ∈ c.requests, request.property ≠ entry.2.property) ∧
        ∃ before after,
          c.messages = before ++ (entry.2.property, .setPropertyReply entry.1) :: after ∧
            Fresh c.values entry.2.property after)

theorem finalValues_append (c : SoleWriter) (sent : List SentValue) :
    c.finalValues sent = sent.foldl takeUp (c.finalValues []) := by
  simp only [finalValues, List.foldl_append, List.foldl_nil]

theorem finalValues_unrequested {property : CString}
    (none : ∀ request ∈ c.requests, request.property ≠ property) :
    c.finalValues [] property = c.values property := by
  rw [finalValues, List.append_nil]
  refine foldl_takeUp_other ?_
  intro sent member
  obtain ⟨request, listed, rfl⟩ := List.mem_map.mp member
  exact none request listed

/-- What holds when the values set and those of the daemon come back from the bus unchanged: the
daemon will have what is cached, which agrees with the value last set. -/
structure Written (host : Host) (c : SoleWriter) : Prop where
  lined : Lined c.cache c.calls c.serial
  ordered : c.serials.Pairwise (· < ·)
  numbered : ∀ serial ∈ c.serials, serial < c.serial
  stored : ∀ property value, c.values property = some value → Travels host value
  sent : ∀ request ∈ c.requests, ∃ value, Travels host value ∧
    esconfGvariantToGvalue request.variant = some value
  noticed : ∀ property ∈ c.idles, (c.values property).isSome
  present : ∀ message ∈ c.messages, message.2 ≠ .propertyRemoved
  entries : ∀ property value, c.cache.properties property = some value →
    Travels host value ∧ Option.Rel GValue.Agrees (c.finalValues [] property) (some value)
  lasts : ∀ property last, c.lastSet property = some last →
    ∃ value, c.cache.properties property = some value ∧ GValue.Agrees value last
  busy : ∀ property number oldItem, c.cache.oldProperties property = some number →
    c.cache.oldItems number = some oldItem → ∃ value val,
      c.cache.properties property = some value ∧ esconfGvalueToGvariant host value = some val ∧
        oldItem.variant = some val ∧ (c.lastSet property).isSome
  idle : ∀ property, c.cache.oldProperties property = none →
    (∀ request ∈ c.requests, request.property ≠ property) ∧ Fresh c.values property c.messages
  awaited : ∀ entry ∈ c.calls, c.cache.cancelled entry.2.cancellable = false → c.Awaited entry

namespace Written

theorem start {channelName : CString} {values cached : CString → Option GValue}
    (travels : ∀ property value, values property = some value → Travels host value)
    (fresh : ∀ property, cached property = none ∨ cached property = values property) :
    Written host (SoleWriter.start channelName values cached) := by
  refine ⟨Lined.start channelName cached, List.Pairwise.nil, nofun, travels, nofun, nofun, nofun,
    ?_, nofun, nofun, fun _ _ => ⟨nofun, fun _ listed => absurd listed List.not_mem_nil⟩, nofun⟩
  intro property value entry
  rcases fresh property with none | same
  · cases none.symm.trans entry
  · have there := same.symm.trans entry
    refine ⟨travels property value there, ?_⟩
    rw [finalValues_unrequested fun _ listed => absurd listed List.not_mem_nil]
    exact there ▸ Option.Rel.some (GValue.Agrees.refl value)

theorem process (written : Written host c) {request : ChannelRequest}
    {rest : List ChannelRequest} (shape : c.requests = request :: rest) :
    Written host ({ c with requests := rest }.handle request) := by
  have fewer : ∀ other ∈ rest, other ∈ c.requests := by
    intro other member
    rw [shape]
    exact List.mem_cons_of_mem _ member
  have head : request ∈ c.requests := by
    rw [shape]
    exact List.mem_cons_self
  obtain ⟨value, travels, decoded⟩ := written.sent request head
  have serials : ({ c with requests := rest }.handle request).serials = c.serials := by
    simp only [SoleWriter.serials, SoleWriter.handle, shape, List.filterMap_append, List.map_cons,
      List.append_assoc]
    rfl
  have later : ∀ other ∈ rest, request.serial < other.serial := by
    intro other member
    have ordered := (List.pairwise_append.mp written.ordered).2.1
    rw [shape, List.map_cons, List.pairwise_cons] at ordered
    exact ordered.1 _ (List.mem_map_of_mem member)
  refine ⟨written.lined, ?_, ?_, ?_, ?_, ?_, ?_, ?_, written.lasts, written.busy, ?_, ?_⟩
  · rw [serials]
    exact written.ordered
  · rw [serials]
    exact written.numbered
  · intro property other there
    change takeUp c.values (request.property, request.variant) property = some other at there
    by_cases mine : property = request.property
    · obtain ⟨stored, left, _, same | before⟩ := takeUp_self c.values request.property
        travels decoded
      · rw [mine, left, Option.some.injEq] at there
        exact there ▸ same ▸ travels
      · rw [mine, left, Option.some.injEq] at there
        exact there ▸ written.stored _ stored before
    · rw [takeUp_other mine] at there
      exact written.stored property other there
  · exact fun other member => written.sent other (fewer other member)
  · intro property member
    simp only [SoleWriter.handle] at member ⊢
    split at member
    · rcases List.mem_append.mp member with before | new
      · exact takeUp_isSome (written.noticed property before)
      · obtain ⟨stored, left, _⟩ := takeUp_self c.values request.property
          travels decoded
        rw [List.mem_singleton.mp new, left]
        rfl
    · exact takeUp_isSome (written.noticed property member)
  · intro message member
    rcases List.mem_append.mp member with before | new
    · exact written.present message before
    · rw [List.mem_singleton.mp new]
      exact nofun
  · intro property other there
    have same := written.entries property other there
    rw [finalValues, shape] at same
    exact same
  · intro property idle
    obtain ⟨none, fresh⟩ := written.idle property idle
    have apart := none request head
    refine ⟨fun other member => none other (fewer other member), ?_⟩
    exact (fresh.append (Fresh.reply _ _ _ _)).same (takeUp_other (Ne.symm apart))
  · intro entry member running
    obtain ⟨bound, waits⟩ := written.awaited entry member running
    refine ⟨fun other remains => bound other (fewer other remains), ?_⟩
    rcases waits with ⟨other, listed, mine, number⟩ | ⟨none, before, after, messages, fresh⟩
    · rw [shape, List.mem_cons] at listed
      rcases listed with rfl | remains
      · refine Or.inr ⟨?_, c.messages, [], ?_, nofun⟩
        · intro another remains same
          have above := later another remains
          have below := bound another (fewer another remains) same
          omega
        · rw [← mine, ← number]
          rfl
      · exact Or.inl ⟨other, remains, mine, number⟩
    · have apart := none request head
      refine Or.inr ⟨fun other remains => none other (fewer other remains), before,
        after ++ [(request.property, .setPropertyReply request.serial)], ?_, ?_⟩
      · simp only [SoleWriter.handle, messages, List.append_assoc, List.cons_append]
      · exact (fresh.append (Fresh.reply _ _ _ _)).same (takeUp_other (Ne.symm apart))

theorem notify (written : Written host c) {index : Nat} {property : CString}
    (listed : c.idles[index]? = some property) :
    Written host { c with
      idles := c.idles.eraseIdx index,
      messages := c.messages ++
        (esconfDaemonEmitPropertyChangedIdled host (c.values property)).map (property, ·) } := by
  obtain ⟨value, there⟩ := Option.isSome_iff_exists.mp
    (written.noticed property (List.mem_of_getElem? listed))
  obtain ⟨val, converted, _, back⟩ := written.stored property value there
  have emitted : (esconfDaemonEmitPropertyChangedIdled host (c.values property)).map (property, ·) =
      [(property, .propertyChanged val)] := by
    simp [esconfDaemonEmitPropertyChangedIdled, there, converted]
  rw [emitted]
  have fresh : ∀ name, Fresh c.values name [(property, .propertyChanged val)] := by
    intro name message member mine variant changed
    rw [List.mem_singleton.mp member] at mine changed
    cases changed
    rw [back, ← mine, there]
  have serials : SoleWriter.serials { c with
      idles := c.idles.eraseIdx index,
      messages := c.messages ++ [(property, .propertyChanged val)] } = c.serials := by
    simp [SoleWriter.serials, BusMessage.replySerial]
  refine ⟨written.lined, ?_, ?_, written.stored, written.sent, ?_, ?_, written.entries,
    written.lasts, written.busy, ?_, ?_⟩
  · rw [serials]
    exact written.ordered
  · rw [serials]
    exact written.numbered
  · exact fun name member => written.noticed name (List.mem_of_mem_eraseIdx member)
  · intro message member
    rcases List.mem_append.mp member with before | new
    · exact written.present message before
    · rw [List.mem_singleton.mp new]
      intro removed
      cases removed
  · intro name idle
    obtain ⟨none, before⟩ := written.idle name idle
    exact ⟨none, before.append (fresh name)⟩
  · intro entry member running
    obtain ⟨bound, waits⟩ := written.awaited entry member running
    refine ⟨bound, waits.imp_right ?_⟩
    rintro ⟨none, before, after, messages, later⟩
    refine ⟨none, before, after ++ [(property, .propertyChanged val)], ?_, later.append (fresh _)⟩
    simp only [messages, List.append_assoc, List.cons_append]

theorem pass (written : Written host c) {message : CString × BusMessage}
    {rest : List (CString × BusMessage)} (shape : c.messages = message :: rest)
    (other : ∀ entry ∈ c.calls, c.cache.cancelled entry.2.cancellable = false →
      message.2 ≠ .setPropertyReply entry.1) : Written host { c with messages := rest } := by
  have fewer : ({ c with messages := rest } : SoleWriter).serials.Sublist c.serials := by
    simp only [SoleWriter.serials, shape]
    exact ((List.sublist_cons_self ..).filterMap _).append (List.Sublist.refl _)
  have remains : ∀ later ∈ rest, later ∈ c.messages := by
    intro later member
    rw [shape]
    exact List.mem_cons_of_mem _ member
  refine ⟨written.lined, written.ordered.sublist fewer, ?_, written.stored, written.sent,
    written.noticed, ?_, written.entries, written.lasts, written.busy, ?_, ?_⟩
  · exact fun serial member => written.numbered serial (fewer.subset member)
  · exact fun later member => written.present later (remains later member)
  · intro property idle
    obtain ⟨none, fresh⟩ := written.idle property idle
    exact ⟨none, fun later member => fresh later (remains later member)⟩
  · intro entry member running
    obtain ⟨bound, waits⟩ := written.awaited entry member running
    refine ⟨bound, waits.imp_right ?_⟩
    rintro ⟨none, before, after, messages, later⟩
    refine ⟨none, ?_⟩
    rw [shape] at messages
    cases before with
    | nil =>
        rw [List.nil_append, List.cons.injEq] at messages
        exact absurd (by rw [messages.1]) (other entry member running)
    | cons first before =>
        rw [List.cons_append, List.cons.injEq] at messages
        exact ⟨before, after, messages.2, later⟩

theorem updated (written : Written host c) {property : CString} {updated value : GValue}
    (idle : c.cache.oldProperties property = none) (there : c.values property = some value)
    (travels : Travels host updated) (agrees : GValue.Agrees value updated) :
    Written host { c with cache := c.cache.insertProperty property updated } := by
  have final : c.finalValues [] property = some value := by
    rw [finalValues_unrequested (written.idle property idle).1, there]
  refine ⟨written.lined.cached _, written.ordered, written.numbered, written.stored, written.sent,
    written.noticed, written.present, ?_, ?_, ?_, written.idle, written.awaited⟩
  · intro name entry present
    by_cases mine : name = property
    · subst mine
      simp only [EsconfCache.insertProperty, Function.update_self, Option.some.injEq] at present
      subst present
      refine ⟨travels, ?_⟩
      change Option.Rel _ (c.finalValues [] name) _
      rw [final]
      exact Option.Rel.some agrees
    · simp only [EsconfCache.insertProperty, Function.update_of_ne mine] at present
      exact written.entries name entry present
  · intro name last wrote
    obtain ⟨entry, present, close⟩ := written.lasts name last wrote
    by_cases mine : name = property
    · subst mine
      refine ⟨updated, Function.update_self .., ?_⟩
      obtain ⟨_, settled⟩ := written.entries name entry present
      rw [final] at settled
      cases settled with
      | some settled => exact (agrees.symm.trans settled).trans close
    · exact ⟨entry, (Function.update_of_ne mine ..).trans present, close⟩
  · intro name number oldItem listed held
    have apart : name ≠ property := by
      rintro rfl
      cases idle.symm.trans listed
    obtain ⟨entry, val, present, rest⟩ := written.busy name number oldItem listed held
    exact ⟨entry, val, (Function.update_of_ne apart ..).trans present, rest⟩

/-- A signal that is not ignored has the value that the daemon will have. -/
theorem signal (written : Written host c) {property : CString} {variant : GVariant}
    {rest : List (CString × BusMessage)}
    (shape : c.messages = (property, .propertyChanged variant) :: rest) :
    Written host { c with
      messages := rest,
      cache := (esconfCacheHandlePropertyChanged c.cache c.cache.channelName property
        variant).1 } := by
  have passed := written.pass shape (fun _ _ _ same => by cases same)
  unfold esconfCacheHandlePropertyChanged
  rw [if_neg (not_not.mpr rfl)]
  cases waiting : c.cache.oldProperties property with
  | some number => exact passed
  | none =>
      have back : esconfGvariantToGvalue variant = c.values property := by
        refine (written.idle property waiting).2 (property, .propertyChanged variant) ?_ rfl _ rfl
        rw [shape]
        exact List.mem_cons_self
      rw [back]
      cases there : c.values property with
      | none =>
          cases c.cache.properties property with
          | none => exact passed
          | some item => exact passed
      | some value =>
          have travels := written.stored property value there
          cases present : c.cache.properties property with
          | none => exact passed.updated waiting there travels (GValue.Agrees.refl value)
          | some item =>
              obtain ⟨kept, settled⟩ := written.entries property item present
              rw [finalValues_unrequested (written.idle property waiting).1, there] at settled
              simp only [Option.isSome_none, Bool.false_eq_true, if_false, esconfCacheItemUpdate]
              split
              · cases settled with
                | some agrees => exact passed.updated waiting there kept agrees
              · exact passed.updated waiting there travels (GValue.Agrees.refl value)

theorem waited (written : Written host c) {index : Nat} {entry : Nat × SetPropertyCall}
    (present : c.calls[index]? = some entry)
    (cancelled : c.cache.cancelled entry.2.cancellable = true) {finish : Except DBusError Unit}
    {next : SoleWriter} (ran : c.runCallback index finish = some next) : Written host next := by
  obtain ⟨before, held, done, lined⟩ := written.lined.waited present cancelled finish
  simp only [SoleWriter.runCallback, present, done] at ran
  split at ran
  · cases ran
    refine ⟨lined, written.ordered, written.numbered, written.stored, written.sent,
      written.noticed, written.present, written.entries, written.lasts, ?_, written.idle, ?_⟩
    · intro property number oldItem there item
      by_cases mine : number = entry.2.userData
      · simp only [EsconfCache.setOldItem, mine, Function.update_self, Option.some.injEq] at item
        subst item
        exact written.busy property number before there (mine ▸ held)
      · simp only [EsconfCache.setOldItem, Function.update_of_ne mine] at item
        exact written.busy property number oldItem there item
    · exact fun other member => written.awaited other (List.mem_of_mem_eraseIdx member)
  · cases ran

theorem answered (written : Written host c) {index : Nat} {entry : Nat × SetPropertyCall}
    (present : c.calls[index]? = some entry)
    (running : c.cache.cancelled entry.2.cancellable = false)
    {rest : List (CString × BusMessage)} {name : CString}
    (shape : c.messages = (name, .setPropertyReply entry.1) :: rest) {next : SoleWriter}
    (ran : ({ c with messages := rest } : SoleWriter).runCallback index (.ok ()) = some next) :
    Written host next := by
  have member := List.mem_of_getElem? present
  simp only [SoleWriter.runCallback, present] at ran
  split at ran
  · next turn =>
      obtain ⟨after, announced, done, properties, oldProperties, items, grows, lined⟩ :=
        written.lined.answered present running (by simpa using turn)
      rw [done] at ran
      cases ran
      have serials : c.serials = entry.1 :: (rest.filterMap (·.2.replySerial) ++
          c.requests.map ChannelRequest.serial) := by
        rw [SoleWriter.serials, shape]
        rfl
      have ordered := written.ordered
      rw [serials, List.pairwise_cons] at ordered
      have remains : ∀ later ∈ rest, later ∈ c.messages := by
        intro later listed
        rw [shape]
        exact List.mem_cons_of_mem _ listed
      have waiting : ∀ {property number}, after.oldProperties property = some number →
          property ≠ entry.2.property ∧ c.cache.oldProperties property = some number := by
        intro property number there
        rw [oldProperties] at there
        by_cases mine : property = entry.2.property
        · rw [mine, Function.update_self] at there
          cases there
        · rw [Function.update_of_ne mine] at there
          exact ⟨mine, there⟩
      refine ⟨lined, ordered.2, ?_, written.stored, written.sent, written.noticed, ?_, ?_, ?_, ?_,
        ?_, ?_⟩
      · intro serial listed
        refine written.numbered serial ?_
        rw [serials]
        exact List.mem_cons_of_mem _ listed
      · exact fun later listed => written.present later (remains later listed)
      · rw [properties]
        exact written.entries
      · rw [properties]
        exact written.lasts
      · intro property number oldItem there held
        obtain ⟨apart, was⟩ := waiting there
        rw [properties]
        refine written.busy property number oldItem was ?_
        rw [← items number, held]
        rintro rfl
        have listed := written.lined.tracked.listed entry.2 (Lined.member member)
        obtain ⟨_, item, named, _⟩ := written.lined.tracked.coherent.known _ _ was
        obtain ⟨_, again, named', _⟩ := written.lined.tracked.coherent.known _ _ listed
        rw [item, Option.some.injEq] at again
        exact apart (by rw [← named, again, named'])
      · intro property idle
        by_cases mine : property = entry.2.property
        · subst mine
          obtain ⟨_, ⟨request, listed, _, number⟩ | ⟨none, before, later, messages, fresh⟩⟩ :=
            written.awaited entry member running
          · have below := ordered.1 request.serial
              (List.mem_append_right _ (List.mem_map_of_mem listed))
            omega
          · refine ⟨none, ?_⟩
            rw [shape] at messages
            cases before with
            | nil =>
                rw [List.nil_append, List.cons.injEq] at messages
                exact messages.2 ▸ fresh
            | cons first before =>
                rw [List.cons_append, List.cons.injEq] at messages
                have again : entry.1 ∈ rest.filterMap (·.2.replySerial) := by
                  rw [messages.2, List.mem_filterMap]
                  exact ⟨_, List.mem_append_right _ List.mem_cons_self, rfl⟩
                exact absurd (ordered.1 entry.1 (List.mem_append_left _ again)) (Nat.lt_irrefl _)
        · have was : c.cache.oldProperties property = none := by
            rw [← idle]
            exact (congrFun oldProperties property).trans (Function.update_of_ne mine ..) |>.symm
          obtain ⟨none, fresh⟩ := written.idle property was
          exact ⟨none, fun later listed => fresh later (remains later listed)⟩
      · intro other listed stays
        have fewer := List.mem_of_mem_eraseIdx listed
        obtain ⟨bound, waits⟩ := written.awaited other fewer (grows _ stays)
        refine ⟨bound, waits.imp_right ?_⟩
        rintro ⟨none, before, later, messages, fresh⟩
        refine ⟨none, ?_⟩
        rw [shape] at messages
        cases before with
        | nil =>
            rw [List.nil_append, List.cons.injEq, Prod.mk.injEq] at messages
            obtain ⟨⟨_, number⟩, _⟩ := messages
            have same := List.inj_on_of_nodup_map written.lined.unique fewer member
              (BusMessage.setPropertyReply.inj number).symm
            rw [same] at listed
            have there := lined.tracked.listed entry.2 (Lined.member listed)
            exact absurd rfl (waiting there).1
        | cons first before =>
            rw [List.cons_append, List.cons.injEq] at messages
            exact ⟨before, later, messages.2, fresh⟩
  · cases ran

theorem looked (written : Written host c) {property : CString} {value : GValue}
    {outcome : SetReturn}
    (returned : esconfCacheSet host c.cache property value
      (esconfGetProperty host (c.values property)) = some outcome) :
    ∃ fetched, Written host { c with cache := fetched } ∧
      setLookedUp host fetched property value (fetched.properties property) = some outcome := by
  cases present : c.cache.properties property with
  | some item =>
      refine ⟨c.cache, written, ?_⟩
      simpa only [esconfCacheSet, esconfCacheLookupLocked, present, setAfterLookup] using returned
  | none =>
      have idle : c.cache.oldProperties property = none := by
        cases there : c.cache.oldProperties property with
        | none => rfl
        | some number =>
            obtain ⟨oldItem, held, _⟩ := written.lined.tracked.coherent.known _ _ there
            obtain ⟨entry, _, cached, _⟩ := written.busy property number oldItem there held
            cases present.symm.trans cached
      cases there : c.values property with
      | none =>
          refine ⟨c.cache, written, ?_⟩
          rw [there] at returned
          have notFound : saysNotFound (some propertyNotFoundReply) = true := rfl
          simpa only [esconfCacheSet, esconfCacheLookupLocked, present, esconfGetProperty,
            lookupFetched, setAfterLookup, notFound, if_true] using returned
      | some stored =>
          have travels := written.stored property stored there
          obtain ⟨val, converted, back, _⟩ := written.stored property stored there
          refine ⟨c.cache.insertProperty property stored,
            written.updated idle there travels (GValue.Agrees.refl stored), ?_⟩
          rw [there] at returned
          have inserted : (c.cache.insertProperty property stored).properties property =
              some stored := Function.update_self ..
          simpa only [esconfCacheSet, esconfCacheLookupLocked, present, esconfGetProperty,
            converted, lookupFetched, back, setAfterLookup, inserted] using returned

theorem unchanged (written : Written host c) {property : CString} {value item : GValue}
    (travels : Travels host value) (present : c.cache.properties property = some item)
    (equal : GValue.isEqual item value = true) :
    Written host { c with lastSet := Function.update c.lastSet property (some value) } := by
  refine ⟨written.lined, written.ordered, written.numbered, written.stored, written.sent,
    written.noticed, written.present, written.entries, ?_, ?_, written.idle, written.awaited⟩
  · intro name last wrote
    by_cases mine : name = property
    · subst mine
      simp only [Function.update_self, Option.some.injEq] at wrote
      exact ⟨item, present, wrote ▸ travels.agrees equal⟩
    · simp only [Function.update_of_ne mine] at wrote
      exact written.lasts name last wrote
  · intro name number oldItem there held
    obtain ⟨entry, val, cached, converted, carries, last⟩ :=
      written.busy name number oldItem there held
    refine ⟨entry, val, cached, converted, carries, ?_⟩
    by_cases mine : name = property
    · simp [mine]
    · simpa only [Function.update_of_ne mine] using last

theorem called (written : Written host c) {property : CString} {value : GValue}
    (travels : Travels host value) {after : EsconfCache} {call : SetPropertyCall}
    (called : SetCalled host c.cache property value after call)
    (tracked : Tracked after ((c.calls ++ [(c.serial, call)]).map Prod.snd)) :
    Written host { c with
      cache := after, lastSet := Function.update c.lastSet property (some value),
      requests := c.requests ++ [⟨c.serial, property, call.variant⟩],
      calls := c.calls ++ [(c.serial, call)], serial := c.serial + 1 } := by
  have lined := written.lined.called called tracked
  obtain ⟨oldItem, val, held, _, carries, converted, variant⟩ := called.held
  have decoded : esconfGvariantToGvalue call.variant = some value := by
    obtain ⟨again, sent, back, _⟩ := travels
    rw [converted, Option.some.injEq] at sent
    rw [variant, sent, back]
  have final : ∀ name, SoleWriter.finalValues { c with
      cache := after, lastSet := Function.update c.lastSet property (some value),
      requests := c.requests ++ [⟨c.serial, property, call.variant⟩],
      calls := c.calls ++ [(c.serial, call)], serial := c.serial + 1 } [] name =
        takeUp (c.finalValues []) (property, call.variant) name := by
    intro name
    simp only [SoleWriter.finalValues, List.map_append, List.append_nil, List.foldl_append]
    rfl
  -- A request is that of the set, or one of those before.
  have earlier : ∀ {request : ChannelRequest},
      request ∈ c.requests ++ [⟨c.serial, property, call.variant⟩] →
        request ∈ c.requests ∨ request = ⟨c.serial, property, call.variant⟩ := by
    intro request member
    exact (List.mem_append.mp member).imp_right List.mem_singleton.mp
  refine ⟨lined, ?_, ?_, written.stored, ?_, written.noticed, written.present, ?_, ?_, ?_, ?_, ?_⟩
  · simp only [SoleWriter.serials, List.map_append, ← List.append_assoc]
    rw [List.pairwise_append]
    refine ⟨written.ordered, List.pairwise_singleton _ _, ?_⟩
    intro serial member new last
    rw [List.mem_singleton.mp last]
    exact written.numbered serial member
  · intro serial member
    simp only [SoleWriter.serials, List.map_append, ← List.append_assoc] at member
    rcases List.mem_append.mp member with before | new
    · exact Nat.lt_succ_of_lt (written.numbered serial before)
    · rw [List.mem_singleton.mp new]
      exact Nat.lt_succ_self _
  · intro request member
    rcases earlier member with before | rfl
    · exact written.sent request before
    · exact ⟨value, travels, decoded⟩
  · intro name entry present
    rw [final]
    rw [called.properties] at present
    by_cases mine : name = property
    · rw [mine, Function.update_self, Option.some.injEq] at present
      obtain ⟨stored, left, agrees, _⟩ :=
        takeUp_self (c.finalValues []) property travels decoded
      rw [mine, left, ← present]
      exact ⟨travels, Option.Rel.some agrees⟩
    · rw [Function.update_of_ne mine] at present
      rw [takeUp_other mine]
      exact written.entries name entry present
  · intro name last wrote
    rw [called.properties]
    by_cases mine : name = property
    · subst mine
      simp only [Function.update_self, Option.some.injEq] at wrote
      exact ⟨value, Function.update_self .., wrote ▸ GValue.Agrees.refl value⟩
    · simp only [Function.update_of_ne mine] at wrote
      rw [Function.update_of_ne mine]
      exact written.lasts name last wrote
  · intro name number item there present
    rw [called.properties]
    by_cases mine : name = property
    · subst mine
      have same := Option.some.inj (there.symm.trans called.listed)
      rw [same, held, Option.some.injEq] at present
      exact ⟨value, val, Function.update_self .., converted, present ▸ carries, by simp⟩
    · have apart : number ≠ call.userData := by
        rintro rfl
        obtain ⟨_, one, named, _⟩ := tracked.coherent.known _ _ there
        obtain ⟨_, two, called, _⟩ := tracked.coherent.known _ _ called.listed
        rw [one, Option.some.injEq] at two
        exact mine (by rw [← named, two, called])
      rw [called.others name mine] at there
      rw [called.items number apart] at present
      simp only [Function.update_of_ne mine]
      exact written.busy name number item there present
  · intro name idle
    have mine : name ≠ property := by
      rintro rfl
      cases called.listed.symm.trans idle
    rw [called.others name mine] at idle
    obtain ⟨none, fresh⟩ := written.idle name idle
    refine ⟨?_, fresh⟩
    intro request member
    rcases earlier member with before | rfl
    · exact none request before
    · exact mine.symm
  · intro entry member running
    rcases List.mem_append.mp member with before | new
    · have apart : entry.2.property ≠ property := by
        intro same
        have replaced := (List.pairwise_append.mp lined.older).2.2 entry before (c.serial, call)
          List.mem_cons_self (same.trans called.named.symm)
        rw [running] at replaced
        cases replaced
      have was : c.cache.cancelled entry.2.cancellable = false := by
        rcases called.kept _ (written.lined.given entry before) with same | ⟨now, _⟩
        · rw [← same, running]
        · rw [running] at now
          cases now
      obtain ⟨bound, waits⟩ := written.awaited entry before was
      refine ⟨?_, ?_⟩
      · intro request listed mine
        rcases earlier listed with old | rfl
        · exact bound request old mine
        · exact absurd mine.symm apart
      · refine waits.imp ?_ ?_
        · rintro ⟨request, listed, rest⟩
          exact ⟨request, List.mem_append_left _ listed, rest⟩
        · rintro ⟨none, rest⟩
          refine ⟨?_, rest⟩
          intro request listed
          rcases earlier listed with old | rfl
          · exact none request old
          · exact apart.symm
    · rw [List.mem_singleton.mp new]
      refine ⟨?_, Or.inl ⟨_, List.mem_append_right _ List.mem_cons_self, called.named.symm, rfl⟩⟩
      intro request listed _
      rcases earlier listed with old | rfl
      · exact Nat.le_of_lt (written.numbered _
          (List.mem_append_right _ (List.mem_map_of_mem old)))
      · exact Nat.le_refl _

theorem set (written : Written host c) {property : CString} {value : GValue}
    (travels : Travels host value) {outcome : SetReturn}
    (returned : esconfCacheSet host c.cache property value
      (esconfGetProperty host (c.values property)) = some outcome) :
    Written host (c.afterSet property value outcome) := by
  obtain ⟨fetched, kept, went⟩ := written.looked returned
  have convertible : (esconfGvalueToGvariant host value).isSome := by
    obtain ⟨val, converted, _⟩ := travels
    rw [converted]
    rfl
  cases differs : (fetched.properties property).any (GValue.isEqual · value) with
  | true =>
      rw [setLookedUp_equal differs] at went
      cases went
      obtain ⟨item, present, equal⟩ := (Option.any_eq_true _ _).mp differs
      exact kept.unchanged travels present equal
  | false =>
      have tracked := kept.lined.tracked.setLookedUp (Or.inl convertible) went
      obtain ⟨ret, call, made, called⟩ :=
        setLookedUp_called kept.lined.tracked.coherent differs convertible went
      rw [made, Option.toList_some] at tracked
      simp only [SoleWriter.afterSet, made, ret, if_true]
      refine kept.called travels called ?_
      rw [List.map_append]
      exact tracked

theorem replied (written : Written host c) {property : CString} {serial : Nat}
    {rest : List (CString × BusMessage)}
    (shape : c.messages = (property, .setPropertyReply serial) :: rest) {next : SoleWriter}
    (ran : ({ c with messages := rest } : SoleWriter).reply serial = some next) :
    Written host next := by
  unfold SoleWriter.reply at ran
  simp only at ran
  split at ran
  · next missing =>
      cases ran
      refine written.pass shape ?_
      intro entry member _ same
      have found : c.calls.findIdx (·.1 == serial) < c.calls.length := by
        refine List.findIdx_lt_length_of_exists ⟨entry, member, ?_⟩
        exact beq_iff_eq.mpr (BusMessage.setPropertyReply.inj same).symm
      rw [List.getElem?_eq_none_iff] at missing
      omega
  · next entry present =>
      have found := List.findIdx_of_getElem?_eq_some present
      have number : entry.1 = serial := beq_iff_eq.mp found
      split at ran
      · next cancelled =>
          cases ran
          refine written.pass shape ?_
          intro other member running same
          have equal := List.inj_on_of_nodup_map written.lined.unique member
            (List.mem_of_getElem? present)
            ((BusMessage.setPropertyReply.inj same).symm.trans number.symm)
          rw [equal, cancelled] at running
          cases running
      · next running =>
          rw [Bool.not_eq_true] at running
          exact written.answered present running (number ▸ shape) ran

theorem step (written : Written host c) {event : WriterEvent}
    (travels : ∀ property value, event = .set property value → Travels host value)
    {next : SoleWriter} (stepped : c.step host event = some next) : Written host next := by
  cases event with
  | process =>
      simp only [SoleWriter.step] at stepped
      split at stepped
      · cases stepped
      · next request rest shape =>
          cases stepped
          exact written.process shape
  | idle index =>
      simp only [SoleWriter.step] at stepped
      split at stepped
      · cases stepped
      · next property listed =>
          cases stepped
          exact written.notify listed
  | deliver =>
      simp only [SoleWriter.step] at stepped
      split at stepped
      · cases stepped
      · next property message rest shape =>
          cases message with
          | setPropertyReply serial => exact written.replied shape stepped
          | propertyChanged variant =>
              cases stepped
              exact written.signal shape
          | propertyRemoved =>
              refine absurd rfl (written.present (property, .propertyRemoved) ?_)
              rw [shape]
              exact List.mem_cons_self
  | callback index =>
      simp only [SoleWriter.step] at stepped
      split at stepped
      · cases stepped
      · next entry present =>
          split at stepped
          · next cancelled => exact written.waited present cancelled stepped
          · cases stepped
  | set property value =>
      simp only [SoleWriter.step] at stepped
      split at stepped
      · obtain ⟨outcome, returned, rfl⟩ := Option.map_eq_some_iff.mp stepped
        exact written.set (travels property value rfl) returned
      · cases stepped

theorem run (written : Written host c) {events : List WriterEvent}
    (travels : ∀ property value, .set property value ∈ events → Travels host value)
    {last : SoleWriter} (ran : c.run host events = some last) : Written host last := by
  induction events generalizing c with
  | nil =>
      cases ran
      exact written
  | cons event rest ih =>
      obtain ⟨next, stepped, ran⟩ := Option.bind_eq_some_iff.mp ran
      have after := written.step (fun property value same =>
        travels property value (same ▸ List.mem_cons_self)) stepped
      exact ih after (fun property value member =>
        travels property value (List.mem_cons_of_mem _ member)) ran

/-- Finalising sends the last value of each property that waits, and no other value; then the
daemon has the last values. -/
theorem finalized (written : Written host c) {order : List Nat}
    (all : c.cache.Enumerates order) :
    ∃ left sent, esconfCacheFinalize c.cache order = some (left, sent) ∧
      (sent.map Prod.fst).Nodup ∧
      (∀ property, property ∈ sent.map Prod.fst ↔
        ∃ entry ∈ c.calls, entry.2.property = property) ∧
      (∀ property variant, (property, variant) ∈ sent → ∃ value last,
        esconfGvariantToGvalue variant = some value ∧ c.lastSet property = some last ∧
          GValue.Agrees value last) ∧
      ∀ property last, c.lastSet property = some last →
        Option.Rel GValue.Agrees (c.finalValues sent property) (some last) := by
  have tracked := written.lined.tracked
  obtain ⟨left, done, _⟩ := tracked.finalized all
  -- What is sent is the cached value, which agrees with the last.
  have carries : ∀ property variant, (property, variant) ∈ order.filterMap c.cache.ending →
      ∃ value last, Travels host value ∧ esconfGvariantToGvalue variant = some value ∧
        c.lastSet property = some last ∧ GValue.Agrees value last := by
    intro property variant member
    obtain ⟨number, oldItem, val, there, held, carries, rfl⟩ :=
      (tracked.sent_iff all property variant).mp member
    obtain ⟨value, again, present, converted, same, wrote⟩ :=
      written.busy property number oldItem there held
    rw [carries, Option.some.injEq] at same
    subst same
    obtain ⟨last, wrote⟩ := Option.isSome_iff_exists.mp wrote
    obtain ⟨entry, cached, agrees⟩ := written.lasts property last wrote
    rw [present, Option.some.injEq] at cached
    subst cached
    have travels := (written.entries property value present).1
    obtain ⟨sent, conversion, back, _⟩ := (written.entries property value present).1
    rw [converted, Option.some.injEq] at conversion
    subst conversion
    exact ⟨value, last, travels, back, wrote, agrees⟩
  refine ⟨left, _, done, tracked.sent_once all, ?_, ?_, ?_⟩
  · intro property
    rw [List.mem_map]
    constructor
    · rintro ⟨⟨_, variant⟩, member, rfl⟩
      obtain ⟨number, _, _, there, _⟩ := (tracked.sent_iff all _ variant).mp member
      obtain ⟨call, listed, named, _⟩ := tracked.waiting there
      obtain ⟨entry, member, rfl⟩ := List.mem_map.mp listed
      exact ⟨entry, member, named⟩
    · rintro ⟨entry, member, rfl⟩
      have there := tracked.listed entry.2 (Lined.member member)
      obtain ⟨oldItem, held, _⟩ := tracked.alive (Lined.member member)
      obtain ⟨val, carries⟩ := Option.isSome_iff_exists.mp (tracked.carrying _ oldItem held)
      refine ⟨(entry.2.property, .variant val), ?_, rfl⟩
      rw [tracked.sent_iff all]
      exact ⟨_, oldItem, val, there, held, carries, rfl⟩
  · intro property variant member
    obtain ⟨value, last, _, decoded, wrote, agrees⟩ := carries property variant member
    exact ⟨value, last, decoded, wrote, agrees⟩
  · intro property last wrote
    rw [finalValues_append]
    refine @foldl_takeUp_agrees host _ _ _ _ ?_ ?_
    · obtain ⟨value, present, agrees⟩ := written.lasts property last wrote
      have settled := (written.entries property value present).2
      generalize c.finalValues [] property = final at settled
      cases settled with
      | some settled => exact Option.Rel.some (settled.trans agrees)
    · rintro ⟨_, variant⟩ member rfl
      obtain ⟨value, again, travels, decoded, same, agrees⟩ := carries _ variant member
      rw [wrote, Option.some.injEq] at same
      exact ⟨value, travels, decoded, same ▸ agrees⟩

end Written

end SoleWriter

open SoleWriter in
/-- After finalisation a callback has its old item and does not need the cache, and an old item
is freed once at most, with no callback to come. If all values come back from the bus unchanged,
finalising sends the last value of each property that waits, and the daemon ends with the last
values. -/
theorem finalize_loses_nothing (host : Host) :
    (∀ life, CacheLife.Reached host life →
      (life.freed.Nodup ∧ ∀ number ∈ life.freed, ∀ call ∈ life.calls, call.userData ≠ number) ∧
      (∀ client freed order, life = .alive client freed → client.cache.Enumerates order →
        ∃ next, life.step host (.finalize order) = some next) ∧
      ∀ left (calls : List SetPropertyCall) freed, life = .finalized left calls freed →
        ∀ (index : Nat) (call : SetPropertyCall), calls[index]? = some call →
          ∃ next, left.replyHandler call.userData = some next ∧
            next.cancelled = left.cancelled ∧
            ∀ other, other ≠ call.userData → next.oldItems other = left.oldItems other) ∧
    ∀ channelName values cached events c order,
      (∀ property value, values property = some value → Travels host value) →
      (∀ property, cached property = none ∨ cached property = values property) →
      (∀ property value, .set property value ∈ events → Travels host value) →
      (SoleWriter.start channelName values cached).run host events = some c →
      c.cache.Enumerates order →
        ∃ left sent, esconfCacheFinalize c.cache order = some (left, sent) ∧
          (sent.map Prod.fst).Nodup ∧
          (∀ property, property ∈ sent.map Prod.fst ↔
            ∃ entry ∈ c.calls, entry.2.property = property) ∧
          (∀ property variant, (property, variant) ∈ sent → ∃ value last,
            esconfGvariantToGvalue variant = some value ∧ c.lastSet property = some last ∧
              GValue.Agrees value last) ∧
          ∀ property last, c.lastSet property = some last →
            Option.Rel GValue.Agrees (c.finalValues sent property) (some last) := by
  refine ⟨?_, ?_⟩
  · intro life reached
    refine ⟨reached.freed_once, ?_, ?_⟩
    · rintro client freed order rfl all
      obtain ⟨left, done, _⟩ := reached.sound.1.1.finalized all
      exact ⟨_, by rw [CacheLife.step, done]; rfl⟩
    · rintro left calls freed rfl index call present
      obtain ⟨next, done, cancelled, others, _⟩ := reached.sound.1.late present
      exact ⟨next, done, cancelled, others⟩
  · intro channelName values cached events c order stored fresh travels ran all
    exact ((Written.start stored fresh).run travels ran).finalized all

def unansweredSets : List WriterEvent :=
  [.set "/a".toList (.int 1), .process, .set "/a".toList (.int 2)]

theorem unanswered_set_sent :
    (∃ life, CacheLife.Reached (Host.bare []) life ∧ life.freed = [0] ∧ life.freed.Nodup) ∧
    ∃ c left sent, (SoleWriter.start "Panel".toList (fun _ => none) (fun _ => none)).run
        (Host.bare []) unansweredSets = some c ∧
      esconfCacheFinalize c.cache [1] = some (left, sent) ∧
      c.lastSet "/a".toList = some (.int 2) ∧ (sent.map Prod.fst).Nodup ∧
      Option.Rel GValue.Agrees (c.finalValues sent "/a".toList) (some (.int 2)) := by
  have begun : CacheLife.Reached (Host.bare []) (.alive (CacheClient.new "Panel".toList) []) :=
    .new _
  have called := @CacheLife.Reached.step _ _ _ (.event (.set "/a".toList (.int 1)
    (.error propertyNotFoundReply))) begun (Or.inl rfl) rfl
  have ended := @CacheLife.Reached.step _ _ _ (.finalize [0]) called
    (EsconfCache.enumerates_single rfl fun other different =>
      Function.update_of_ne different ..) rfl
  have late := @CacheLife.Reached.step _ _ _ (.event (.callback 0 (.ok ()))) ended trivial rfl
  have once := ((finalize_loses_nothing (Host.bare [])).1 _ late).1.1
  refine ⟨⟨_, late, rfl, once⟩, ?_⟩
  have travels : ∀ property value, .set property value ∈ unansweredSets →
      Travels (Host.bare []) value := by
    intro property value member
    simp only [unansweredSets, List.mem_cons, WriterEvent.set.injEq, reduceCtorEq, false_or,
      List.not_mem_nil, or_false] at member
    rcases member with ⟨_, rfl⟩ | ⟨_, rfl⟩
    · exact ⟨.int32 1, rfl, rfl, rfl⟩
    · exact ⟨.int32 2, rfl, rfl, rfl⟩
  have others : ∀ other, other ≠ 1 → Function.update (Function.update (Function.update
      (fun _ => none) 0 (some 0)) 0 none) 1 (some 0) other = none := by
    intro other different
    rw [Function.update_of_ne different, Function.update_idem, Function.update_apply]
    exact ite_self _
  obtain ⟨left, sent, done, distinct, _, _, final⟩ :=
    (finalize_loses_nothing (Host.bare [])).2 "Panel".toList (fun _ => none) (fun _ => none)
      unansweredSets _ [1] nofun (fun _ => Or.inl rfl) travels rfl
      (EsconfCache.enumerates_single rfl others)
  exact ⟨_, left, sent, rfl, done, rfl, distinct, final _ _ rfl⟩

def shortSet : List WriterEvent := [.set "/a".toList (.int16 5)]

/-- The value can be converted, but the daemon ends with another. -/
theorem short_set_lost :
    (esconfGvalueToGvariant (Host.bare []) (.int16 5)).isSome ∧
      ∃ c left sent, (SoleWriter.start "Panel".toList (fun _ => none) (fun _ => none)).run
          (Host.bare []) shortSet = some c ∧ c.cache.Enumerates [0] ∧
        esconfCacheFinalize c.cache [0] = some (left, sent) ∧
        c.lastSet "/a".toList = some (.int16 5) ∧
        c.finalValues sent "/a".toList = some (.int 0) ∧
        ¬Option.Rel GValue.Agrees (c.finalValues sent "/a".toList) (some (.int16 5)) := by
  refine ⟨rfl, _, _, _, rfl, ?_, rfl, rfl, rfl, ?_⟩
  · exact EsconfCache.enumerates_single rfl (fun other different =>
      Function.update_of_ne different ..)
  · intro agrees
    have same : Option.Rel GValue.Agrees (some (.int 0)) (some (.int16 5)) := agrees
    cases same with
    | some same => cases same.gtype

end Esconf
