import Esconf.CacheQueue
import Esconf.Library.WriteThroughEcho

/-! The daemon and the client with its cache step as a write-through system does. -/

namespace Esconf

open WriteThrough

abbrev Among (S : GValue → Prop) := { value : GValue // S value }

variable {host : Host} {S : GValue → Prop}

def wire (host : Host) (value : Among S) : GVariant :=
  (esconfGvalueToGvariant host value.1).getD (.other 0)

def sameValue (before after : Among S) : Bool := GValue.isEqual before.1 after.1

namespace ExactValues

variable (exactly : ExactValues host S)
include exactly

theorem converted (value : Among S) : esconfGvalueToGvariant host value.1 = some (wire host value) := by
  obtain ⟨sent, converts, _⟩ := exactly.sent value.1 value.2
  rw [wire, converts]
  rfl

theorem received (value : Among S) :
    esconfGvariantToGvalue (wire host value) = some value.1 ∧
      esconfGvariantToGvalue (.variant (wire host value)) = some value.1 := by
  obtain ⟨sent, converts, boxed, plain⟩ := exactly.sent value.1 value.2
  rw [wire, converts]
  exact ⟨plain, boxed⟩

theorem sound (before after : Among S) (same : sameValue before after = true) : before = after :=
  Subtype.ext (exactly.equal before.1 after.1 before.2 after.2 same)

end ExactValues

def busMessage (host : Host) : Message (Among S) → BusMessage
  | .reply serial => .setPropertyReply serial
  | .changed value => .propertyChanged (wire host value)
  | .removed => .propertyRemoved

def setRequest (host : Host) (set : Nat × Among S) : BusRequest :=
  .setProperty set.1 (.variant (wire host set.2))

def clientCall : Errand (Among S) → ClientCall
  | .write value => .set value.1
  | .read => .lookup
  | .erase left => .reset (left.map Subtype.val)

def errandAnswer (host : Host) : Errand (Among S) → Option (Among S) → BusAnswer
  | .erase _, _ => .resetDone
  | _, copy => .property (esconfGetProperty host (copy.map Subtype.val))

def blockedCall (host : Host) (waiting : Waiting (Errand (Among S)) (Option (Among S))) :
    Waiting ClientCall BusAnswer :=
  (clientCall waiting.1, waiting.2.map fun answer => (errandAnswer host waiting.1 answer.1, answer.2))

def pendingRequest :
    Option (Waiting (Errand (Among S)) (Option (Among S))) → List BusRequest
  | some (.erase left, none) => [.resetProperty (left.map Subtype.val)]
  | some (_, none) => [.getProperty]
  | _ => []

structure Shadows (host : Host) (property : CString) (c : CacheProtocol) (s : System (Among S)) :
    Prop where
  value : c.value = s.stored.map Subtype.val
  idles : c.idles = s.notices
  requests : c.requests = s.sets.map (setRequest host) ++ pendingRequest s.waiting
  messages : c.messages = s.messages.map (busMessage host)
  cached : c.cache.properties property = s.cached.map Subtype.val
  calls : c.calls.map Prod.fst = s.calls
  serial : c.serial = s.serial
  blocked : c.blocked = s.waiting.map (blockedCall host)
  lastSet : c.lastSet = s.last.map Subtype.val
  queue : Queue property c.cache c.calls c.serial

def ProtocolEvent.Among (S : GValue → Prop) : ProtocolEvent → Prop
  | .other (some value) => S value
  | .begin (.set value) => S value
  | .begin (.reset (some left)) => S left
  | _ => True

/-- The client is the only one that writes, and does nothing but set. -/
def ProtocolEvent.OwnSet : ProtocolEvent → Prop
  | .other _ => False
  | .begin call => ∃ value, call = .set value
  | _ => True

theorem backendChanges_values (before after : Option (Among S)) :
    backendChanges (before.map Subtype.val) (after.map Subtype.val) =
      !unchanged sameValue before after := by
  cases before <;> cases after <;> rfl

namespace ExactValues

variable (exactly : ExactValues host S)
include exactly

theorem emitted (value : Option (Among S)) :
    esconfDaemonEmitPropertyChangedIdled host (value.map Subtype.val) =
      [busMessage host (announcement value)] := by
  cases value with
  | none => rfl
  | some value =>
      simp only [Option.map_some, esconfDaemonEmitPropertyChangedIdled, exactly.converted value]
      rfl

theorem itemUpdate (item value : Among S) :
    (esconfCacheItemUpdate item.1 value.1).1 = value.1 := by
  unfold esconfCacheItemUpdate
  split
  · next equal => exact congrArg Subtype.val (exactly.sound item value equal)
  · rfl

theorem listened {cache : EsconfCache} {property : CString}
    (quiet : cache.oldProperties property = none) (value : Among S)
    {copy : Option (Among S)} (cached : cache.properties property = copy.map Subtype.val) :
    ∃ properties,
      (esconfCacheHandlePropertyChanged cache cache.channelName property (wire host value)).1 =
        { cache with properties } ∧ properties property = some value.1 := by
  rw [esconfCacheHandlePropertyChanged, if_neg (not_not.mpr rfl), quiet]
  rw [Option.isSome_none, if_neg Bool.false_ne_true, cached, (exactly.received value).1]
  cases copy with
  | none => exact ⟨_, rfl, Function.update_self ..⟩
  | some item =>
      refine ⟨_, rfl, ?_⟩
      exact (Function.update_self ..).trans (congrArg some (exactly.itemUpdate item value))

theorem fetched (cache : EsconfCache) (property : CString)
    (copy : Option (Among S)) :
    ∃ error, lookupFetched cache property (esconfGetProperty host (copy.map Subtype.val)) =
        (copy.map Subtype.val, error, match copy with
          | none => cache
          | some value => cache.insertProperty property value.1) ∧
      (copy = none → saysNotFound error = true) := by
  cases copy with
  | none => exact ⟨some propertyNotFoundReply, rfl, fun _ => by decide⟩
  | some value =>
      refine ⟨none, ?_, nofun⟩
      simp only [Option.map_some, esconfGetProperty, exactly.converted value, lookupFetched,
        (exactly.received value).2]

end ExactValues

namespace Shadows

variable {property : CString} {c : CacheProtocol} {s : System (Among S)}

theorem start (channelName property : CString) (stored cached : Option (Among S)) :
    Shadows host property (CacheProtocol.start channelName property (stored.map Subtype.val)
      (cached.map Subtype.val)) (System.start stored cached) := by
  refine ⟨rfl, rfl, rfl, rfl, ?_, rfl, rfl, rfl, rfl, Queue.start ..⟩
  simp only [CacheProtocol.start, Function.update_self, System.start]

theorem store (shadows : Shadows host property c s) (left : Option (Among S)) :
    Shadows host property (c.store (left.map Subtype.val)) (s.store sameValue left) := by
  refine ⟨rfl, ?_, shadows.requests, shadows.messages, shadows.cached, shadows.calls,
    shadows.serial, shadows.blocked, shadows.lastSet, shadows.queue⟩
  simp only [CacheProtocol.store, System.store, shadows.value, shadows.idles,
    backendChanges_values]
  cases unchanged sameValue s.stored left <;> rfl

theorem answer (shadows : Shadows host property c s) {errand : Errand (Among S)}
    (waiting : s.waiting = some (errand, none)) (processed : s.sets = []) {request : BusRequest}
    {rest : List BusRequest} (requests : c.requests = request :: rest) {c' : CacheProtocol}
    (handled : { c with requests := rest }.handle host request = some c') :
    Shadows host property c' (s.answerErrand sameValue errand) := by
  have pending := shadows.requests
  rw [requests, processed, waiting] at pending
  have blocked : c.blocked = some (blockedCall host (errand, none)) := by
    rw [shadows.blocked, waiting]
    rfl
  have length : c.messages.length = s.messages.length := by
    rw [shadows.messages, List.length_map]
  cases errand with
  | erase left =>
      cases pending
      cases handled
      have erased := shadows.store left
      refine ⟨erased.value, erased.idles, ?_, erased.messages, erased.cached, erased.calls,
        erased.serial, ?_, erased.lastSet, erased.queue⟩
      · rw [System.answerErrand, System.store, processed]
        rfl
      · simp only [CacheProtocol.answer, CacheProtocol.store, blocked, length]
        rfl
  | write value =>
      cases pending
      cases handled
      refine ⟨shadows.value, shadows.idles, ?_, shadows.messages, shadows.cached, shadows.calls,
        shadows.serial, ?_, shadows.lastSet, shadows.queue⟩
      · change [] = s.sets.map (setRequest host) ++ []
        rw [processed]
        rfl
      · simp only [CacheProtocol.answer, blocked, length, shadows.value]
        rfl
  | read =>
      cases pending
      cases handled
      refine ⟨shadows.value, shadows.idles, ?_, shadows.messages, shadows.cached, shadows.calls,
        shadows.serial, ?_, shadows.lastSet, shadows.queue⟩
      · change [] = s.sets.map (setRequest host) ++ []
        rw [processed]
        rfl
      · simp only [CacheProtocol.answer, blocked, length, shadows.value]
        rfl

theorem process (shadows : Shadows host property c s) (exactly : ExactValues host S)
    {c' : CacheProtocol}
    (stepped : c.step host property .process = some c') :
    ∃ action s', action.Own ∧ s.step sameValue action = some s' ∧ Shadows host property c' s' := by
  rw [CacheProtocol.step] at stepped
  split at stepped
  · cases stepped
  · next request rest requests =>
      cases sets : s.sets with
      | cons first more =>
          obtain ⟨serial, value⟩ := first
          have same := shadows.requests
          rw [requests, sets] at same
          cases same
          simp only [setRequest, CacheProtocol.handle, (exactly.received value).2,
            Option.map_some] at stepped
          cases stepped
          have stored := shadows.store (some value)
          refine ⟨.process, _, trivial, by rw [System.step, sets], ?_⟩
          refine ⟨stored.value, stored.idles, ?_, ?_, stored.cached, stored.calls, stored.serial,
            stored.blocked, stored.lastSet, stored.queue⟩
          · rfl
          · change c.messages ++ _ = (s.messages ++ [Message.reply serial]).map (busMessage host)
            rw [shadows.messages, List.map_append]
            rfl
      | nil =>
          have pending := shadows.requests
          rw [requests, sets] at pending
          cases waiting : s.waiting with
          | none =>
              rw [waiting] at pending
              cases pending
          | some held =>
              obtain ⟨errand, got⟩ := held
              cases got with
              | some got =>
                  rw [waiting] at pending
                  cases errand <;> cases pending
              | none =>
                  refine ⟨.answer, _, trivial, ?_, shadows.answer waiting sets requests stepped⟩
                  rw [System.step, waiting]
                  exact if_pos sets

theorem idle (shadows : Shadows host property c s) (exactly : ExactValues host S)
    {c' : CacheProtocol}
    (stepped : c.step host property .idle = some c') :
    ∃ action s', action.Own ∧ s.step sameValue action = some s' ∧ Shadows host property c' s' := by
  rw [CacheProtocol.step] at stepped
  split at stepped
  · cases stepped
  · next idles counted =>
      cases stepped
      have notices : s.notices = idles + 1 := shadows.idles ▸ counted
      refine ⟨.announce, _, trivial, by rw [System.step, notices], ?_⟩
      refine ⟨shadows.value, rfl, shadows.requests, ?_, shadows.cached, shadows.calls,
        shadows.serial, shadows.blocked, shadows.lastSet, shadows.queue⟩
      simp only [shadows.value, exactly.emitted, shadows.messages, List.map_append]
      rfl

theorem pass (shadows : Shadows host property c s) {message : BusMessage} {rest : List BusMessage}
    (messages : c.messages = message :: rest) {blocked : Option (Waiting ClientCall BusAnswer)}
    (passed : passMessage c.blocked = some blocked) :
    ∃ word words waiting, s.messages = word :: words ∧ message = busMessage host word ∧
      passMessage s.waiting = some waiting ∧
      Shadows host property { c with messages := rest, blocked }
        { s with messages := words, waiting } := by
  have same := shadows.messages
  rw [messages] at same
  obtain ⟨word, words, split, rfl, rfl⟩ := List.map_eq_cons_iff.mp same.symm
  have blocks := shadows.blocked
  have goes : ∃ waiting, passMessage s.waiting = some waiting ∧
      blocked = waiting.map (blockedCall host) ∧ pendingRequest waiting = pendingRequest s.waiting := by
    rw [blocks] at passed
    generalize s.waiting = before at passed ⊢
    rcases before with _ | ⟨errand, _ | ⟨copy, _ | ahead⟩⟩
    · cases passed
      exact ⟨none, rfl, rfl, rfl⟩
    · cases passed
      exact ⟨_, rfl, rfl, rfl⟩
    · cases passed
    · cases passed
      refine ⟨_, rfl, rfl, ?_⟩
      cases errand <;> rfl
  obtain ⟨waiting, goes, rfl, pending⟩ := goes
  refine ⟨word, words, waiting, split, rfl, goes, ?_⟩
  refine ⟨shadows.value, shadows.idles, ?_, rfl, shadows.cached, shadows.calls, shadows.serial, rfl,
    shadows.lastSet, shadows.queue⟩
  rw [pending]
  exact shadows.requests

theorem copy (shadows : Shadows host property c s) {properties : CString → Option GValue}
    {cached : Option (Among S)} (now : properties property = cached.map Subtype.val) :
    Shadows host property { c with cache := { c.cache with properties } } { s with cached } :=
  ⟨shadows.value, shadows.idles, shadows.requests, shadows.messages, now, shadows.calls,
    shadows.serial, shadows.blocked, shadows.lastSet, shadows.queue.cached properties⟩

theorem changed (shadows : Shadows host property c s) (exactly : ExactValues host S)
    (value : Among S) {c' : CacheProtocol}
    (received : c.receive property (.propertyChanged (wire host value)) = some c') :
    ∃ s', s.receive (.changed value) = some s' ∧ Shadows host property c' s' := by
  refine ⟨_, rfl, ?_⟩
  cases received
  have none_left : c.cache.oldProperties property = none ↔ s.calls = [] := by
    rw [shadows.queue.idle, ← shadows.calls, List.map_eq_nil_iff]
  by_cases idle : s.calls = []
  · rw [if_pos idle]
    obtain ⟨properties, listened, now⟩ :=
      exactly.listened (none_left.mpr idle) value shadows.cached
    rw [listened]
    exact shadows.copy now
  · rw [if_neg idle]
    have some_left := Option.isSome_iff_ne_none.mpr (mt none_left.mp idle)
    rw [esconfCacheHandlePropertyChanged, if_neg (not_not.mpr rfl), if_pos some_left]
    exact shadows

theorem removed (shadows : Shadows host property c s) {c' : CacheProtocol}
    (received : c.receive property .propertyRemoved = some c') :
    ∃ s', s.receive .removed = some s' ∧ Shadows host property c' s' := by
  refine ⟨_, rfl, ?_⟩
  cases received
  rw [esconfCacheHandlePropertyRemoved, if_neg (not_not.mpr rfl)]
  exact shadows.copy (Function.update_self ..)

/-- A reply is to the newest call, which waits for the callbacks of the others, or
to one that was cancelled. -/
theorem replied (shadows : Shadows host property c s) {serial : Nat} {c' : CacheProtocol}
    (received : c.receive property (.setPropertyReply serial) = some c') :
    ∃ s', s.receive (.reply serial) = some s' ∧ Shadows host property c' s' := by
  have queue := shadows.queue
  have last : s.calls.getLast? = c.calls.getLast?.map Prod.fst := by
    rw [← shadows.calls, List.getLast?_map]
  -- The reply is to the newest call if one with its serial is the newest.
  have newest : s.calls.getLast? = some serial →
      ∃ entry ∈ c.calls, entry.1 = serial ∧ c.calls.getLast? = some entry := by
    intro same
    rw [last] at same
    obtain ⟨entry, there, first⟩ := Option.map_eq_some_iff.mp same
    exact ⟨entry, List.mem_of_getLast? there, first, there⟩
  rw [CacheProtocol.receive, CacheProtocol.reply] at received
  split at received
  · next missing =>
      cases received
      refine ⟨s, if_neg ?_, shadows⟩
      intro same
      obtain ⟨entry, member, first, _⟩ := newest same
      exact List.find?_eq_none.mp missing entry member (beq_iff_eq.mpr first)
  · next number call found =>
      have member := List.mem_of_find?_eq_some found
      have here := List.find?_some found
      have first : number = serial := beq_iff_eq.mp here
      split at received
      · next cancelled =>
          cases received
          refine ⟨s, if_neg ?_, shadows⟩
          intro same
          obtain ⟨entry, there, start, final⟩ := newest same
          cases List.inj_on_of_nodup_map queue.unique member there (first.trans start.symm)
          have alive := queue.alive final
          rw [cancelled] at alive
          cases alive
      · next running =>
          have final := queue.last_of_alive member (Bool.not_eq_true _ ▸ running)
          have same : s.calls.getLast? = some serial := by
            rw [last, final, ← first]
            rfl
          split at received
          · cases received
          · next first' call' rest calls =>
              split at received
              · next start =>
                  have here : (first', call') = (number, call) :=
                    List.inj_on_of_nodup_map queue.unique (calls ▸ List.mem_cons_self) member
                      (start.trans first.symm)
                  cases here
                  cases rest with
                  | cons next more =>
                      have unique := queue.unique
                      rw [calls] at unique final
                      rw [List.getLast?_cons_cons] at final
                      exact absurd (List.mem_map_of_mem (List.mem_of_getLast? final))
                        (List.nodup_cons.mp unique).1
                  | nil =>
                      rw [calls] at queue
                      obtain ⟨after, announced, done, kept, settled⟩ := queue.replied
                      rw [done] at received
                      cases received
                      have only : s.calls = [serial] := by
                        rw [← shadows.calls, calls, ← first]
                        rfl
                      refine ⟨{ s with calls := [] }, ?_, ?_⟩
                      · rw [System.receive, if_pos same, if_pos only]
                      · exact ⟨shadows.value, shadows.idles, shadows.requests, shadows.messages,
                          (congrFun kept property).trans shadows.cached, rfl, shadows.serial,
                          shadows.blocked, shadows.lastSet, settled⟩
              · cases received

theorem deliver (shadows : Shadows host property c s) (exactly : ExactValues host S)
    {c' : CacheProtocol}
    (stepped : c.step host property .deliver = some c') :
    ∃ action s', action.Own ∧ s.step sameValue action = some s' ∧ Shadows host property c' s' := by
  rw [CacheProtocol.step] at stepped
  split at stepped
  · cases stepped
  · next message rest messages =>
      obtain ⟨blocked, passed, received⟩ := Option.bind_eq_some_iff.mp stepped
      obtain ⟨word, words, waiting, split, rfl, goes, before⟩ := shadows.pass messages passed
      have done : ∃ s', { s with messages := words, waiting }.receive word = some s' ∧
          Shadows host property c' s' := by
        cases word with
        | reply serial => exact before.replied received
        | changed value => exact before.changed exactly value received
        | removed => exact before.removed received
      obtain ⟨s', now, after⟩ := done
      refine ⟨.deliver, s', trivial, ?_, after⟩
      rw [System.step, split]
      exact Option.bind_eq_some_iff.mpr ⟨waiting, goes, now⟩

theorem callback (shadows : Shadows host property c s) {c' : CacheProtocol}
    (stepped : c.step host property .callback = some c') :
    ∃ action s', action.Own ∧ s.step sameValue action = some s' ∧ Shadows host property c' s' := by
  rw [CacheProtocol.step] at stepped
  split at stepped
  · cases stepped
  · next first call rest calls =>
      split at stepped
      · next cancelled =>
          have queue := shadows.queue
          rw [calls] at queue
          obtain ⟨more, after, done, kept, left⟩ := queue.callback cancelled (.error cancelledReply)
          rw [done] at stepped
          cases stepped
          cases rest with
          | nil => exact absurd rfl more
          | cons next rest =>
              have same := shadows.calls
              rw [calls] at same
              refine ⟨.callback, { s with calls := next.1 :: rest.map Prod.fst }, trivial, ?_, ?_⟩
              · rw [System.step, ← same]
                rfl
              · exact ⟨shadows.value, shadows.idles, shadows.requests, shadows.messages,
                  (congrFun kept property).trans shadows.cached, rfl, shadows.serial,
                  shadows.blocked, shadows.lastSet, left⟩
      · cases stepped

theorem set (shadows : Shadows host property c s) (exactly : ExactValues host S)
    (free : s.waiting = none) (value : Among S) {copy : Option (Among S)}
    (fetched : copy = none ∨ c.cache.properties property = copy.map Subtype.val) :
    ∃ outcome, setLookedUp host c.cache property value.1 (copy.map Subtype.val) = some outcome ∧
      Shadows host property (c.afterSet value.1 outcome)
        ({ s with cached := copy }.write sameValue value) := by
  have compared : (copy.map Subtype.val).any (GValue.isEqual · value.1) =
      unchanged sameValue copy (some value) := by
    cases copy <;> rfl
  cases still : unchanged sameValue copy (some value) with
  | true =>
      have equal := eq_of_unchanged exactly.sound still
      refine ⟨_, setLookedUp_equal (compared.trans still), ?_⟩
      rw [System.write, if_pos still]
      refine ⟨shadows.value, shadows.idles, shadows.requests, shadows.messages, ?_, shadows.calls,
        shadows.serial, shadows.blocked, rfl, shadows.queue⟩
      exact fetched.resolve_left (equal ▸ Option.some_ne_none value)
  | false =>
      obtain ⟨outcome, call, sets, ret, made, variant, now, queue⟩ :=
        shadows.queue.set (exactly.converted value) (compared.trans still)
      refine ⟨outcome, sets, ?_⟩
      rw [System.write, if_neg (Bool.eq_false_iff.mp still)]
      simp only [CacheProtocol.afterSet, made, ret, if_pos]
      refine ⟨shadows.value, shadows.idles, ?_, shadows.messages, now, ?_, ?_, shadows.blocked, rfl,
        queue⟩
      · have requests := shadows.requests
        rw [free] at requests
        simp only [System.send, free, requests, variant, shadows.serial, List.map_append]
        simp [pendingRequest, setRequest]
      · simp only [System.send, List.map_append, shadows.calls, shadows.serial]
        rfl
      · exact congrArg (· + 1) shadows.serial

theorem wait (shadows : Shadows host property c s) (free : s.waiting = none)
    (errand : Errand (Among S)) {request : BusRequest}
    (asks : pendingRequest (some (errand, none)) = [request]) :
    Shadows host property { c with
      requests := c.requests ++ [request], blocked := some (clientCall errand, none) }
      { s with waiting := some (errand, none) } := by
  refine ⟨shadows.value, shadows.idles, ?_, shadows.messages, shadows.cached, shadows.calls,
    shadows.serial, rfl, shadows.lastSet, shadows.queue⟩
  have requests := shadows.requests
  rw [free] at requests
  simp only [asks, requests]
  simp [pendingRequest]

theorem begin (shadows : Shadows host property c s) (exactly : ExactValues host S)
    {call : ClientCall} (among : (ProtocolEvent.begin call).Among S) {c' : CacheProtocol}
    (stepped : c.step host property (.begin call) = some c') :
    ∃ errand s', s.step sameValue (.begin errand) = some s' ∧ Shadows host property c' s' ∧
      ∀ value, call = .set value → ∃ sent, errand = .write sent := by
  rw [CacheProtocol.step] at stepped
  split at stepped
  · cases stepped
  · next unblocked =>
      have free : s.waiting = none := by
        rw [shadows.blocked, Option.isSome_map, Option.not_isSome_iff_eq_none] at unblocked
        exact unblocked
      have steps : ∀ errand,
          s.step sameValue (.begin errand) = some (s.beginErrand sameValue errand) := by
        intro errand
        rw [System.step, free]
        rfl
      have cached := shadows.cached
      cases call with
      | set value =>
          have among_value : S value := among
          refine ⟨.write ⟨value, among_value⟩, _, steps _, ?_, fun _ _ => ⟨_, rfl⟩⟩
          cases copy : s.cached with
          | some item =>
              obtain ⟨outcome, sets, after⟩ :=
                shadows.set exactly free ⟨value, among_value⟩ (Or.inr cached)
              rw [copy] at cached sets
              simp only [CacheProtocol.call, cached, Option.map_some, setAfterLookup] at stepped sets
              rw [sets] at stepped
              cases stepped
              simp only [System.beginErrand, copy]
              exact after
          | none =>
              rw [copy] at cached
              simp only [CacheProtocol.call, cached, Option.map_none] at stepped
              cases stepped
              have waits := shadows.wait free (.write ⟨value, among_value⟩) rfl
              simp only [System.beginErrand, copy] at waits ⊢
              exact waits
      | lookup =>
          refine ⟨.read, _, steps _, ?_, fun _ other => by cases other⟩
          cases copy : s.cached with
          | some item =>
              rw [copy] at cached
              simp only [CacheProtocol.call, cached, Option.map_some] at stepped
              cases stepped
              simp only [System.beginErrand, copy]
              exact shadows
          | none =>
              rw [copy] at cached
              simp only [CacheProtocol.call, cached, Option.map_none] at stepped
              cases stepped
              have waits := shadows.wait free .read rfl
              simp only [System.beginErrand, copy] at waits ⊢
              exact waits
      | reset left =>
          have covered : ∃ kept : Option (Among S), left = kept.map Subtype.val := by
            cases left with
            | none => exact ⟨none, rfl⟩
            | some left => exact ⟨some ⟨left, among⟩, rfl⟩
          obtain ⟨kept, rfl⟩ := covered
          refine ⟨.erase kept, _, steps _, ?_, fun _ other => by cases other⟩
          simp only [CacheProtocol.call] at stepped
          cases stepped
          exact shadows.wait free (.erase kept) rfl

theorem free (shadows : Shadows host property c s) {errand : Errand (Among S)}
    {answer : Option (Among S) × Nat} (waiting : s.waiting = some (errand, some answer)) :
    Shadows host property { c with blocked := none } { s with waiting := none } := by
  refine ⟨shadows.value, shadows.idles, ?_, shadows.messages, shadows.cached, shadows.calls,
    shadows.serial, rfl, shadows.lastSet, shadows.queue⟩
  have requests := shadows.requests
  rw [waiting] at requests
  rw [requests]
  cases errand <;> rfl

theorem resume (shadows : Shadows host property c s) (exactly : ExactValues host S)
    {c' : CacheProtocol}
    (stepped : c.step host property .resume = some c') :
    ∃ action s', action.Own ∧ s.step sameValue action = some s' ∧ Shadows host property c' s' := by
  rw [CacheProtocol.step] at stepped
  split at stepped
  · next call answer ahead blocked =>
      have same := shadows.blocked
      rw [blocked] at same
      obtain ⟨⟨errand, got⟩, waiting, answered⟩ := Option.map_eq_some_iff.mp same.symm
      cases got with
      | none => cases answered
      | some got =>
          obtain ⟨copy, ahead'⟩ := got
          cases answered
          have finishes : s.step sameValue .resume = some (s.finishErrand sameValue copy errand) := by
            rw [System.step, waiting]
          have ended := shadows.free waiting
          refine ⟨.resume, _, trivial, finishes, ?_⟩
          cases errand with
          | erase left =>
              cases stepped
              exact ended.copy (Function.update_self ..)
          | read =>
              obtain ⟨error, fetched, _⟩ := exactly.fetched c.cache property copy
              simp only [clientCall, errandAnswer, CacheProtocol.finish, fetched] at stepped
              cases stepped
              cases copy with
              | none => exact ended
              | some value => exact ended.copy (Function.update_self ..)
          | write value =>
              obtain ⟨error, fetched, missing⟩ := exactly.fetched c.cache property copy
              simp only [clientCall, errandAnswer, CacheProtocol.finish, fetched] at stepped
              cases copy with
              | none =>
                  obtain ⟨outcome, sets, after⟩ :=
                    ended.set exactly rfl value (Or.inl (Eq.refl none))
                  simp only [Option.map_none, setAfterLookup, missing rfl, if_pos] at stepped sets
                  rw [sets] at stepped
                  cases stepped
                  exact after
              | some item =>
                  have now : Function.update c.cache.properties property (some item.1) property =
                      (some item).map Subtype.val := Function.update_self ..
                  have brought := ended.copy now
                  obtain ⟨outcome, sets, after⟩ :=
                    brought.set exactly rfl value (Or.inr brought.cached)
                  simp only [Option.map_some, setAfterLookup, EsconfCache.insertProperty]
                    at stepped sets
                  rw [sets] at stepped
                  cases stepped
                  exact after
  · cases stepped

theorem quiescent (shadows : Shadows host property c s) (quiescent : c.Quiescent) :
    s.Quiescent := by
  obtain ⟨idles, requests, messages, calls, blocked⟩ := quiescent
  rw [shadows.requests, List.append_eq_nil_iff, List.map_eq_nil_iff] at requests
  rw [shadows.messages, List.map_eq_nil_iff] at messages
  rw [shadows.blocked, Option.map_eq_none_iff] at blocked
  refine ⟨shadows.idles ▸ idles, requests.1, messages, ?_, blocked⟩
  rw [← shadows.calls, calls]
  rfl

/-- A step of the protocol is a step of the write-through system. -/
theorem step (shadows : Shadows host property c s) (exactly : ExactValues host S)
    {event : ProtocolEvent} (among : event.Among S)
    {c' : CacheProtocol} (stepped : c.step host property event = some c') :
    ∃ action s', s.step sameValue action = some s' ∧ Shadows host property c' s' ∧
      (event.OwnSet → action.Own) := by
  cases event with
  | process =>
      obtain ⟨action, s', own, done, after⟩ := shadows.process exactly stepped
      exact ⟨action, s', done, after, fun _ => own⟩
  | idle =>
      obtain ⟨action, s', own, done, after⟩ := shadows.idle exactly stepped
      exact ⟨action, s', done, after, fun _ => own⟩
  | other value =>
      cases stepped
      cases value with
      | none => exact ⟨.other none, _, rfl, shadows.store none, False.elim⟩
      | some value =>
          exact ⟨.other (some ⟨value, among⟩), _, rfl, shadows.store (some ⟨value, among⟩),
            False.elim⟩
  | deliver =>
      obtain ⟨action, s', own, done, after⟩ := shadows.deliver exactly stepped
      exact ⟨action, s', done, after, fun _ => own⟩
  | callback =>
      obtain ⟨action, s', own, done, after⟩ := shadows.callback stepped
      exact ⟨action, s', done, after, fun _ => own⟩
  | begin call =>
      obtain ⟨errand, s', done, after, own⟩ := shadows.begin exactly among stepped
      exact ⟨.begin errand, s', done, after, fun ⟨value, sets⟩ => own value sets⟩
  | resume =>
      obtain ⟨action, s', own, done, after⟩ := shadows.resume exactly stepped
      exact ⟨action, s', done, after, fun _ => own⟩

end Shadows

theorem Shadows.run {property : CString} (exactly : ExactValues host S)
    {events : List ProtocolEvent} (among : ∀ event ∈ events, event.Among S) {c c' : CacheProtocol}
    {s : System (Among S)} (shadows : Shadows host property c s)
    (ran : c.run host property events = some c') :
    ∃ actions s', s.run sameValue actions = some s' ∧ Shadows host property c' s' ∧
      ((∀ event ∈ events, event.OwnSet) → ∀ action ∈ actions, action.Own) := by
  induction events generalizing c s with
  | nil =>
      cases ran
      exact ⟨[], s, rfl, shadows, fun _ => nofun⟩
  | cons event rest ih =>
      obtain ⟨next, stepped, later⟩ := Option.bind_eq_some_iff.mp ran
      obtain ⟨action, middle, done, after, own⟩ :=
        shadows.step exactly (among event List.mem_cons_self) stepped
      obtain ⟨actions, s', runs, last, owns⟩ :=
        ih (fun other member => among other (List.mem_cons_of_mem _ member)) after later
      refine ⟨action :: actions, s', Option.bind_eq_some_iff.mpr ⟨middle, done, runs⟩, last, ?_⟩
      intro all
      rw [List.forall_mem_cons] at all ⊢
      exact ⟨own all.1, owns all.2⟩

theorem Shadows.begins {channelName property : CString} {value cached : Option GValue}
    (among : ∀ present, value = some present → S present)
    (fresh : cached = none ∨ cached = value) :
    ∃ stored copy : Option (Among S), (copy = none ∨ copy = stored) ∧
      Shadows host property (CacheProtocol.start channelName property value cached)
        (System.start stored copy) := by
  have covered : ∃ stored : Option (Among S), value = stored.map Subtype.val := by
    cases value with
    | none => exact ⟨none, rfl⟩
    | some present => exact ⟨some ⟨present, among present rfl⟩, rfl⟩
  obtain ⟨stored, rfl⟩ := covered
  rcases fresh with rfl | rfl
  · exact ⟨stored, none, Or.inl rfl, Shadows.start channelName property stored none⟩
  · exact ⟨stored, stored, Or.inr rfl, Shadows.start channelName property stored stored⟩

end Esconf
