import Esconf.CacheShadows
import Esconf.Library.WriteThroughConvergence

/-! What the cache of a client has when nothing is on its way, and what it has after
the sets of the client. -/

namespace Esconf

open WriteThrough

variable {host : Host} {S : GValue → Prop}

/-- With exact values, when nothing is on its way the cache has no entry for the
property or the value of the daemon. -/
theorem cache_converges {channelName property : CString} {value cached : Option GValue}
    (exactly : ExactValues host S) (initial : ∀ present, value = some present → S present)
    (fresh : cached = none ∨ cached = value) {events : List ProtocolEvent}
    (among : ∀ event ∈ events, event.Among S) {c : CacheProtocol}
    (ran : (CacheProtocol.start channelName property value cached).run host property events =
      some c) (quiescent : c.Quiescent) :
    c.cache.properties property = none ∨ c.cache.properties property = c.value := by
  obtain ⟨stored, copy, agreed, begins⟩ := Shadows.begins initial fresh
  obtain ⟨actions, s, runs, shadows, _⟩ := begins.run exactly among ran
  have converging : s.Converging :=
    System.run_keeps (fun before (_ : True) done => before.step exactly.sound done)
      (fun _ _ => trivial) (System.converging_start agreed) runs
  rw [shadows.cached, shadows.value]
  rcases converging.quiescent (shadows.quiescent quiescent) with none | same
  · exact Or.inl (by rw [none]; rfl)
  · exact Or.inr (by rw [same])

/-- Another client sets the property after this one has; the signal comes before the
reply, and then again. -/
def crossing : List ProtocolEvent :=
  [.begin (.set (.int 2)), .process, .resume, .process, .other (some (.int 3)), .idle, .deliver,
    .deliver, .idle, .deliver]

theorem cache_converges_crossing :
    ∃ c, (CacheProtocol.start "Panel".toList "/a".toList (some (.int 1)) none).run (Host.bare [])
        "/a".toList crossing = some c ∧ c.Quiescent ∧ c.value = some (.int 3) ∧
      (c.cache.properties "/a".toList = none ∨ c.cache.properties "/a".toList = c.value) := by
  obtain ⟨c, ran, quiescent, value⟩ : ∃ c, (CacheProtocol.start "Panel".toList "/a".toList
      (some (.int 1)) none).run (Host.bare []) "/a".toList crossing = some c ∧ c.Quiescent ∧
      c.value = some (.int 3) :=
    ⟨_, rfl, ⟨rfl, rfl, rfl, rfl, rfl⟩, rfl⟩
  refine ⟨c, ran, quiescent, value, ?_⟩
  refine cache_converges (exactValues_scalar (Host.bare [])) ?_ (Or.inl rfl) ?_ ran quiescent
  · rintro _ ⟨⟩
    trivial
  · simp [crossing, ProtocolEvent.Among, ExactValue]

/-- With exact values, a client that alone writes the property and does nothing but
set it always has its last value in the cache. -/
theorem own_set_is_cached {channelName property : CString} {value cached : Option GValue}
    (exactly : ExactValues host S) (initial : ∀ present, value = some present → S present)
    (fresh : cached = none ∨ cached = value) {events : List ProtocolEvent}
    (among : ∀ event ∈ events, event.Among S) (own : ∀ event ∈ events, event.OwnSet)
    {c : CacheProtocol}
    (ran : (CacheProtocol.start channelName property value cached).run host property events =
      some c) {last : GValue} (wrote : c.lastSet = some last) :
    c.cache.properties property = some last := by
  obtain ⟨stored, copy, agreed, begins⟩ := Shadows.begins initial fresh
  obtain ⟨actions, s, runs, shadows, owns⟩ := begins.run exactly among ran
  have echoing : s.Echoing :=
    System.run_keeps (fun before allowed done => before.step exactly.sound allowed done)
      (owns own) (System.echoing_start agreed) runs
  rw [shadows.lastSet] at wrote
  obtain ⟨sent, same, rfl⟩ := Option.map_eq_some_iff.mp wrote
  rw [shadows.cached, (echoing.written sent same).cached]
  rfl

def echo : List ProtocolEvent :=
  [.begin (.set (.int 2)), .process, .resume, .process, .idle, .begin (.set (.int 3)), .deliver,
    .deliver, .callback]

theorem own_set_is_cached_echo :
    ∃ c, (CacheProtocol.start "Panel".toList "/a".toList (some (.int 1)) none).run (Host.bare [])
        "/a".toList echo = some c ∧ c.lastSet = some (.int 3) ∧
      c.cache.properties "/a".toList = some (.int 3) := by
  obtain ⟨c, ran, wrote⟩ : ∃ c, (CacheProtocol.start "Panel".toList "/a".toList
      (some (.int 1)) none).run (Host.bare []) "/a".toList echo = some c ∧
      c.lastSet = some (.int 3) :=
    ⟨_, rfl, rfl⟩
  refine ⟨c, ran, wrote, ?_⟩
  refine own_set_is_cached (exactValues_scalar (Host.bare [])) ?_ (Or.inl rfl) ?_ ?_ ran wrote
  · rintro _ ⟨⟩
    trivial
  · simp [echo, ProtocolEvent.Among, ExactValue]
  · simp [echo, ProtocolEvent.OwnSet]

def shortSets : List ProtocolEvent :=
  [.begin (.set (.int16 0)), .process, .resume, .begin (.set (.int16 7))]

/-- The second set returns TRUE and the cache keeps the value of the first. -/
theorem own_set_is_not_cached :
    (∀ event ∈ shortSets, event.OwnSet) ∧
      (esconfGvalueToGvariant (Host.bare []) (.int16 7)).isSome ∧
      ∃ c, (CacheProtocol.start "Panel".toList "/a".toList none none).run (Host.bare [])
          "/a".toList shortSets = some c ∧
        c.lastSet = some (.int16 7) ∧ c.cache.properties "/a".toList = some (.int16 0) := by
  refine ⟨?_, rfl, _, rfl, rfl, rfl⟩
  simp [shortSets, ProtocolEvent.OwnSet]

end Esconf
